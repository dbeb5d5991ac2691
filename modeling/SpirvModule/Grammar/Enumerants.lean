import SpirvModule.Word

/-!
# The enumerants of the grammar

An operand that stands for a member of an enumeration is a number. A number is a
member of the enumeration when it lies in one of its ranges.

* `Enumerant.ofWord?`: the member that a word stands for.
* `StorageClass`, `Dim`, `ImageFormat`: enumerations whose members have names here.
-/
namespace SpirvModule

/-- A member of the enumeration whose numbers lie in `ranges`, both ends included. -/
structure Enumerant (ranges : List (Nat × Nat)) where
  value : Word
  listed : ranges.any (fun r => r.1 ≤ value.toNat && value.toNat ≤ r.2) = true
  deriving DecidableEq

namespace Enumerant

variable {ranges : List (Nat × Nat)}

/-- The member that `w` stands for. -/
def ofWord? (w : Word) : Option (Enumerant ranges) :=
  if h : ranges.any (fun r => r.1 ≤ w.toNat && w.toNat ≤ r.2) = true then some ⟨w, h⟩ else none

@[simp] theorem ofWord?_value (e : Enumerant ranges) : ofWord? e.value = some e := by
  simp only [ofWord?, e.listed, dite_true]

end Enumerant

namespace Grammar

/-- Storage classes with their numbers. -/
def storageClasses : List (Nat × String) := [
  (0, "UniformConstant"), (1, "Input"), (2, "Uniform"), (3, "Output"), (4, "Workgroup"),
  (5, "CrossWorkgroup"), (6, "Private"), (7, "Function"), (8, "Generic"), (9, "PushConstant"),
  (10, "AtomicCounter"), (11, "Image"), (12, "StorageBuffer"), (4172, "TileImageEXT"),
  (5068, "NodePayloadAMDX"), (5076, "NodeOutputPayloadAMDX"), (5328, "CallableDataNV"),
  (5329, "IncomingCallableDataNV"), (5338, "RayPayloadNV"), (5339, "HitAttributeNV"),
  (5342, "IncomingRayPayloadNV"), (5343, "ShaderRecordBufferNV"),
  (5349, "PhysicalStorageBuffer"), (5385, "HitObjectAttributeNV"),
  (5402, "TaskPayloadWorkgroupEXT"), (5605, "CodeSectionINTEL"), (5936, "DeviceOnlyINTEL"),
  (5937, "HostOnlyINTEL")]

/-- Image dimensions with their numbers. -/
def dims : List (Nat × String) := [
  (0, "Dim1D"), (1, "Dim2D"), (2, "Dim3D"), (3, "DimCube"), (4, "DimRect"), (5, "DimBuffer"),
  (6, "DimSubpassData"), (4173, "DimTileImageDataEXT")]

/-- Image formats with their numbers. -/
def imageFormats : List (Nat × String) := [
  (0, "Unknown"), (1, "Rgba32f"), (2, "Rgba16f"), (3, "R32f"), (4, "Rgba8"), (5, "Rgba8Snorm"),
  (6, "Rg32f"), (7, "Rg16f"), (8, "R11fG11fB10f"), (9, "R16f"), (10, "Rgba16"), (11, "Rgb10A2"),
  (12, "Rg16"), (13, "Rg8"), (14, "R16"), (15, "R8"), (16, "Rgba16Snorm"), (17, "Rg16Snorm"),
  (18, "Rg8Snorm"), (19, "R16Snorm"), (20, "R8Snorm"), (21, "Rgba32i"), (22, "Rgba16i"),
  (23, "Rgba8i"), (24, "R32i"), (25, "Rg32i"), (26, "Rg16i"), (27, "Rg8i"), (28, "R16i"),
  (29, "R8i"), (30, "Rgba32ui"), (31, "Rgba16ui"), (32, "Rgba8ui"), (33, "R32ui"),
  (34, "Rgb10a2ui"), (35, "Rg32ui"), (36, "Rg16ui"), (37, "Rg8ui"), (38, "R16ui"), (39, "R8ui"),
  (40, "R64ui"), (41, "R64i")]

/-- The numbers of an enumeration whose members are listed with names. -/
def numbers (members : List (Nat × String)) : List (Nat × Nat) := members.map fun m => (m.1, m.1)

/-- The name of number `n`. -/
def nameOf (members : List (Nat × String)) (n : Nat) : String := (members.lookup n).getD ""

/-- Numbers of decorations. -/
def decorations : List (Nat × Nat) := [
  (0, 11), (13, 47), (4469, 4470), (4487, 4488), (4999, 4999), (5019, 5020), (5078, 5078),
  (5091, 5091), (5248, 5248), (5250, 5250), (5252, 5252), (5256, 5256), (5271, 5273),
  (5285, 5285), (5300, 5300), (5355, 5356), (5386, 5386), (5398, 5401), (5599, 5599),
  (5602, 5602), (5607, 5608), (5624, 5628), (5634, 5636), (5822, 5823), (5825, 5836),
  (5899, 5902), (5905, 5905), (5907, 5907), (5909, 5909), (5914, 5915), (5917, 5919),
  (5921, 5921), (5944, 5944), (6080, 6080), (6085, 6085), (6087, 6087), (6140, 6140),
  (6147, 6148), (6168, 6168), (6170, 6170), (6172, 6173), (6175, 6183), (6442, 6443)]

/-- Numbers of capabilities. -/
def capabilities : List (Nat × Nat) := [
  (0, 15), (17, 25), (27, 71), (4165, 4168), (4422, 4423), (4427, 4431), (4433, 4437),
  (4439, 4439), (4441, 4442), (4445, 4445), (4447, 4450), (4464, 4468), (4471, 4472),
  (4478, 4479), (4484, 4486), (5008, 5010), (5013, 5013), (5015, 5016), (5055, 5055),
  (5067, 5067), (5249, 5249), (5251, 5251), (5254, 5255), (5259, 5260), (5265, 5266),
  (5282, 5284), (5288, 5288), (5291, 5291), (5297, 5297), (5301, 5312), (5336, 5336),
  (5340, 5341), (5345, 5347), (5350, 5350), (5353, 5353), (5357, 5357), (5363, 5363),
  (5372, 5373), (5378, 5381), (5383, 5383), (5390, 5391), (5409, 5409), (5568, 5570),
  (5579, 5579), (5582, 5584), (5603, 5604), (5606, 5606), (5612, 5613), (5616, 5617),
  (5619, 5619), (5629, 5629), (5696, 5698), (5817, 5817), (5821, 5821), (5824, 5824),
  (5837, 5837), (5844, 5845), (5886, 5886), (5888, 5888), (5892, 5892), (5897, 5898),
  (5904, 5904), (5906, 5906), (5908, 5908), (5910, 5910), (5916, 5916), (5920, 5920),
  (5922, 5922), (5935, 5935), (5939, 5939), (5943, 5943), (5945, 5945), (5948, 5948),
  (6016, 6020), (6022, 6022), (6025, 6026), (6033, 6034), (6089, 6089), (6094, 6095),
  (6114, 6115), (6141, 6141), (6146, 6146), (6161, 6161), (6167, 6167), (6169, 6169),
  (6171, 6171), (6174, 6174), (6400, 6400), (6441, 6441)]

/-- Numbers of execution models. -/
def executionModels : List (Nat × Nat) := [
  (0, 6), (5267, 5268), (5313, 5318), (5364, 5365)]

/-- Numbers of execution modes. -/
def executionModes : List (Nat × Nat) := [
  (0, 12), (14, 31), (33, 39), (4169, 4171), (4421, 4421), (4446, 4446), (4459, 4463),
  (5017, 5017), (5027, 5027), (5069, 5069), (5071, 5073), (5077, 5077), (5079, 5084),
  (5269, 5270), (5289, 5290), (5298, 5298), (5366, 5371), (5618, 5618), (5620, 5623),
  (5893, 5896), (5903, 5903), (6154, 6154), (6160, 6160), (6417, 6417)]

/-- Numbers of the instructions of the extended set for graphics. -/
def graphicsInstructions : List (Nat × Nat) := [
  (1, 81)]

end Grammar

/-- Where a variable lives. -/
abbrev StorageClass := Enumerant (Grammar.numbers Grammar.storageClasses)

/-- Dimensionality of an image. -/
abbrev Dim := Enumerant (Grammar.numbers Grammar.dims)

/-- Texel format of an image. -/
abbrev ImageFormat := Enumerant (Grammar.numbers Grammar.imageFormats)

/-- Property that an annotation gives an id. -/
abbrev Decoration := Enumerant Grammar.decorations

/-- Feature that a module needs. -/
abbrev Capability := Enumerant Grammar.capabilities

/-- Pipeline stage of an entry point. -/
abbrev ExecutionModel := Enumerant Grammar.executionModels

/-- Way an entry point is run. -/
abbrev ExecutionMode := Enumerant Grammar.executionModes

/-- Instruction of the extended set `GLSL.std.450`. -/
abbrev GraphicsInstruction := Enumerant Grammar.graphicsInstructions

namespace StorageClass

/-- Shader resource that an invocation only reads. -/
def uniform : StorageClass := ⟨2, by decide⟩

/-- Resource that shaders read and write. -/
def storageBuffer : StorageClass := ⟨12, by decide⟩

/-- Name of a storage class. -/
def name (c : StorageClass) : String := Grammar.nameOf Grammar.storageClasses c.value.toNat

end StorageClass

/-- Name of an image dimension. -/
def Dim.name (d : Dim) : String := Grammar.nameOf Grammar.dims d.value.toNat

/-- Name of an image format. -/
def ImageFormat.name (f : ImageFormat) : String :=
  Grammar.nameOf Grammar.imageFormats f.value.toNat

namespace Decoration

/-- The id under which a specialization constant is overridden. -/
def specId : Decoration := ⟨1, by decide⟩

/-- A struct that lays out a resource. -/
def block : Decoration := ⟨2, by decide⟩

/-- A struct that lays out a storage buffer where storage buffers have no class of their own. -/
def bufferBlock : Decoration := ⟨3, by decide⟩

/-- The slot of a resource within its descriptor set. -/
def binding : Decoration := ⟨33, by decide⟩

/-- The descriptor set of a resource. -/
def descriptorSet : Decoration := ⟨34, by decide⟩

end Decoration

/-- Capability that every shader module declares. -/
def Capability.shader : Capability := ⟨1, by decide⟩

/-- Compute stage. -/
def ExecutionModel.glCompute : ExecutionModel := ⟨5, by decide⟩

/-- Fixes the size of a work group. -/
def ExecutionMode.localSize : ExecutionMode := ⟨17, by decide⟩

end SpirvModule
