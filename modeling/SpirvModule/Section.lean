import SpirvModule.Opcode

/-!
# Sections

After its header a module is a run of instructions in ten sections of fixed
order. Most opcodes have a home, the one section where they may stand; a few
roam and take the section they are met in.

* `Opcode.home?`: the section an opcode has to stand in.
-/
namespace SpirvModule

/-- One of the ordered parts of a module. `debugNames` also holds strings and
sources, `types` also constants and global variables. -/
inductive Section where
  | capabilities
  | extensions
  | extInstImports
  | memoryModel
  | entryPoints
  | executionModes
  | debugNames
  | annotations
  | types
  | functions
  deriving DecidableEq

namespace Section

/-- All sections, in the order they have in a module. -/
def all : List Section :=
  [.capabilities, .extensions, .extInstImports, .memoryModel, .entryPoints, .executionModes,
    .debugNames, .annotations, .types, .functions]

/-- Place of a section in a module. -/
def index : Section → Fin 10
  | .capabilities => 0
  | .extensions => 1
  | .extInstImports => 2
  | .memoryModel => 3
  | .entryPoints => 4
  | .executionModes => 5
  | .debugNames => 6
  | .annotations => 7
  | .types => 8
  | .functions => 9

/-- Sections are ordered by their place. -/
instance : LE Section := ⟨fun a b => a.index ≤ b.index⟩

instance : LT Section := ⟨fun a b => a.index < b.index⟩

instance (a b : Section) : Decidable (a ≤ b) := inferInstanceAs (Decidable (a.index ≤ b.index))

instance (a b : Section) : Decidable (a < b) := inferInstanceAs (Decidable (a.index < b.index))

/-- Name of a section. -/
def name : Section → String
  | .capabilities => "Capabilities"
  | .extensions => "Extensions"
  | .extInstImports => "ExtInstImports"
  | .memoryModel => "MemoryModel"
  | .entryPoints => "EntryPoints"
  | .executionModes => "ExecutionModes"
  | .debugNames => "DebugNames"
  | .annotations => "Annotations"
  | .types => "Types"
  | .functions => "Functions"

/-- The opcodes at home in a section, save for `functions`, which is home to all others. -/
def residents : Section → List Opcode
  | .capabilities => [.opCapability]
  | .extensions => [.opExtension]
  | .extInstImports => [.opExtInstImport]
  | .memoryModel => [.opMemoryModel]
  | .entryPoints => [.opEntryPoint]
  | .executionModes => [.opExecutionMode, .opExecutionModeId]
  | .debugNames => [.opString, .opSource, .opSourceContinued, .opSourceExtension, .opName,
    .opMemberName, .opModuleProcessed]
  | .annotations => [.opDecorate, .opMemberDecorate, .opDecorateId, .opDecorateString,
    .opMemberDecorateString, .opDecorationGroup, .opGroupDecorate, .opGroupMemberDecorate]
  | .types => [.opTypeVoid, .opTypeBool, .opTypeInt, .opTypeFloat, .opTypeVector, .opTypeMatrix,
    .opTypeImage, .opTypeSampler, .opTypeSampledImage, .opTypeArray, .opTypeRuntimeArray,
    .opTypeStruct, .opTypeOpaque, .opTypePointer, .opTypeFunction, .opTypeEvent,
    .opTypeDeviceEvent, .opTypeReserveId, .opTypeQueue, .opTypePipe, .opTypeForwardPointer,
    .opTypePipeStorage, .opTypeNamedBarrier, .opTypeAccelerationStructureKHR, .opTypeRayQueryKHR,
    .opConstantTrue, .opConstantFalse, .opConstant, .opConstantComposite, .opConstantSampler,
    .opConstantNull, .opConstantPipeStorage, .opSpecConstantTrue, .opSpecConstantFalse,
    .opSpecConstant, .opSpecConstantComposite, .opSpecConstantOp]
  | .functions => []

end Section

namespace Opcode

/-- The opcodes without a home. -/
def roaming : List Opcode := [.opNop, .opLine, .opNoLine, .opUndef, .opVariable, .opExtInst]

/-- The section where an opcode has to stand; `none` for one that may stand in several. -/
def home? (op : Opcode) : Option Section :=
  if op ∈ roaming then none
  else some ((Section.all.find? fun s => op ∈ s.residents).getD .functions)

end Opcode

end SpirvModule
