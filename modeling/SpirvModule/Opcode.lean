import SpirvModule.Grammar.Instructions

/-!
# Opcodes

An opcode is the number of a known instruction. The grammar gives its name and
the place of the id it defines.

* `Opcode.ofNumber?`: the opcode with a number, if the grammar lists it.
* `Opcode.resultIndex?`: index, among the operands, of the id it defines.
-/
namespace SpirvModule

/-- The grammar's entry for number `n`. -/
def Grammar.entry? (n : Nat) : Option Grammar.Entry := instructions.find? (·.number == n)

/-- The number of a known instruction. -/
structure Opcode where
  number : Nat
  listed : (Grammar.entry? number).isSome = true
  deriving DecidableEq

namespace Opcode

/-- The opcode with number `n`. -/
def ofNumber? (n : Nat) : Option Opcode :=
  if h : (Grammar.entry? n).isSome = true then some ⟨n, h⟩ else none

/-- What the grammar says of an opcode. -/
def entry (op : Opcode) : Grammar.Entry := (Grammar.entry? op.number).get op.listed

/-- Name of an opcode. -/
def name (op : Opcode) : String := op.entry.name

/-- Index, among the operands, of the id an instruction defines. -/
def resultIndex? (op : Opcode) : Option Nat :=
  match op.entry.result with
  | .none => none
  | .first => some 0
  | .second => some 1

/-- Whether the first operand is the type of what an instruction defines. -/
def hasResultType (op : Opcode) : Bool := op.entry.result = .second

@[simp] theorem ofNumber?_number (op : Opcode) : ofNumber? op.number = some op := by
  simp only [ofNumber?, op.listed, dite_true]

theorem ofNumber?_eq_some {n : Nat} {op : Opcode} : ofNumber? n = some op ↔ op.number = n := by
  constructor
  · intro h
    unfold ofNumber? at h
    split at h
    · cases h; rfl
    · cases h
  · rintro rfl
    exact ofNumber?_number op

/-! ## The opcodes that the library speaks of by name -/

def opNop : Opcode := ⟨0, by decide +kernel⟩
def opUndef : Opcode := ⟨1, by decide +kernel⟩
def opSourceContinued : Opcode := ⟨2, by decide +kernel⟩
def opSource : Opcode := ⟨3, by decide +kernel⟩
def opSourceExtension : Opcode := ⟨4, by decide +kernel⟩
def opName : Opcode := ⟨5, by decide +kernel⟩
def opMemberName : Opcode := ⟨6, by decide +kernel⟩
def opString : Opcode := ⟨7, by decide +kernel⟩
def opLine : Opcode := ⟨8, by decide +kernel⟩
def opExtension : Opcode := ⟨10, by decide +kernel⟩
def opExtInstImport : Opcode := ⟨11, by decide +kernel⟩
def opExtInst : Opcode := ⟨12, by decide +kernel⟩
def opMemoryModel : Opcode := ⟨14, by decide +kernel⟩
def opEntryPoint : Opcode := ⟨15, by decide +kernel⟩
def opExecutionMode : Opcode := ⟨16, by decide +kernel⟩
def opCapability : Opcode := ⟨17, by decide +kernel⟩
def opTypeVoid : Opcode := ⟨19, by decide +kernel⟩
def opTypeBool : Opcode := ⟨20, by decide +kernel⟩
def opTypeInt : Opcode := ⟨21, by decide +kernel⟩
def opTypeFloat : Opcode := ⟨22, by decide +kernel⟩
def opTypeVector : Opcode := ⟨23, by decide +kernel⟩
def opTypeMatrix : Opcode := ⟨24, by decide +kernel⟩
def opTypeImage : Opcode := ⟨25, by decide +kernel⟩
def opTypeSampler : Opcode := ⟨26, by decide +kernel⟩
def opTypeSampledImage : Opcode := ⟨27, by decide +kernel⟩
def opTypeArray : Opcode := ⟨28, by decide +kernel⟩
def opTypeRuntimeArray : Opcode := ⟨29, by decide +kernel⟩
def opTypeStruct : Opcode := ⟨30, by decide +kernel⟩
def opTypeOpaque : Opcode := ⟨31, by decide +kernel⟩
def opTypePointer : Opcode := ⟨32, by decide +kernel⟩
def opTypeFunction : Opcode := ⟨33, by decide +kernel⟩
def opTypeEvent : Opcode := ⟨34, by decide +kernel⟩
def opTypeDeviceEvent : Opcode := ⟨35, by decide +kernel⟩
def opTypeReserveId : Opcode := ⟨36, by decide +kernel⟩
def opTypeQueue : Opcode := ⟨37, by decide +kernel⟩
def opTypePipe : Opcode := ⟨38, by decide +kernel⟩
def opTypeForwardPointer : Opcode := ⟨39, by decide +kernel⟩
def opConstantTrue : Opcode := ⟨41, by decide +kernel⟩
def opConstantFalse : Opcode := ⟨42, by decide +kernel⟩
def opConstant : Opcode := ⟨43, by decide +kernel⟩
def opConstantComposite : Opcode := ⟨44, by decide +kernel⟩
def opConstantSampler : Opcode := ⟨45, by decide +kernel⟩
def opConstantNull : Opcode := ⟨46, by decide +kernel⟩
def opSpecConstantTrue : Opcode := ⟨48, by decide +kernel⟩
def opSpecConstantFalse : Opcode := ⟨49, by decide +kernel⟩
def opSpecConstant : Opcode := ⟨50, by decide +kernel⟩
def opSpecConstantComposite : Opcode := ⟨51, by decide +kernel⟩
def opSpecConstantOp : Opcode := ⟨52, by decide +kernel⟩
def opFunction : Opcode := ⟨54, by decide +kernel⟩
def opFunctionEnd : Opcode := ⟨56, by decide +kernel⟩
def opVariable : Opcode := ⟨59, by decide +kernel⟩
def opDecorate : Opcode := ⟨71, by decide +kernel⟩
def opMemberDecorate : Opcode := ⟨72, by decide +kernel⟩
def opDecorationGroup : Opcode := ⟨73, by decide +kernel⟩
def opGroupDecorate : Opcode := ⟨74, by decide +kernel⟩
def opGroupMemberDecorate : Opcode := ⟨75, by decide +kernel⟩
def opLabel : Opcode := ⟨248, by decide +kernel⟩
def opReturn : Opcode := ⟨253, by decide +kernel⟩
def opNoLine : Opcode := ⟨317, by decide +kernel⟩
def opTypePipeStorage : Opcode := ⟨322, by decide +kernel⟩
def opConstantPipeStorage : Opcode := ⟨323, by decide +kernel⟩
def opTypeNamedBarrier : Opcode := ⟨327, by decide +kernel⟩
def opModuleProcessed : Opcode := ⟨330, by decide +kernel⟩
def opExecutionModeId : Opcode := ⟨331, by decide +kernel⟩
def opDecorateId : Opcode := ⟨332, by decide +kernel⟩
def opTypeRayQueryKHR : Opcode := ⟨4472, by decide +kernel⟩
def opTypeAccelerationStructureKHR : Opcode := ⟨5341, by decide +kernel⟩
def opDecorateString : Opcode := ⟨5632, by decide +kernel⟩
def opMemberDecorateString : Opcode := ⟨5633, by decide +kernel⟩

end Opcode

end SpirvModule
