import SpirvModule.Id
import SpirvModule.Opcode
import SpirvModule.Grammar.Enumerants
import SpirvModule.Text.Literal

/-!
# Operations

An operation is an instruction that has no place in a module yet: an opcode and
its operand words. The second half of the file builds the operations that the
library itself emits, each named for its instruction.

* `Operation.words`: the words an operation is written as.
* `Operation.resultId?`: the id it defines.
-/
namespace SpirvModule

/-- An instruction apart from any module. -/
structure Operation where
  opcode : Opcode
  operands : List Word
  deriving DecidableEq

namespace Operation

/-- Number of words an operation is written as, the leading one included. -/
def wordCount (op : Operation) : Nat := op.operands.length + 1

/-- The words an operation is written as. -/
def words (op : Operation) : List Word :=
  Word.lead op.wordCount op.opcode.number :: op.operands

/-- The id an operation defines, if it has one and it is not zero. -/
def resultId? (op : Operation) : Option Id :=
  op.opcode.resultIndex? >>= fun i => op.operands[i]? >>= Id.ofWord?

/-- The operation with `id` for the id it defines; one that has no place for it stays as it is. -/
def setResultId (op : Operation) (id : Id) : Operation :=
  match op.opcode.resultIndex? with
  | none => op
  | some i => { op with operands := op.operands.set i id.value }

/-- The type of what an operation defines. -/
def resultType? (op : Operation) : Option Id :=
  if op.opcode.hasResultType then op.operands.head? >>= Id.ofWord? else none

/-- Words that all of `ops` are written as. -/
def totalWords (ops : List Operation) : Nat := ops.foldr (fun op n => op.wordCount + n) 0

/-! ## Single instructions -/

def capability (c : Capability) : Operation := ⟨.opCapability, [c.value]⟩

def extension (name : String) : Operation := ⟨.opExtension, Literal.pack name⟩

def extInstImport (id : Id) (name : String) : Operation :=
  ⟨.opExtInstImport, id.value :: Literal.pack name⟩

def entryPoint (model : ExecutionModel) (function : Id) (name : String) (interface : List Id) :
    Operation :=
  ⟨.opEntryPoint, [model.value, function.value] ++ Literal.pack name ++ interface.map Id.value⟩

def executionMode (entry : Id) (mode : ExecutionMode) (parameters : List Word) : Operation :=
  ⟨.opExecutionMode, [entry.value, mode.value] ++ parameters⟩

def decorate (target : Id) (decoration : Decoration) (parameters : List Word) : Operation :=
  ⟨.opDecorate, [target.value, decoration.value] ++ parameters⟩

def memberDecorate (target : Id) (member : Word) (decoration : Decoration)
    (parameters : List Word) : Operation :=
  ⟨.opMemberDecorate, [target.value, member, decoration.value] ++ parameters⟩

def name (target : Id) (text : String) : Operation := ⟨.opName, target.value :: Literal.pack text⟩

def memberName (target : Id) (member : Word) (text : String) : Operation :=
  ⟨.opMemberName, [target.value, member] ++ Literal.pack text⟩

/-- A variable of pointer type `type`. -/
def var (type id : Id) (storage : StorageClass) (initializer : Option Id) : Operation :=
  ⟨.opVariable, [type.value, id.value, storage.value] ++ (initializer.map Id.value).toList⟩

def constant (type id : Id) (value : List Word) : Operation :=
  ⟨.opConstant, [type.value, id.value] ++ value⟩

def specConstant (type id : Id) (value : List Word) : Operation :=
  ⟨.opSpecConstant, [type.value, id.value] ++ value⟩

/-- A call of instruction number `instruction` of the imported set `set`. -/
def extInst (type id set : Id) (instruction : Word) (parameters : List Word) : Operation :=
  ⟨.opExtInst, [type.value, id.value, set.value, instruction] ++ parameters⟩

/-- A call into `GLSL.std.450`, which is imported as `set`. -/
def graphics (type id set : Id) (instruction : GraphicsInstruction) (parameters : List Word) :
    Operation :=
  extInst type id set instruction.value parameters

def function (type id : Id) (control : Word) (functionType : Id) : Operation :=
  ⟨.opFunction, [type.value, id.value, control, functionType.value]⟩

def label (id : Id) : Operation := ⟨.opLabel, [id.value]⟩

def typeStruct (id : Id) (members : List Id) : Operation :=
  ⟨.opTypeStruct, id.value :: members.map Id.value⟩

end Operation

end SpirvModule
