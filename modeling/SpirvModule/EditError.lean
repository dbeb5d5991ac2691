import SpirvModule.ModuleView
import SpirvModule.Types.Table

/-!
# Edit errors

Why an edit of a module is refused, and what is said about it.
-/
namespace SpirvModule

/-- Why an edit is refused. -/
inductive EditError where
  | load (e : LoadError)
  | missingDependency (key : TypeKey) (missing : MissingType)
  | undeclaredMember (id : Id)
  | invalidLocation (offset : Nat)
  | alreadyRemoved (offset : Nat)
  | unbracketedModify (offset : Nat)
  | modifyPending (offset : Nat)
  | misplaced (op : Opcode) (offset : Nat)
  | noResultId (op : Opcode)
  | operationTooLong (wordCount : Nat)
  | idsExhausted
  | aborted
  deriving DecidableEq

/-- What is said about a refused edit. -/
def EditError.message : EditError → String
  | load e => s!"Could not load SPIR-V module: {e.message}"
  | missingDependency k m => s!"Cannot declare {k.text}, {m.text} is not declared"
  | undeclaredMember i => s!"Struct member {i.text} is not declared"
  | invalidLocation p => s!"No instruction at word offset {p}"
  | alreadyRemoved p => s!"Instruction at word offset {p} was already removed"
  | unbracketedModify p =>
    s!"Instruction at word offset {p} was modified outside of a modify bracket"
  | modifyPending p => s!"Modification of the instruction at word offset {p} is still pending"
  | misplaced op p => s!"{op.name} can not be placed at word offset {p}"
  | noResultId op => s!"{op.name} does not define an id"
  | operationTooLong n => s!"Operation of {n} words exceeds the maximum instruction length"
  | idsExhausted => "Identifier space is exhausted"
  | aborted => "Edit session was aborted by an earlier contract violation"

end SpirvModule
