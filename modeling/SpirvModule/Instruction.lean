import SpirvModule.Operation

/-!
# Instructions in place

An instruction stands at an offset, counted in words from the start of the
module. Its leading word claims a length and holds the opcode number, which the
grammar may not know.

* `Instruction.at?`: the instruction at an offset of some words.
* `scan`: the instructions of a run of words, from its first word on.

`scan` ends at the first instruction that claims no words or more than are left.
It walks the words once; `skip` counts the words of the current instruction that
are still to be passed over.
-/
namespace SpirvModule

/-- Number of words of a module's header. -/
def headerWords : Nat := 5

/-- An instruction where it stands. -/
structure Instruction where
  offset : Nat
  leading : Word
  operands : List Word
  deriving DecidableEq

namespace Instruction

/-- The words of an instruction. -/
def words (i : Instruction) : List Word := i.leading :: i.operands

def wordCount (i : Instruction) : Nat := i.operands.length + 1

/-- Offset right behind an instruction. -/
def stop (i : Instruction) : Nat := i.offset + i.wordCount

/-- Opcode number, known or not. -/
def number (i : Instruction) : Nat := Word.number i.leading

/-- The opcode, if the grammar knows it. -/
def opcode? (i : Instruction) : Option Opcode := Opcode.ofNumber? i.number

/-- The id an instruction defines. -/
def resultId? (i : Instruction) : Option Id :=
  i.opcode? >>= Opcode.resultIndex? >>= fun k => i.operands[k]? >>= Id.ofWord?

/-- The type of what an instruction defines. -/
def resultType? (i : Instruction) : Option Id :=
  i.opcode? >>= fun op => if op.hasResultType then i.operands[0]? >>= Id.ofWord? else none

/-- The id written as operand `k`. -/
def idOperand? (i : Instruction) (k : Nat) : Option Id := i.operands[k]? >>= Id.ofWord?

/-- The literal string that starts at operand `k`. -/
def stringOperand? (i : Instruction) (k : Nat) : Option String :=
  if k < i.operands.length then some (Literal.unpack (i.operands.drop k)).1 else none

/-- The same instruction apart from the module. -/
def toOperation? (i : Instruction) : Option Operation := i.opcode?.map (⟨·, i.operands⟩)

/-- The instruction at `offset` of the module `ws`: there is none inside the header, behind the
end, or where the leading word claims no words or more than are left. -/
def at? (ws : List Word) (offset : Nat) : Option Instruction :=
  if offset < headerWords then none
  else match ws.drop offset with
    | [] => none
    | w :: r =>
      if Word.count w = 0 ∨ (r.take (Word.count w - 1)).length + 1 < Word.count w then none
      else some ⟨offset, w, r.take (Word.count w - 1)⟩

end Instruction

/-- The instructions of some words at `offset`, after `skip` words are passed over. -/
def scanFrom (skip offset : Nat) : List Word → List Instruction
  | [] => []
  | w :: r =>
    match skip with
    | k + 1 => scanFrom k (offset + 1) r
    | 0 =>
      if Word.count w = 0 ∨ (r.take (Word.count w - 1)).length + 1 < Word.count w then []
      else ⟨offset, w, r.take (Word.count w - 1)⟩ :: scanFrom (Word.count w - 1) (offset + 1) r

/-- The instructions of the words `ws` that stand at `offset`. -/
def scan (offset : Nat) (ws : List Word) : List Instruction := scanFrom 0 offset ws

end SpirvModule
