import SpirvModule.Session.Basic

/-!
# Edits

An edit either answers, is refused, or crashes, and it leaves a session behind in
each case. Words move in `Edit.exchange` alone, which keeps words, layout and index
in step.

* `Edit.insert`, `Edit.replace`, `Edit.remove`: one instruction comes, changes or goes.
* `Edit.beginModify`, `Edit.operands`, `Edit.endModify`: the bracket around a change
  of operands in place; `Edit.modifyOperands` does all three.
* `Edit.newId`: hands out an id.
-/
namespace SpirvModule

/-- How an edit ends without an answer. A crash is no refusal: the edit reached for words that are
not there, or the index was not as it had to be. -/
inductive Failure where
  | refused (e : EditError)
  | crash
  deriving DecidableEq

/-- An edit of a session. -/
abbrev Edit := ExceptT Failure (StateM Session)

/-- A change of operands that keeps their number. It may break off, and then the edit crashes. -/
structure OperandChange where
  apply : List Word → Option (List Word)
  length_apply : ∀ {ws us}, apply ws = some us → us.length = ws.length

namespace OperandChange

/-- Leaves the operands as they are. -/
def keep : OperandChange := ⟨some, fun h => by cases h; rfl⟩

/-- Applies `f` to the operand with index `i`; without such an operand, changes nothing. -/
def poke (i : Nat) (f : Word → Word) : OperandChange where
  apply ws := some (ws.modify i f)
  length_apply h := by cases h; exact List.length_modify ..

/-- Applies `f` to the operand with index `i`; breaks off without such an operand or without a
value of `f`. -/
def demand (i : Nat) (f : Word → Option Word) : OperandChange where
  apply ws := (ws[i]? >>= f).map (ws.set i ·)
  length_apply {ws us} h := by
    cases hw : ws[i]? >>= f with
    | none => rw [hw] at h; cases h
    | some w => rw [hw] at h; cases h; exact List.length_set ..

/-- One change after the other. -/
def andThen (f g : OperandChange) : OperandChange where
  apply ws := (f.apply ws).bind g.apply
  length_apply {ws us} h := by
    cases hf : f.apply ws with
    | none => rw [hf] at h; cases h
    | some vs => rw [hf] at h; rw [g.length_apply h, f.length_apply hf]

end OperandChange

/-- `ws` with the `old` words at `offset` given up for `new`. -/
def replaceWords (ws : List Word) (offset old : Nat) (new : List Word) : List Word :=
  ws.take offset ++ new ++ ws.drop (offset + old)

namespace Edit

/-- Longest operation that an instruction can be made of. -/
def maxWords : Nat := 65535

/-- The word that stands for each word of a removed instruction. -/
def nopWord : Word := Word.lead 1 Opcode.opNop.number

/-- Refuses the edit. -/
def refuse {α : Type} (e : EditError) : Edit α := throw (.refused e)

/-- Refuses the edit as a breach of contract. -/
def violate {α : Type} (e : EditError) : Edit α := do
  modify fun s => { s with breach := s.breach.or (some e) }
  refuse e

/-- Refuses every edit of an aborted session. -/
def ensureLive : Edit Unit := do
  if (← get).aborted then refuse .aborted

/-- Refuses edits that move words while a bracket is open. -/
def ensureNoBracket : Edit Unit := do
  ensureLive
  match (← get).bracket with
  | some b => violate (.modifyPending b.offset)
  | none => pure ()

/-- Raises the bound above `i`. -/
def raiseBound (i : Id) : Edit Unit :=
  match i.succ? with
  | some b => modify fun s => { s with
      fresh := max s.fresh b
      words := s.words.set Session.boundWord (max s.fresh b).value }
  | none => violate .idsExhausted

/-- Hands out the id whose number is the bound, and raises the bound above it. -/
def newId : Edit Id := do
  ensureLive
  let i := (← get).fresh
  raiseBound i
  return i

/-- The `old` words at `offset`, in section `sec`, give way to `op`. -/
def exchange (sec : Section) (offset old : Nat) (op : Operation) : Edit Unit := do
  let s ← get
  if s.words.length < offset + old then throw .crash
  set { s with
    words := replaceWords s.words offset old op.words
    layout := s.layout.shift sec ((op.wordCount : Int) - old)
    index := s.index.relocate (offset + min old op.wordCount) (old - op.wordCount)
      (op.wordCount - old) }

/-- The instruction at `offset`; that there is none breaches the contract. -/
def instructionAt (offset : Nat) : Edit Instruction := do
  match (← get).instruction? offset with
  | some inst => return inst
  | none => violate (.invalidLocation offset)

/-- Enters the instruction at `offset` into the index. -/
def register (offset : Nat) : Edit Unit := do
  match (← get).instruction? offset with
  | some inst => modify fun s => { s with index := s.index.register s.policy inst }
  | none => refuse (.invalidLocation offset)

/-- Takes an instruction out of the index. -/
def unregister (inst : Instruction) : Edit Unit :=
  modify fun s => { s with index := s.index.unregister inst }

/-- Puts `op` in at `offset` of section `sec`. -/
def insertInto (sec : Section) (offset : Nat) (op : Operation) : Edit (Option Id) := do
  ensureNoBracket
  if op.wordCount > maxWords then violate (.operationTooLong op.wordCount)
  match op.resultId? with
  | some i => if (← get).bound ≤ i.value then raiseBound i
  | none => pure ()
  exchange sec offset 0 op
  register offset
  return op.resultId?

/-- Puts `op` in front of the instruction at `offset`, or at the end of a section. Answers the id
that `op` defines. -/
def insert (offset : Nat) (op : Operation) : Edit (Option Id) := do
  ensureNoBracket
  match (← get).layout.placement op.opcode offset with
  | some sec => insertInto sec offset op
  | none => violate (.misplaced op.opcode offset)

/-- Puts `op` at the end of a section. -/
def append (sec : Section) (op : Operation) : Edit (Option Id) := do
  insertInto sec ((← get).sectionStop sec) op

/-- Opens a bracket around the instruction at `offset`, which leaves the index. -/
def beginModify (offset : Nat) : Edit Unit := do
  ensureNoBracket
  let inst ← instructionAt offset
  unregister inst
  modify fun s => { s with bracket := some ⟨offset, inst.wordCount⟩ }

/-- Changes the operands of the instruction in the open bracket, and answers them. -/
def operands (offset : Nat) (change : OperandChange) : Edit (List Word) := do
  ensureLive
  match (← get).bracket with
  | none => violate (.unbracketedModify offset)
  | some b =>
    if b.offset ≠ offset then violate (.unbracketedModify offset)
    else match change.apply (((← get).words.drop (offset + 1)).take (b.wordCount - 1)) with
      | none => throw .crash
      | some new =>
        modify fun s =>
          { s with words := replaceWords s.words (offset + 1) (b.wordCount - 1) new }
        return new

/-- Closes the bracket and enters the changed instruction into the index. -/
def endModify (offset : Nat) : Edit Unit := do
  ensureLive
  match (← get).bracket with
  | none => violate (.unbracketedModify offset)
  | some b =>
    if b.offset ≠ offset then violate (.unbracketedModify offset)
    else
      modify fun s => { s with bracket := none }
      register offset

/-- Changes the operands of the instruction at `offset` inside a bracket of their own. -/
def modifyOperands (offset : Nat) (change : OperandChange) : Edit Unit := do
  beginModify offset
  let _ ← operands offset change
  endModify offset

/-- Overwrites the instruction at `offset` with instructions that do nothing. No other moves. -/
def remove (offset : Nat) : Edit Unit := do
  ensureNoBracket
  let inst ← instructionAt offset
  if inst.leading = nopWord then violate (.alreadyRemoved offset)
  unregister inst
  modify fun s => { s with
    words := replaceWords s.words offset inst.wordCount (List.replicate inst.wordCount nopWord) }

/-- Puts `op`, of any length, in the place of the instruction at `offset`. Answers the id that `op`
defines. -/
def replace (offset : Nat) (op : Operation) : Edit (Option Id) := do
  ensureNoBracket
  let inst ← instructionAt offset
  match (← get).layout.containing offset with
  | none => violate (.misplaced op.opcode offset)
  | some sec =>
    if op.opcode.home?.all (· = sec) then
      if op.wordCount > maxWords then violate (.operationTooLong op.wordCount)
      unregister inst
      exchange sec offset inst.wordCount op
      register offset
      return op.resultId?
    else violate (.misplaced op.opcode offset)

end Edit

end SpirvModule
