import Mathlib.Logic.Relation
import SpirvModule.Proofs.Shape

/-!
# Moves

Whatever an edit does to a session, it does in moves: a breach is recorded, the bound is
raised, an operation is put in, a bracket opens, its operands change, it closes, an
instruction is blanked out or replaced. Each constructor of `Move` carries what the edit
has checked by then, so that what every move keeps is kept by every edit.

A session is sound with an outline when it shows the outline and an open bracket is
around one of its chunks.

Results:
* `Sound.inserted`, `Sound.blanked`, …: the outline after each move.
* `Sound.move`: every move keeps soundness.
-/
namespace SpirvModule

namespace Session

/-- Neither aborted nor inside a bracket. -/
def Editable (s : Session) : Prop := s.breach = none ∧ s.bracket = none

/-! ## Sessions after an edit -/

/-- The contract was breached. -/
def breached (s : Session) (e : EditError) : Session := { s with breach := s.breach.or (some e) }

/-- The bound is at least the number of `b`. -/
def raised (s : Session) (b : Id) : Session := { s with
  fresh := max s.fresh b
  words := s.words.set boundWord (max s.fresh b).value }

/-- `i` is entered into the index. -/
def registered (s : Session) (i : Instruction) : Session :=
  { s with index := s.index.register s.policy i }

/-- `i` is taken out of the index. -/
def unregistered (s : Session) (i : Instruction) : Session :=
  { s with index := s.index.unregister i }

/-- The `old` words at `p`, in section `sec`, gave way to `op`. -/
def exchanged (s : Session) (sec : Section) (p old : Nat) (op : Operation) : Session := { s with
  words := replaceWords s.words p old op.words
  layout := s.layout.shift sec ((op.wordCount : Int) - old)
  index := s.index.relocate (p + min old op.wordCount) (old - op.wordCount) (op.wordCount - old) }

/-- The `old` words at `p` gave way to `new`. -/
def overwritten (s : Session) (p old : Nat) (new : List Word) : Session :=
  { s with words := replaceWords s.words p old new }

/-- `op` was put in at `p` of section `sec`. -/
def inserted (s : Session) (sec : Section) (p : Nat) (op : Operation) : Session :=
  (s.exchanged sec p 0 op).registered (.ofChunk p op.words)

/-- A bracket was opened around `i`. -/
def opened (s : Session) (i : Instruction) : Session :=
  { s.unregistered i with bracket := some ⟨i.offset, i.wordCount⟩ }

/-- The bracket around `i` was closed. -/
def closed (s : Session) (i : Instruction) : Session :=
  registered { s with bracket := none } i

/-- `i` was overwritten with instructions that do nothing. -/
def blanked (s : Session) (i : Instruction) : Session :=
  (s.unregistered i).overwritten i.offset i.wordCount (List.replicate i.wordCount Edit.nopWord)

/-- `op` took the place of `i` in section `sec`. -/
def replaced (s : Session) (sec : Section) (i : Instruction) (op : Operation) : Session :=
  ((s.unregistered i).exchanged sec i.offset i.wordCount op).registered (.ofChunk i.offset op.words)

/-- One step of an edit, with what was checked before. -/
inductive Move (s : Session) : Session → Prop
  | breach (e : EditError) : Move s (s.breached e)
  | raise {i b : Id} (hs : s.breach = none) (hb : i.succ? = some b) : Move s (s.raised b)
  | insert {sec : Section} {p : Nat} {op : Operation} (hs : s.Editable) (hp : s.IsPlace p)
      (ha : (s.layout.span sec).accepts p) (hh : op.opcode.home?.all (· = sec))
      (hl : op.wordCount ≤ Edit.maxWords) (hb : ∀ i, op.resultId? = some i → i.value < s.bound) :
      Move s (s.inserted sec p op)
  | beginModify {p : Nat} {i : Instruction} (hs : s.Editable) (hp : s.IsPlace p)
      (hi : s.instruction? p = some i) : Move s (s.opened i)
  | operands {b : Bracket} {new : List Word} (hs : s.breach = none) (hb : s.bracket = some b)
      (hn : new.length = b.wordCount - 1) :
      Move s (s.overwritten (b.offset + 1) (b.wordCount - 1) new)
  | endModify {b : Bracket} {i : Instruction} (hs : s.breach = none) (hb : s.bracket = some b)
      (hi : s.instruction? b.offset = some i) : Move s (s.closed i)
  | remove {p : Nat} {i : Instruction} (hs : s.Editable) (hp : s.IsPlace p)
      (hi : s.instruction? p = some i) (hn : i.leading ≠ Edit.nopWord) : Move s (s.blanked i)
  | replace {sec : Section} {p : Nat} {i : Instruction} {op : Operation} (hs : s.Editable)
      (hp : s.IsPlace p) (hi : s.instruction? p = some i) (hc : (s.layout.span sec).contains p)
      (hh : op.opcode.home?.all (· = sec)) (hl : op.wordCount ≤ Edit.maxWords) :
      Move s (s.replaced sec i op)

/-- Any number of moves. -/
abbrev Moves : Session → Session → Prop := Relation.ReflTransGen Move

/-! ## Soundness -/

/-- Whether an open bracket is around a chunk of `m`. -/
def Encloses (s : Session) (m : Outline) : Prop := ∀ b, s.bracket = some b →
  ∃ sec xs c zs, m.Splits sec b.offset xs [c] zs ∧ b.wordCount = c.length

/-- Whether words, layout and bracket go together as `m` says. -/
structure Sound (s : Session) (m : Outline) : Prop where
  shows : s.Shows m
  encloses : s.Encloses m

variable {s t : Session} {m : Outline}

theorem encloses_of_none (m : Outline) (h : s.bracket = none) : s.Encloses m := by
  intro b hb
  rw [h] at hb
  cases hb

theorem Shows.congr (h : s.Shows m) (hw : t.words = s.words) (hl : t.layout = s.layout) :
    t.Shows m :=
  ⟨hw ▸ h.header, hw ▸ h.body, fun sec => hl ▸ h.starts sec, fun sec => hl ▸ h.stops sec⟩

theorem Shows.raised (h : s.Shows m) (b : Id) : (s.raised b).Shows m := by
  refine ⟨?_, ?_, h.starts, h.stops⟩
  · rw [Session.raised, List.length_set]
    exact h.header
  · rw [Session.raised, List.drop_set_of_lt (by decide)]
    exact h.body

/-- Places depend on the outline only. -/
theorem Shows.isPlace_congr (hs : s.Shows m) (ht : t.Shows m) {p : Nat} (hp : s.IsPlace p) :
    t.IsPlace p := by
  obtain ⟨sec, hsec, hp⟩ := hp
  refine ⟨sec, hsec, ?_⟩
  rw [hs.sectionStart_eq, hs.sectionStop_eq, hs.instructions_eq] at hp
  rwa [ht.sectionStart_eq, ht.sectionStop_eq, ht.instructions_eq]

theorem isPlace_sectionStop (s : Session) (sec : Section) : s.IsPlace (s.sectionStop sec) :=
  ⟨sec, sec.mem_all, .inr (.inl rfl)⟩

theorem Shows.accepts_sectionStop (h : s.Shows m) (sec : Section) :
    (s.layout.span sec).accepts (s.sectionStop sec) := by
  rw [h.sectionStop_eq, h.span_eq, Span.accepts, Bool.and_eq_true, decide_eq_true_eq,
    decide_eq_true_eq]
  exact ⟨m.contents.start_le_stop sec, Nat.le_refl _⟩

/-- A move that leaves words, layout and bracket alone leaves soundness alone. -/
theorem Sound.congr (h : s.Sound m) (hw : t.words = s.words) (hl : t.layout = s.layout)
    (hb : t.bracket = s.bracket) : t.Sound m :=
  ⟨h.shows.congr hw hl, fun b ht => h.encloses b (hb ▸ ht)⟩

theorem Sound.breached (h : s.Sound m) (e : EditError) : (s.breached e).Sound m :=
  h.congr rfl rfl rfl

theorem Sound.raised (h : s.Sound m) (b : Id) : (s.raised b).Sound m :=
  ⟨h.shows.raised b, h.encloses⟩

section
variable {sec : Section} {p : Nat} {op : Operation} {c : List Word} {xs zs : List (List Word)}

theorem Sound.inserted (h : s.Sound m) (hs : s.Editable) (hm : m.Splits sec p xs [] zs)
    (hf : ∀ d ∈ [op.words], Fits sec d) : (s.inserted sec p op).Sound (hm.exchange hf) := by
  refine ⟨h.shows.update hm hf ?_ ?_, encloses_of_none _ hs.2⟩
  · rw [List.flatten_singleton]
    rfl
  · rw [List.flatten_singleton]
    rfl

theorem Sound.replaced (h : s.Sound m) (hs : s.Editable) (hm : m.Splits sec p xs [c] zs)
    (hf : ∀ d ∈ [op.words], Fits sec d) :
    (s.replaced sec (.ofChunk p c) op).Sound (hm.exchange hf) := by
  have hc : IsChunk c := hm.isChunk (List.mem_singleton_self c)
  refine ⟨h.shows.update hm hf ?_ ?_, encloses_of_none _ hs.2⟩
  · rw [List.flatten_singleton, List.flatten_singleton, ← Instruction.ofChunk_wordCount p hc]
    rfl
  · rw [List.flatten_singleton, List.flatten_singleton, ← Instruction.ofChunk_wordCount p hc]
    rfl

theorem flatten_replicate_singleton {α : Type} (n : Nat) (x : α) :
    (List.replicate n [x]).flatten = List.replicate n x := by
  induction n with
  | zero => rfl
  | succ n ih => rw [List.replicate_succ, List.flatten_cons, ih]; rfl

theorem Sound.blanked (h : s.Sound m) (hs : s.Editable) (hm : m.Splits sec p xs [c] zs) :
    (s.blanked (.ofChunk p c)).Sound (hm.exchange (fits_nops sec c.length)) := by
  have hc : IsChunk c := hm.isChunk (List.mem_singleton_self c)
  refine ⟨h.shows.overwrite hm _ ?_ ?_ rfl, encloses_of_none _ hs.2⟩
  · rw [List.flatten_singleton, flatten_replicate_singleton, ← Instruction.ofChunk_wordCount p hc]
    rfl
  · rw [List.flatten_singleton, flatten_replicate_singleton, List.length_replicate]

theorem Sound.opened (h : s.Sound m) (hm : m.Splits sec p xs [c] zs) :
    (s.opened (.ofChunk p c)).Sound m := by
  refine ⟨h.shows.congr rfl rfl, fun b hb => ?_⟩
  obtain rfl : ⟨p, _⟩ = b := Option.some.inj hb
  exact ⟨sec, xs, c, zs, hm, Instruction.ofChunk_wordCount p (hm.isChunk (by simp))⟩

theorem Sound.closed (h : s.Sound m) (i : Instruction) : (s.closed i).Sound m :=
  ⟨h.shows.congr rfl rfl, encloses_of_none m rfl⟩

end

/-- The operands of a chunk are the words behind its first. -/
theorem replaceWords_operands {w : Word} {ws us vs : List Word} {p : Nat} (hw : ws[p]? = some w) :
    replaceWords ws (p + 1) us.length vs = replaceWords ws p (w :: us).length (w :: vs) := by
  rw [replaceWords, replaceWords, List.take_add_one, hw, List.length_cons]
  simp only [Option.toList_some, List.append_assoc, List.singleton_append]
  congr 3
  omega

/-- The operands in the open bracket are exchanged, and the bracket stays around them. -/
theorem Sound.overwritten (h : s.Sound m) {sec : Section} {b : Bracket} {w : Word}
    {us vs : List Word} {xs zs : List (List Word)} (hb : s.bracket = some b)
    (hm : m.Splits sec b.offset xs [w :: us] zs) (hl : b.wordCount = us.length + 1)
    (hf : ∀ d ∈ [w :: vs], Fits sec d) (hv : vs.length = us.length) :
    (s.overwritten (b.offset + 1) (b.wordCount - 1) vs).Sound (hm.exchange hf) := by
  refine ⟨h.shows.overwrite hm hf ?_ ?_ rfl, fun b' hb' => ?_⟩
  · have hw : s.words[b.offset]? = some w := by
      rw [← List.head?_drop, h.shows.drop_offset hm]
      rfl
    rw [List.flatten_singleton, List.flatten_singleton, ← replaceWords_operands hw,
      Session.overwritten, hl, Nat.add_sub_cancel]
  · simp [hv]
  · obtain rfl : b = b' := Option.some.inj (hb.symm.trans hb')
    exact ⟨sec, xs, w :: vs, zs, hm.splits_exchange hf, by rw [hl, List.length_cons, hv]⟩

/-- Around what the open bracket stands. -/
theorem Sound.split_of_bracket (h : s.Sound m) {b : Bracket} (hb : s.bracket = some b) :
    ∃ sec xs w us zs, m.Splits sec b.offset xs [w :: us] zs ∧ b.wordCount = us.length + 1 := by
  obtain ⟨sec, xs, c, zs, hm, hl⟩ := h.encloses b hb
  cases c with
  | nil => exact (hm.isChunk (List.mem_singleton_self _)).elim
  | cons w us => exact ⟨sec, xs, w, us, zs, hm, hl⟩

/-- Every move keeps soundness. -/
theorem Sound.move (h : s.Sound m) (hst : Move s t) : ∃ m', t.Sound m' := by
  cases hst with
  | breach e => exact ⟨m, h.breached e⟩
  | raise hs hb => exact ⟨m, h.raised _⟩
  | insert hs hp ha hh hl hb =>
    obtain ⟨xs, zs, hm⟩ := h.shows.split_of_accepts hp ha
    exact ⟨_, h.inserted hs hm (fits_singleton (fits_words hh hl))⟩
  | beginModify hs hp hi =>
    obtain ⟨sec, xs, c, zs, hm, rfl⟩ := h.shows.split_of_instruction? hp hi
    exact ⟨m, h.opened hm⟩
  | @operands b new hs hb hn =>
    obtain ⟨sec, xs, w, us, zs, hm, hl⟩ := h.split_of_bracket hb
    have hv : new.length = us.length := by rw [hn, hl, Nat.add_sub_cancel]
    exact ⟨_, h.overwritten hb hm hl (hm.fits_operands hv) hv⟩
  | endModify hs hb hi => exact ⟨m, h.closed _⟩
  | remove hs hp hi hn =>
    obtain ⟨sec, xs, c, zs, hm, rfl⟩ := h.shows.split_of_instruction? hp hi
    exact ⟨_, h.blanked hs hm⟩
  | replace hs hp hi hc hh hl =>
    obtain ⟨xs, c, zs, hm, rfl⟩ := h.shows.split_of_contains hp hc hi
    exact ⟨_, h.replaced hs hm (fits_singleton (fits_words hh hl))⟩

/-- So do any number of moves. -/
theorem Sound.moves (h : s.Sound m) (hst : Moves s t) : ∃ m', t.Sound m' := by
  induction hst with
  | refl => exact ⟨m, h⟩
  | tail _ hmove ih =>
    obtain ⟨m', h'⟩ := ih
    exact h'.move hmove

end Session

end SpirvModule
