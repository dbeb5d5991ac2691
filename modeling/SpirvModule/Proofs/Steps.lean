import SpirvModule.Proofs.Endings

/-!
# Edits as moves

An edit of one instruction settles wherever it is tried: all that can fail is checked before
anything changes. At a place of a sound session an edit that answers is one move; an
insertion may raise the bound first.

Results:
* `newId_settles`, `insert_settles`, `append_settles`, `remove_settles`, `replace_settles`,
  `beginModify_settles`, `operands_run`, `endModify_settles`: how such an edit ends, at any
  offset.
* `replace_answers`: when a replacement cannot fail.
* `insert_ends`, `remove_ends`, `replace_ends`, `beginModify_ends`, `operands_ends`: at a
  place of a sound session it is a move.
* `modifyOperands_run`: how the three parts of a bracket of its own end.
-/
namespace SpirvModule

namespace Edit

variable {α β : Type} {s t : Session} {m : Outline}

/-! ## Edits at any offset -/

section
variable {sec : Section} {p : Nat} {op : Operation}

theorem Raised.sound (h : s.Sound m) (ht : Raised s t) : t.Sound m := by
  rcases ht with rfl | ⟨i, b, -, -, rfl⟩
  · exact h
  · exact h.raised b

theorem Raised.editable (hs : s.Editable) (ht : Raised s t) : t.Editable := by
  rcases ht with rfl | ⟨i, b, -, -, rfl⟩
  · exact hs
  · exact hs

theorem Raised.length_words (ht : Raised s t) : t.words.length = s.words.length := by
  rcases ht with rfl | ⟨i, b, -, -, rfl⟩
  · rfl
  · exact List.length_set ..

theorem newId_settles : newId.Settles s fun i t =>
    s.breach = none ∧ i = s.fresh ∧ Raised s t ∧ i.value < t.bound := by
  refine ensureLive_settles.bind_guard fun _ hs => settles_get ?_
  refine (raiseBound_settles s.fresh hs).bind_answers fun _ t ht => answers_pure ?_
  exact ⟨hs, rfl, ht.1, ht.2.1⟩

/-- An id can be handed out unless it is the largest word. -/
theorem newId_answers {b : Id} (hs : s.breach = none) (hb : s.fresh.succ? = some b) :
    newId.Answers s fun i t => i = s.fresh ∧ t = s.raised b := by
  unfold newId raiseBound
  refine (ensureLive_answers hs).bind fun _ u hu => ?_
  subst hu
  refine answers_get ?_
  dsimp only
  rw [hb]
  exact ⟨_, _, rfl, rfl, rfl⟩

/-- An operation is put in behind the header. -/
theorem insertInto_settles (hp : headerWords ≤ p) (hlen : p ≤ s.words.length) :
    (insertInto sec p op).Settles s fun a t => s.Editable ∧ op.wordCount ≤ maxWords ∧
      ∃ u, Raised s u ∧ (∀ i, op.resultId? = some i → i.value < u.bound) ∧
        u.fresh = op.freshAfter s.fresh ∧ t = u.inserted sec p op ∧ a = op.resultId? := by
  rw [insertInto_eq]
  refine ensureNoBracket_settles.bind_guard fun _ hs => ?_
  refine (checkLength_settles op).bind_guard fun _ hl => ?_
  refine (coverResult_settles op hs.1).bind_answers fun _ u ⟨hu, hb, hfresh⟩ => ?_
  have hulen : p ≤ u.words.length := hu.length_words.symm ▸ hlen
  refine (exchange_answers sec op hulen).bind fun _ v hv => ?_
  subst hv
  refine (register_answers (instruction?_exchanged sec 0 hp hulen hl)).bind fun _ v hv => ?_
  exact answers_pure ⟨hs, hl, u, hu, hb, hfresh, hv, rfl⟩

/-- An operation that is not too long is put in if its id is below the bound. -/
theorem insertInto_answers (hs : s.Editable) (hl : op.wordCount ≤ maxWords)
    (hb : ∀ i, op.resultId? = some i → i.value < s.bound) (hp : headerWords ≤ p)
    (hlen : p ≤ s.words.length) :
    (insertInto sec p op).Answers s fun _ t => t = s.inserted sec p op := by
  rw [insertInto_eq]
  refine (ensureNoBracket_answers hs).bind fun _ u hu => ?_
  subst hu
  refine (checkLength_answers hl).bind fun _ u hu => ?_
  subst hu
  refine (coverResult_answers hb).bind fun _ u hu => ?_
  subst hu
  refine (exchange_answers sec op hlen).bind fun _ u hu => ?_
  subst hu
  refine (register_answers (instruction?_exchanged sec 0 hp hlen hl)).bind fun _ u hu => ?_
  exact answers_pure hu

theorem placement_eq_some {l : Layout} {o : Opcode} (h : l.placement o p = some sec) :
    (l.span sec).accepts p ∧ o.home?.all (· = sec) := by
  have accepts_of_contains (hc : (l.span sec).contains p) : (l.span sec).accepts p := by
    simp only [Span.contains, Span.accepts, Bool.and_eq_true, decide_eq_true_eq] at hc ⊢
    omega
  unfold Layout.placement at h
  cases hh : o.home? with
  | some home =>
    simp only [hh] at h
    split at h
    · cases h
      exact ⟨‹_›, by simp⟩
    · cases h
  | none =>
    simp only [hh] at h
    refine ⟨?_, rfl⟩
    split at h
    · rename_i ha
      cases h
      exact ha.2
    · rcases Option.or_eq_some_iff.mp h with h | ⟨-, h⟩
      · exact accepts_of_contains (List.find?_some (p := fun s => (l.span s).contains p) h)
      · exact List.find?_some (p := fun s => (l.span s).accepts p) h

/-- A section accepts operations between the header and the end of the words only. -/
theorem bounds_of_accepts (h : s.Shows m) (ha : (s.layout.span sec).accepts p) :
    headerWords ≤ p ∧ p ≤ s.words.length := by
  rw [h.span_eq, Span.accepts, Bool.and_eq_true, decide_eq_true_eq, decide_eq_true_eq] at ha
  have hwords := congrArg List.length (h.words_around sec)
  rw [List.length_append, h.length_front, List.length_append] at hwords
  have hstart : headerWords ≤ m.contents.start sec := Nat.le_add_right ..
  have hlength : m.contents.stop sec = m.contents.start sec + (m.contents sec).flatten.length := rfl
  dsimp only at ha
  omega

/-- An operation that is put in goes to one section that accepts it. -/
theorem insert_settles (h : s.Shows m) :
    (insert p op).Settles s fun a t => s.Editable ∧ op.wordCount ≤ maxWords ∧ ∃ sec u,
      s.layout.placement op.opcode p = some sec ∧ Raised s u ∧
      (∀ i, op.resultId? = some i → i.value < u.bound) ∧
      t = u.inserted sec p op ∧ a = op.resultId? := by
  refine ensureNoBracket_settles.bind_guard fun _ _ => settles_get ?_
  cases hsec : s.layout.placement op.opcode p with
  | none => exact settles_violate _
  | some sec =>
    obtain ⟨hp, hlen⟩ := bounds_of_accepts h (placement_eq_some hsec).1
    refine (insertInto_settles hp hlen).mono fun a t ⟨hs, hl, u, hu, hb, _, ht, ha⟩ => ?_
    exact ⟨hs, hl, sec, u, rfl, hu, hb, ht, ha⟩

/-- An operation that is appended goes to the end of its section. -/
theorem append_settles (h : s.Shows m) (sec : Section) (op : Operation) :
    (append sec op).Settles s fun a t => s.Editable ∧ op.wordCount ≤ maxWords ∧
      ∃ u, Raised s u ∧ (∀ i, op.resultId? = some i → i.value < u.bound) ∧
        u.fresh = op.freshAfter s.fresh ∧ t = u.inserted sec (s.sectionStop sec) op ∧
        a = op.resultId? := by
  obtain ⟨hp, hlen⟩ := bounds_of_accepts h (h.accepts_sectionStop sec)
  exact settles_get (insertInto_settles hp hlen)

theorem beginModify_settles :
    (beginModify p).Settles s fun _ t => s.Editable ∧ ∃ i, s.instruction? p = some i ∧
      t = s.opened i := by
  refine ensureNoBracket_settles.bind_guard fun _ hs => ?_
  refine (instructionAt_settles p).bind_guard fun i hi => ?_
  refine .inr ⟨(), s.opened i, ?_, hs, i, hi, rfl⟩
  rw [Session.opened, at?_offset hi]
  rfl

/-- Outside the open bracket, operands are not changed, and nothing is closed. -/
theorem unbracketed_stops {f : Bracket → Edit α}
    (h : ¬ (s.breach = none ∧ ∃ b, s.bracket = some b ∧ b.offset = p)) :
    ∃ x, Stops (ensureLive >>= fun _ => get >>= fun s => match s.bracket with
      | none => violate (.unbracketedModify p)
      | some b => if b.offset ≠ p then violate (.unbracketedModify p) else f b) x s := by
  rcases ensureLive_settles (s := s) with ⟨x, hx⟩ | ⟨_, u, hlive, hu, hs⟩
  · exact ⟨x, hx.bind _⟩
  subst hu
  refine ⟨.unbracketedModify p, ?_⟩
  rw [Stops, run_bind, hlive]
  cases hb : u.bracket with
  | none => simp only [run_get_bind, hb]; rfl
  | some b =>
    simp only [run_get_bind, hb]
    rw [if_pos fun hp => h ⟨hs, b, hb, hp⟩]
    rfl

/-- In the open bracket only the change itself can break off, and then it leaves no trace. -/
theorem operands_run_of_bracket {b : Bracket} (hs : s.breach = none) (hb : s.bracket = some b)
    (change : OperandChange) :
    (operands b.offset change).run s =
      match change.apply ((s.words.drop (b.offset + 1)).take (b.wordCount - 1)) with
      | none => (.error .crash, s)
      | some new => (.ok new, s.overwritten (b.offset + 1) (b.wordCount - 1) new) := by
  obtain ⟨_, u, hlive, hu⟩ := ensureLive_answers hs
  subst hu
  rw [operands, run_bind, hlive]
  simp only [run_get_bind, hb, ne_eq, not_true_eq_false, if_false]
  cases change.apply ((u.words.drop (b.offset + 1)).take (b.wordCount - 1)) <;> rfl

/-- Operands are changed in the open bracket only. -/
theorem operands_run (change : OperandChange) :
    (operands p change).Settles s (fun new t => s.breach = none ∧ ∃ b, s.bracket = some b ∧
      b.offset = p ∧ change.apply ((s.words.drop (p + 1)).take (b.wordCount - 1)) = some new ∧
      t = s.overwritten (p + 1) (b.wordCount - 1) new) ∨
    ∃ b, s.bracket = some b ∧ b.offset = p ∧
      change.apply ((s.words.drop (p + 1)).take (b.wordCount - 1)) = none ∧
      (operands p change).run s = (.error .crash, s) := by
  by_cases hopen : s.breach = none ∧ ∃ b, s.bracket = some b ∧ b.offset = p
  · obtain ⟨hs, b, hb, rfl⟩ := hopen
    have hrun := operands_run_of_bracket hs hb change
    cases hnew : change.apply ((s.words.drop (b.offset + 1)).take (b.wordCount - 1)) with
    | none => exact .inr ⟨b, hb, rfl, hnew, by rw [hrun, hnew]⟩
    | some new => exact .inl (.inr ⟨new, _, by rw [hrun, hnew], hs, b, hb, rfl, hnew, rfl⟩)
  · exact .inl (.inl (unbracketed_stops hopen))

/-- The open bracket can be closed if there is an instruction in it. -/
theorem endModify_answers {b : Bracket} {i : Instruction} (hs : s.breach = none)
    (hb : s.bracket = some b) (hi : s.instruction? b.offset = some i) :
    (endModify b.offset).Answers s fun _ t => t = s.closed i := by
  unfold endModify
  refine (ensureLive_answers hs).bind fun _ u hu => ?_
  subst hu
  refine answers_get ?_
  simp only [hb, ne_eq, not_true_eq_false, if_false]
  refine Answers.bind (P := fun _ t => t = { u with bracket := none }) ⟨(), _, rfl, rfl⟩ ?_
  intro _ v hv
  subst hv
  exact register_answers (s := { u with bracket := none }) hi

theorem remove_settles :
    (remove p).Settles s fun _ t => s.Editable ∧ ∃ i, s.instruction? p = some i ∧
      i.leading ≠ nopWord ∧ t = s.blanked i := by
  refine ensureNoBracket_settles.bind_guard fun _ hs => ?_
  refine (instructionAt_settles p).bind_guard fun i hi => ?_
  show Settles (if i.leading = nopWord then _ else _) s _
  split
  · exact settles_violate _
  · rename_i hn
    refine .inr ⟨(), s.blanked i, ?_, hs, i, hi, hn, rfl⟩
    rw [Session.blanked, at?_offset hi]
    rfl

/-- An operation that may stand there takes the place of an instruction. -/
theorem replace_answers {i : Instruction} (hs : s.Editable)
    (hsec : s.layout.containing p = some sec) (hh : op.opcode.home?.all (· = sec))
    (hl : op.wordCount ≤ maxWords) (hi : s.instruction? p = some i) :
    (replace p op).Answers s fun a t => t = s.replaced sec i op ∧ a = op.resultId? := by
  obtain ⟨hp, hlen⟩ := at?_bounds hi
  obtain rfl := at?_offset hi
  unfold replace instructionAt
  refine (ensureNoBracket_answers hs).bind fun _ u hu => ?_
  subst hu
  rw [bind_assoc]
  refine answers_get ?_
  simp only [hi, pure_bind]
  refine answers_get ?_
  simp only [hsec, if_pos hh, if_neg (Nat.not_lt.mpr hl)]
  refine Answers.bind (P := fun _ t => t = u.unregistered i) ⟨(), _, rfl, rfl⟩ fun _ v hv => ?_
  subst hv
  refine (exchange_answers (s := u.unregistered i) sec op hlen).bind fun _ v hv => ?_
  subst hv
  have hread := instruction?_exchanged (s := u.unregistered i) sec i.wordCount hp
    (Nat.le_of_add_right_le hlen) hl
  exact (register_answers hread).bind fun _ v hv => answers_pure ⟨hv, rfl⟩

theorem replace_settles :
    (replace p op).Settles s fun a t => s.Editable ∧ op.wordCount ≤ maxWords ∧ ∃ sec i,
      s.layout.containing p = some sec ∧ op.opcode.home?.all (· = sec) ∧
      s.instruction? p = some i ∧ t = s.replaced sec i op ∧ a = op.resultId? := by
  -- what is checked is checked in order, and then nothing can fail
  by_cases hchecks : s.Editable ∧ op.wordCount ≤ maxWords ∧ ∃ sec i,
      s.layout.containing p = some sec ∧ op.opcode.home?.all (· = sec) ∧ s.instruction? p = some i
  · obtain ⟨hs, hl, sec, i, hsec, hh, hi⟩ := hchecks
    refine .inr ((replace_answers hs hsec hh hl hi).mono fun a t ⟨ht, ha⟩ => ?_)
    exact ⟨hs, hl, sec, i, hsec, hh, hi, ht, ha⟩
  · refine ensureNoBracket_settles.bind_guard fun _ hs => ?_
    refine (instructionAt_settles p).bind_guard fun i hi => settles_get ?_
    cases hsec : s.layout.containing p with
    | none => exact settles_violate _
    | some sec =>
      dsimp only
      split
      case isFalse => exact settles_violate _
      rename_i hh
      split
      case isTrue => exact settles_violate_bind _
      rename_i hl
      exact absurd ⟨hs, Nat.le_of_not_gt hl, sec, i, hsec, hh, hi⟩ hchecks

end

/-! ## Edits of sound sessions -/

section
variable {sec : Section} {p : Nat} {op : Operation} {xs ys zs : List (List Word)}

theorem offset_le_length (h : s.Shows m) (hm : m.Splits sec p xs ys zs) :
    p + ys.flatten.length ≤ s.words.length := by
  rw [h.length_words, hm.chunks_eq, ← hm.headerWords_add]
  simp only [List.flatten_append, List.length_append]
  omega

theorem insert_ends (h : s.Sound m) (hp : s.IsPlace p) :
    (insert p op).Ends s fun a t => s.Editable ∧ op.wordCount ≤ maxWords ∧ ∃ sec u,
      s.layout.placement op.opcode p = some sec ∧ Raised s u ∧
      (∀ i, op.resultId? = some i → i.value < u.bound) ∧ Session.Move u t ∧
      t = u.inserted sec p op ∧ a = op.resultId? := by
  refine (insert_settles h.shows).ends.mono fun a t ⟨hs, hl, sec, u, hsec, hu, hb, ht, heq⟩ => ?_
  obtain ⟨ha, hh⟩ := placement_eq_some hsec
  have hsound := hu.sound h
  refine ⟨hs, hl, sec, u, hsec, hu, hb, ?_, ht, heq⟩
  rw [ht]
  refine .insert (hu.editable hs) (h.shows.isPlace_congr hsound.shows hp) ?_ hh hl hb
  rw [hsound.shows.span_eq, ← h.shows.span_eq]
  exact ha

theorem beginModify_ends (hp : s.IsPlace p) :
    (beginModify p).Ends s fun _ t => s.Editable ∧ ∃ i, s.instruction? p = some i ∧
      t = s.opened i ∧ Session.Move s t := by
  refine beginModify_settles.ends.mono fun _ t ⟨hs, i, hi, ht⟩ => ⟨hs, i, hi, ht, ?_⟩
  exact ht ▸ .beginModify hs hp hi

theorem operands_ends (h : s.Sound m) (change : OperandChange) :
    (operands p change).Ends s fun new t => ∃ b, s.bracket = some b ∧ b.offset = p ∧
      change.apply ((s.words.drop (p + 1)).take (b.wordCount - 1)) = some new ∧
      new.length = b.wordCount - 1 ∧ t = s.overwritten (p + 1) (b.wordCount - 1) new ∧
      Session.Move s t := by
  rcases operands_run (s := s) change with hrun | ⟨b, -, -, -, hrun⟩
  · refine hrun.ends.mono fun new t ⟨hs, b, hb, hp, hnew, ht⟩ => ?_
    obtain rfl := hp
    obtain ⟨sec, xs, w, us, zs, hm, hl⟩ := h.split_of_bracket hb
    have hwords := offset_le_length h.shows hm
    have hlen := change.length_apply hnew
    rw [List.flatten_singleton, List.length_cons] at hwords
    rw [List.length_take_of_le (by rw [List.length_drop]; omega)] at hlen
    exact ⟨b, hb, rfl, hnew, hlen, ht, ht ▸ .operands hs hb hlen⟩
  · exact .inl ⟨_, s, hrun, .inl rfl⟩

/-- The open bracket is around an instruction, so it can be closed. -/
theorem endModify_settles (h : s.Sound m) :
    (endModify p).Settles s fun _ t => ∃ b i, s.bracket = some b ∧ b.offset = p ∧
      s.instruction? p = some i ∧ t = s.closed i ∧ Session.Move s t := by
  by_cases hopen : s.breach = none ∧ ∃ b, s.bracket = some b ∧ b.offset = p
  · obtain ⟨hs, b, hb, rfl⟩ := hopen
    obtain ⟨sec, xs, w, us, zs, hm, -⟩ := h.split_of_bracket hb
    have hi := h.shows.instruction?_of_splits hm
    refine .inr ((endModify_answers hs hb hi).mono fun _ t ht => ?_)
    exact ⟨b, _, hb, rfl, hi, ht, ht ▸ .endModify hs hb hi⟩
  · exact .inl (unbracketed_stops hopen)

theorem remove_ends (hp : s.IsPlace p) :
    (remove p).Ends s fun _ t => s.Editable ∧ ∃ i, s.instruction? p = some i ∧ t = s.blanked i ∧
      Session.Move s t := by
  refine remove_settles.ends.mono fun _ t ⟨hs, i, hi, hn, ht⟩ => ⟨hs, i, hi, ht, ?_⟩
  exact ht ▸ .remove hs hp hi hn

theorem replace_ends (hp : s.IsPlace p) :
    (replace p op).Ends s fun a t => s.Editable ∧ op.wordCount ≤ maxWords ∧ ∃ sec i,
      s.layout.containing p = some sec ∧ op.opcode.home?.all (· = sec) ∧
      s.instruction? p = some i ∧ t = s.replaced sec i op ∧ a = op.resultId? ∧
      Session.Move s t := by
  refine replace_settles.ends.mono fun a t ⟨hs, hl, sec, i, hsec, hh, hi, ht, ha⟩ => ?_
  have hc : (s.layout.span sec).contains p :=
    List.find?_some (p := fun s' => (s.layout.span s').contains p) hsec
  exact ⟨hs, hl, sec, i, hsec, hh, hi, ht, ha, ht ▸ .replace hs hp hi hc hh hl⟩

end

end Edit

/-! ## A bracket of its own -/

namespace Session

/-- The operands of `i` became `new`, in a bracket that was closed again. -/
def modified (s : Session) (i : Instruction) (new : List Word) : Session :=
  ((s.opened i).overwritten (i.offset + 1) i.operands.length new).closed { i with operands := new }

theorem Sound.modified {s : Session} {m : Outline} (h : s.Sound m) {sec : Section} {p : Nat}
    {w : Word} {us vs : List Word} {xs zs : List (List Word)}
    (hm : m.Splits sec p xs [w :: us] zs) (hf : ∀ d ∈ [w :: vs], Fits sec d)
    (hv : vs.length = us.length) :
    (s.modified (.ofChunk p (w :: us)) vs).Sound (hm.exchange hf) := by
  have h₂ := (h.opened hm).overwritten (b := ⟨p, us.length + 1⟩) rfl hm rfl hf hv
  exact h₂.closed _

end Session

namespace Edit

variable {s : Session} {m : Outline} {p : Nat}

/-- The operands that the open bracket is around. -/
theorem operands_of_splits (h : s.Shows m) {sec : Section} {w : Word} {us : List Word}
    {xs zs : List (List Word)} (hm : m.Splits sec p xs [w :: us] zs) :
    (s.words.drop (p + 1)).take us.length = us := by
  rw [← List.drop_drop, h.drop_offset hm]
  simp

theorem beginModify_answers {i : Instruction} (hs : s.Editable) (hi : s.instruction? p = some i) :
    (beginModify p).Answers s fun _ t => t = s.opened i := by
  unfold beginModify instructionAt
  refine (ensureNoBracket_answers hs).bind fun _ u hu => ?_
  subst hu
  rw [bind_assoc]
  refine answers_get ?_
  rw [hi, pure_bind, Session.opened, at?_offset hi]
  exact ⟨(), _, rfl, rfl⟩

theorem operands_answers {b : Bracket} {change : OperandChange} {new : List Word}
    (hs : s.breach = none) (hb : s.bracket = some b)
    (hnew : change.apply ((s.words.drop (b.offset + 1)).take (b.wordCount - 1)) = some new) :
    (operands b.offset change).Answers s fun _ t =>
      t = s.overwritten (b.offset + 1) (b.wordCount - 1) new :=
  ⟨new, _, by rw [operands_run_of_bracket hs hb, hnew], rfl⟩

/-- A bracket opens, its operands change, and it closes. Only a change that is refused or breaks off
leaves it open. -/
theorem modifyOperands_run (h : s.Sound m) (hp : s.IsPlace p) (change : OperandChange) :
    (∃ x t, (modifyOperands p change).run s = (.error x, t) ∧
      (Refused s t ∨ ∃ i, s.Editable ∧ s.instruction? p = some i ∧ Refused (s.opened i) t)) ∨
    ∃ i new, s.Editable ∧ s.instruction? p = some i ∧ change.apply i.operands = some new ∧
      new.length = i.operands.length ∧
      (modifyOperands p change).run s = (.ok (), s.modified i new) := by
  unfold modifyOperands
  rw [run_bind]
  rcases beginModify_ends hp with ⟨x, t, hrun, ht⟩ | ⟨_, u, hrun, hs, i, hi, rfl, -⟩
  · rw [hrun]
    exact .inl ⟨x, t, rfl, .inl ht⟩
  rw [hrun]
  obtain ⟨sec, xs, c, zs, hm, rfl⟩ := h.shows.split_of_instruction? hp hi
  cases c with
  | nil => exact (hm.isChunk (List.mem_singleton_self _)).elim
  | cons w us =>
    have h₁ := h.opened hm
    simp only [run_bind]
    rcases operands_ends (p := p) h₁ change with
      ⟨x, t, hrun, ht⟩ | ⟨new, v, hrun, b, hb, -, hnew, hn, rfl, -⟩
    · rw [hrun]
      exact .inl ⟨x, t, rfl, .inr ⟨_, hs, hi, ht⟩⟩
    rw [hrun]
    obtain rfl : ⟨p, us.length + 1⟩ = b := Option.some.inj hb
    simp only [Nat.add_sub_cancel, operands_of_splits h₁.shows hm] at hnew hn
    have hf := hm.fits_operands hn
    have h₂ := h₁.overwritten rfl hm rfl hf hn
    have hi₂ := h₂.shows.instruction?_of_splits (hm.splits_exchange hf)
    obtain ⟨_, v, hrun, rfl⟩ := endModify_answers (b := ⟨p, us.length + 1⟩)
      (s := (s.opened (.ofChunk p (w :: us))).overwritten (p + 1) us.length new) hs.1 rfl hi₂
    exact .inr ⟨_, new, hs, hi, hnew, hn, hrun⟩

/-- A change of operands that does not break off is made outside a bracket. -/
theorem modifyOperands_answers (h : s.Sound m) (hs : s.Editable) {i : Instruction}
    (hp : s.IsPlace p) (hi : s.instruction? p = some i) {change : OperandChange} {new : List Word}
    (hnew : change.apply i.operands = some new) :
    (modifyOperands p change).Answers s fun _ t => t = s.modified i new := by
  obtain ⟨sec, xs, c, zs, hm, rfl⟩ := h.shows.split_of_instruction? hp hi
  cases c with
  | nil => exact (hm.isChunk (List.mem_singleton_self _)).elim
  | cons w us =>
    have h₁ := h.opened hm
    have hn : new.length = us.length := change.length_apply hnew
    have hf := hm.fits_operands hn
    have h₂ := h₁.overwritten (b := ⟨p, us.length + 1⟩) rfl hm rfl hf hn
    refine (beginModify_answers hs hi).bind fun _ u hu => ?_
    subst hu
    have hops : change.apply (((s.opened (.ofChunk p (w :: us))).words.drop (p + 1)).take
        (us.length + 1 - 1)) = some new := by
      rw [Nat.add_sub_cancel, operands_of_splits h₁.shows hm]
      exact hnew
    refine (operands_answers (s := s.opened _) (b := ⟨p, us.length + 1⟩) hs.1 rfl hops).bind
      fun _ u hu => ?_
    subst hu
    exact endModify_answers (s := (s.opened _).overwritten ..) (b := ⟨p, us.length + 1⟩) hs.1 rfl
      (h₂.shows.instruction?_of_splits (hm.splits_exchange hf))

end Edit

end SpirvModule
