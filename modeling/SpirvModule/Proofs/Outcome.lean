import SpirvModule.Proofs.Course

/-!
# Commands that are answered

A command that a sound session answers has passed all of its checks. `Command.Outcome` says
what is known then, for each command: where the outline is split, what may stand there, and
which session is left behind. What holds of every command that is answered is proved by
cases on it. One that is not answered has appended something at most, or it has left a
bracket of its own open.

Results:
* `perform_outcome`: every answer comes with an outcome.
* `perform_unanswered`: what there is without an answer.
-/
namespace SpirvModule

namespace Edit

variable {α β : Type} {e : Edit α} {s t : Session} {x : Failure}

/-- An answer that is passed on in some other form is an answer. -/
theorem Ends.answer {P : α → Session → Prop} {g : α → β} {b : β} (he : e.Ends s P)
    (h : (e >>= fun a => pure (g a)).run s = (.ok b, t)) : ∃ a, b = g a ∧ P a t := by
  obtain ⟨a, u, ha, hrun⟩ := he.answer_bind h
  obtain ⟨hb, rfl⟩ := Prod.mk.inj (show (Except.ok (g a), u) = (.ok b, t) from hrun)
  exact ⟨a, (Except.ok.inj hb).symm, ha⟩

/-- Without an answer nothing is passed on. -/
theorem unanswered_map {g : α → β} (h : (e >>= fun a => pure (g a)).run s = (.error x, t)) :
    e.run s = (.error x, t) := by
  rw [run_bind] at h
  rcases hrun : e.run s with ⟨r, u⟩
  rw [hrun] at h
  cases r with
  | ok a => cases h
  | error y =>
    cases h
    rfl

theorem Ends.unanswered {P : α → Session → Prop} (he : e.Ends s P) (h : e.run s = (.error x, t)) :
    Refused s t := by
  rcases he with ⟨y, u, hrun, hu⟩ | ⟨a, u, hrun, -⟩
  · obtain ⟨-, rfl⟩ := Prod.mk.inj (hrun.symm.trans h)
    exact hu
  · cases hrun.symm.trans h

theorem Appends.answer {P : α → List (Section × Operation) → Prop} {a : α} (he : e.Appends s P)
    (h : e.run s = (.ok a, t)) : ∃ l, Adds s l t ∧ P a l := by
  obtain ⟨r, l, u, hrun, hadds, ha⟩ := he
  obtain ⟨rfl, rfl⟩ := Prod.mk.inj (hrun.symm.trans h)
  exact ⟨l, hadds, ha a rfl⟩

end Edit

/-- The place of the instruction that a command takes out, be it for a moment. -/
def Command.takesOut? : Command → Option Nat
  | replace p _ | remove p | beginModify p | modifyOperands p _ => some p
  | _ => none

/-- What a session with the outline `m` answers to a command, and what it turns into. -/
inductive Command.Outcome (s : Session) (m : Outline) : Command → Answer → Session → Prop
  | adds {c : Command} {a : Answer} {l : List (Section × Operation)} {t : Session}
      (hl : c.Appended s a l) (hadds : Adds s l t) : Outcome s m c a t
  | insert {p : Nat} {op : Operation} {sec : Section} {u : Session} {xs zs : List (List Word)}
      (hs : s.Editable) (hsec : s.layout.placement op.opcode p = some sec) (hu : Edit.Raised s u)
      (hm : m.Splits sec p xs [] zs) (hf : ∀ d ∈ [op.words], Fits sec d) :
      Outcome s m (.insert p op) (.defined op.resultId?) (u.inserted sec p op)
  | replace {p : Nat} {op : Operation} {sec : Section} {c : List Word} {xs zs : List (List Word)}
      (hs : s.Editable) (hsec : s.layout.containing p = some sec)
      (hh : op.opcode.home?.all (· = sec)) (hm : m.Splits sec p xs [c] zs)
      (hf : ∀ d ∈ [op.words], Fits sec d) :
      Outcome s m (.replace p op) (.defined op.resultId?) (s.replaced sec (.ofChunk p c) op)
  | remove {p : Nat} {sec : Section} {c : List Word} {xs zs : List (List Word)}
      (hs : s.Editable) (hm : m.Splits sec p xs [c] zs) :
      Outcome s m (.remove p) .done (s.blanked (.ofChunk p c))
  | beginModify {p : Nat} {sec : Section} {c : List Word} {xs zs : List (List Word)}
      (hs : s.Editable) (hm : m.Splits sec p xs [c] zs) :
      Outcome s m (.beginModify p) .done (s.opened (.ofChunk p c))
  | operands {b : Bracket} {change : OperandChange} {sec : Section} {w : Word}
      {us new : List Word} {xs zs : List (List Word)} (hb : s.bracket = some b)
      (hm : m.Splits sec b.offset xs [w :: us] zs) (hl : b.wordCount = us.length + 1)
      (hnew : change.apply us = some new) :
      Outcome s m (.operands b.offset change) (.operands new)
        (s.overwritten (b.offset + 1) (b.wordCount - 1) new)
  | endModify {b : Bracket} {i : Instruction} (hb : s.bracket = some b)
      (hi : s.instruction? b.offset = some i) :
      Outcome s m (.endModify b.offset) .done (s.closed i)
  | modifyOperands {p : Nat} {change : OperandChange} {sec : Section} {w : Word}
      {us new : List Word} {xs zs : List (List Word)} (hs : s.Editable)
      (hm : m.Splits sec p xs [w :: us] zs) (hnew : change.apply us = some new) :
      Outcome s m (.modifyOperands p change) .done (s.modified (.ofChunk p (w :: us)) new)

/-- A command with proper places that a sound session answers has an outcome. -/
theorem perform_outcome {s t : Session} {m : Outline} {c : Command} {a : Answer} (h : s.Sound m)
    (hc : c.Proper s) (hrun : s.perform c = (.ok a, t)) : c.Outcome s m a t := by
  have adder (hoff : c.offset? = none) : c.Outcome s m a t := by
    obtain ⟨l, hadds, hl⟩ := (edit_appends h hoff).answer hrun
    exact .adds hl hadds
  cases c with
  | insert p op =>
    obtain ⟨_, rfl, hs, hl, sec, u, hsec, hu, _, _, rfl, rfl⟩ :=
      (Edit.insert_ends h (hc p rfl)).answer hrun
    obtain ⟨hacc, hh⟩ := Edit.placement_eq_some hsec
    obtain ⟨xs, zs, hm⟩ := h.shows.split_of_accepts (hc p rfl) hacc
    exact .insert hs hsec hu hm (fits_singleton (fits_words hh hl))
  | replace p op =>
    obtain ⟨_, rfl, hs, hl, sec, i, hsec, hh, hi, rfl, rfl, _⟩ :=
      (Edit.replace_ends (hc p rfl)).answer hrun
    have hcont : (s.layout.span sec).contains p :=
      List.find?_some (p := fun s' => (s.layout.span s').contains p) hsec
    obtain ⟨xs, d, zs, hm, rfl⟩ := h.shows.split_of_contains (hc p rfl) hcont hi
    exact .replace hs hsec hh hm (fits_singleton (fits_words hh hl))
  | remove p =>
    obtain ⟨_, rfl, hs, i, hi, rfl, _⟩ := (Edit.remove_ends (hc p rfl)).answer hrun
    obtain ⟨sec, xs, d, zs, hm, rfl⟩ := h.shows.split_of_instruction? (hc p rfl) hi
    exact .remove hs hm
  | beginModify p =>
    obtain ⟨_, rfl, hs, i, hi, rfl, _⟩ := (Edit.beginModify_ends (hc p rfl)).answer hrun
    obtain ⟨sec, xs, d, zs, hm, rfl⟩ := h.shows.split_of_instruction? (hc p rfl) hi
    exact .beginModify hs hm
  | operands p change =>
    obtain ⟨new, rfl, b, hb, rfl, hnew, _, rfl, _⟩ := (Edit.operands_ends h change).answer hrun
    obtain ⟨sec, xs, w, us, zs, hm, hl⟩ := h.split_of_bracket hb
    rw [hl, Nat.add_sub_cancel, Edit.operands_of_splits h.shows hm] at hnew
    exact .operands hb hm hl hnew
  | endModify p =>
    obtain ⟨_, rfl, b, i, hb, rfl, hi, rfl, _⟩ := (Edit.endModify_settles h).ends.answer hrun
    exact .endModify hb hi
  | modifyOperands p change =>
    have hparts : (Edit.modifyOperands p change >>= fun _ => pure Answer.done).run s = (.ok a, t) :=
      hrun
    rw [Edit.run_bind] at hparts
    rcases Edit.modifyOperands_run h (hc p rfl) change with
      ⟨x, u, hx, -⟩ | ⟨i, new, hs, hi, hnew, _, hx⟩
    · rw [hx] at hparts
      cases hparts
    · rw [hx] at hparts
      obtain ⟨ha, rfl⟩ := Prod.mk.inj hparts
      obtain rfl := Except.ok.inj ha
      obtain ⟨sec, xs, d, zs, hm, rfl⟩ := h.shows.split_of_instruction? (hc p rfl) hi
      cases d with
      | nil => exact (hm.isChunk (List.mem_singleton_self _)).elim
      | cons w us => exact .modifyOperands hs hm hnew
  | _ => exact adder rfl

/-- A command with proper places that a sound session does not answer has appended something at
most, unless it is a change of operands that left its bracket open. -/
theorem perform_unanswered {s t : Session} {m : Outline} {c : Command} {x : Failure} (h : s.Sound m)
    (hc : c.Proper s) (hrun : s.perform c = (.error x, t)) :
    (∃ l, Adds s l t) ∨ ∃ p change i, c = .modifyOperands p change ∧ s.Editable ∧
      s.instruction? p = some i ∧ Edit.Refused (s.opened i) t := by
  have adder (hoff : c.offset? = none) : ∃ l, Adds s l t := by
    obtain ⟨r, l, u, hrun', hadds, -⟩ := edit_appends h hoff
    obtain ⟨-, rfl⟩ := Prod.mk.inj (hrun'.symm.trans hrun)
    exact ⟨l, hadds⟩
  have refused {α : Type} {e : Edit α} {P : α → Session → Prop} {g : α → Answer}
      (he : e.Ends s P) (heq : c.edit = e >>= fun a => pure (g a)) : ∃ l, Adds s l t := by
    rw [Session.perform, heq] at hrun
    exact ⟨[], .of_refused (he.unanswered (Edit.unanswered_map hrun))⟩
  cases c with
  | insert p op => exact .inl (refused (Edit.insert_ends h (hc p rfl)) rfl)
  | replace p op => exact .inl (refused (Edit.replace_ends (hc p rfl)) rfl)
  | remove p => exact .inl (refused (Edit.remove_ends (hc p rfl)) rfl)
  | beginModify p => exact .inl (refused (Edit.beginModify_ends (hc p rfl)) rfl)
  | operands p change => exact .inl (refused (Edit.operands_ends h change) rfl)
  | endModify p => exact .inl (refused (Edit.endModify_settles h).ends rfl)
  | modifyOperands p change =>
    have hparts := Edit.unanswered_map hrun
    rcases Edit.modifyOperands_run h (hc p rfl) change with
      ⟨y, u, hrun', hu⟩ | ⟨i, new, -, -, -, -, hrun'⟩
    · obtain ⟨-, rfl⟩ := Prod.mk.inj (hrun'.symm.trans hparts)
      rcases hu with hu | ⟨i, hs, hi, hu⟩
      · exact .inl ⟨[], .of_refused hu⟩
      · exact .inr ⟨p, change, i, rfl, hs, hi, hu⟩
    · cases hrun'.symm.trans hparts
  | _ => exact .inl (adder rfl)

end SpirvModule
