import SpirvModule.Proofs.Course

/-!
# Refusals

The primitive edits are those that all others are made of. Each checks what it is given
before it changes anything, and what it does then cannot fail, whatever the place it was told:
a stale offset, one inside an instruction, or one behind the end of the module. So a primitive
edit that fails leaves a session behind that differs in the recorded breach alone, and refuses
every edit from then on.

Results:
* `primitive_settles`: a primitive edit stops or answers, unless a change of operands breaks
  off.
* `Reached.failure_changes_nothing`: a primitive edit that fails changes nothing.
-/
namespace SpirvModule

/-- Whether a command is one of the edits that all others are made of. -/
def Command.primitive : Command → Bool
  | newId | insert _ _ | replace _ _ | remove _ | beginModify _ | operands _ _ | endModify _ => true
  | _ => false

namespace Edit

variable {α β : Type} {e : Edit α} {s : Session} {P : α → Session → Prop}

/-- An edit settles as well when its answer is passed on in some other form. -/
theorem Settles.map (he : e.Settles s P) (g : α → β) :
    (e >>= fun a => pure (g a)).Settles s fun _ _ => True :=
  he.bind_answers fun _ _ _ => answers_pure trivial

end Edit

/-- Whether `change` breaks off in the bracket that is open at `p`. -/
def Session.BreaksOff (s : Session) (p : Nat) (change : OperandChange) : Prop :=
  ∃ b, s.bracket = some b ∧ b.offset = p ∧
    change.apply ((s.words.drop (p + 1)).take (b.wordCount - 1)) = none

/-- A primitive edit stops or answers. Only a change of operands can break off, and then nothing has
changed. -/
theorem primitive_settles {s : Session} {m : Outline} (h : s.Sound m) {c : Command}
    (hc : c.primitive) : c.edit.Settles s (fun _ _ => True) ∨
      ∃ p change, c = .operands p change ∧ s.BreaksOff p change ∧
        s.perform c = (.error .crash, s) := by
  cases c with
  | newId => exact .inl (Edit.newId_settles.map _)
  | insert p op => exact .inl ((Edit.insert_settles h.shows).map _)
  | replace p op => exact .inl (Edit.replace_settles.map _)
  | remove p => exact .inl (Edit.remove_settles.map _)
  | beginModify p => exact .inl (Edit.beginModify_settles.map _)
  | endModify p => exact .inl ((Edit.endModify_settles h).map _)
  | operands p change =>
    rcases Edit.operands_run (p := p) (s := s) change with hrun | ⟨b, hb, hp, hnone, hrun⟩
    · exact .inl (hrun.map _)
    · exact .inr ⟨p, change, rfl, ⟨b, hb, hp, hnone⟩, Edit.run_map hrun _⟩
  | _ => cases hc

/-- When a primitive edit fails, at whatever offset and with whatever operation, the session stays
as it is, but that it is aborted. Only a change of operands that breaks off does not abort it, and
that changes nothing at all. -/
theorem Reached.failure_changes_nothing {s : Session} (h : Reachable s) {c : Command}
    (hc : c.primitive) {x : Failure} (hx : (s.perform c).1 = .error x) :
    (∃ e, x = .refused e ∧ (s.perform c).2 = { s with breach := s.breach.or (some e) } ∧
      (s.perform c).2.aborted) ∨
    ∃ p change, c = .operands p change ∧ s.BreaksOff p change ∧ x = .crash ∧
      (s.perform c).2 = s := by
  obtain ⟨m, hm⟩ := h.sound
  rcases primitive_settles hm hc with (⟨e, he⟩ | ⟨a, t, ha, -⟩) | ⟨p, change, rfl, hoff, hrun⟩
  · have hrun : s.perform c = (.error (.refused e), s.breached e) := he
    rw [hrun] at hx ⊢
    exact .inl ⟨e, (Except.error.inj hx).symm, rfl, Edit.aborted_breached s e⟩
  · have hrun : s.perform c = (.ok a, t) := ha
    rw [hrun] at hx
    cases hx
  · rw [hrun] at hx ⊢
    exact .inr ⟨p, change, rfl, hoff, (Except.error.inj hx).symm, rfl⟩

/-- The last id there is cannot be put in, as no bound is above it. -/
theorem failure_changes_nothing_lastId :
    ((Session.create .never ⟨1, 3⟩ 0).perform (.insert 5 ⟨.opTypeVoid, [0xFFFFFFFF]⟩)).2 =
      { Session.create .never ⟨1, 3⟩ 0 with breach := some .idsExhausted } := by
  have hx : ((Session.create .never ⟨1, 3⟩ 0).perform (.insert 5 ⟨.opTypeVoid, [0xFFFFFFFF]⟩)).1 =
    .error (.refused .idsExhausted) := by decide +kernel
  rcases Reached.failure_changes_nothing (.create .never ⟨1, 3⟩ 0 trivial) rfl hx with
    ⟨e, he, ht, -⟩ | ⟨p, change, hc, -⟩
  · cases he
    exact ht
  · cases hc

end SpirvModule
