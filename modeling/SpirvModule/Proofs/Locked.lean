import SpirvModule.Proofs.Refusal

/-!
# Sessions that cannot be edited

A session that is aborted, or inside a bracket, is locked: every edit that would move words or
enter an instruction into the index is refused before it does anything. What is left is to look up
what is declared already, to hand out an id, and to speak of the bracket itself; and in an aborted
session the last two are refused as well. So an aborted session stays as it is for good.

Results:
* `perform_needless`: a command that finds what it is to declare does nothing.
* `perform_locked`: every other command is refused in a locked session, unless it may be answered
  inside a bracket.
* `perform_keeps_aborted`, `performAll_keeps_aborted`: an aborted session stays as it is.
* `Session.aborted_frozen`: no run changes an aborted session, and what it answers.
-/
namespace SpirvModule

namespace Command

/-- Whether a command finds what it is to declare, or has nothing to add. -/
def needless (s : Session) : Command → Bool
  | declareType k => (s.getType? k).isSome
  | declareStruct members => s.policy = .byMembers && (s.index.types.getStruct? members).isSome
  | importExtInst name => (s.index.imported? name).isSome
  | addFunction ops => ops.isEmpty
  | _ => false

/-- Whether a command may be answered inside a bracket though it is not needless. -/
def insideBracket : Command → Bool
  | newId | operands _ _ | endModify _ => true
  | _ => false

/-- Whether a command hands out an id before it is known that it can be answered. -/
def allocates : Command → Bool
  | newId | addConstantImmediate _ | addSpecConstantImmediate _ _ => true
  | _ => false

end Command

/-- To declare what is there, or to add nothing, changes nothing. -/
theorem perform_needless {s : Session} {c : Command} (hc : c.needless s) :
    ∃ a, s.perform c = (.ok a, s) := by
  cases c with
  | declareType k =>
    obtain ⟨id, hid⟩ := Option.isSome_iff_exists.mp hc
    exact ⟨.id id, Edit.run_map (Edit.declareType_found hid) _⟩
  | declareStruct members =>
    obtain ⟨hp, hs⟩ := Bool.and_eq_true_iff.mp hc
    obtain ⟨id, hid⟩ := Option.isSome_iff_exists.mp hs
    exact ⟨.id id, Edit.run_map (Edit.declareStruct_found (of_decide_eq_true hp) hid) _⟩
  | importExtInst name =>
    obtain ⟨id, hid⟩ := Option.isSome_iff_exists.mp hc
    exact ⟨.id id, Edit.run_map (Edit.importExtInst_found hid) _⟩
  | addFunction ops =>
    obtain rfl := List.isEmpty_iff.mp hc
    exact ⟨.done, rfl⟩
  | _ => cases hc

namespace Edit

variable {α β : Type} {e : Edit α} {f : α → Edit β} {s : Session}

/-! ## Edits that get no further -/

/-- Whether `e` is refused after it has raised the bound at most. -/
def Halts (e : Edit α) (s : Session) : Prop :=
  ∃ x u, Raised s u ∧ e.run s = (.error (.refused x), u.breached x)

theorem Halts.bind (he : e.Halts s) (f : α → Edit β) : (e >>= f).Halts s := by
  obtain ⟨x, u, hu, hrun⟩ := he
  exact ⟨x, u, hu, by rw [run_bind, hrun]⟩

theorem stops_get {f : Session → Edit α} (h : ∃ x, (f s).Stops x s) :
    ∃ x, (get >>= f).Stops x s := h

/-- An edit stops when no part behind a check gets through. -/
theorem Settles.bind_stops {A : α → Prop} (he : e.Settles s fun a t => t = s ∧ A a)
    (hf : ∀ a, A a → ∃ x, (f a).Stops x s) : ∃ x, (e >>= f).Stops x s := by
  rcases he.bind_guard (Q := fun _ _ => False) (fun a ha => .inl (hf a ha)) with h | ⟨_, _, _, h⟩
  · exact h
  · exact h.elim

/-- It halts when the part behind the raise of the bound does not get through. -/
theorem Settles.bind_halts (he : e.Settles s fun _ u => Raised s u)
    (hf : ∀ a u, Raised s u → ∃ x, (f a).Stops x u) : (e >>= f).Halts s := by
  rcases he with ⟨x, hx⟩ | ⟨a, u, hrun, hu⟩
  · exact ⟨x, s, .inl rfl, hx.bind f⟩
  · obtain ⟨x, hx⟩ := hf a u hu
    exact ⟨x, u, hu, by rw [run_bind, hrun, ← hx]⟩

/-- What halts behind a check halts. -/
theorem Settles.bind_guard_halts {A : α → Prop} (he : e.Settles s fun a t => t = s ∧ A a)
    (hf : ∀ a, A a → (f a).Halts s) : (e >>= f).Halts s := by
  rcases he with ⟨x, hx⟩ | ⟨a, t, hrun, rfl, ha⟩
  · exact ⟨x, s, .inl rfl, hx.bind f⟩
  · obtain ⟨x, u, hu, hrun'⟩ := hf a ha
    exact ⟨x, u, hu, by rw [run_bind, hrun, ← hrun']⟩

theorem Raised.not_editable {u : Session} (hu : Raised s u) (hs : ¬ s.Editable) : ¬ u.Editable := by
  rcases hu with rfl | ⟨i, b, -, -, rfl⟩ <;> exact hs

section Locked
variable (hs : ¬ s.Editable)
include hs

theorem ensureNoBracket_stops : ∃ x, ensureNoBracket.Stops x s := by
  rcases ensureNoBracket_settles (s := s) with h | ⟨_, _, _, _, he⟩
  · exact h
  · exact absurd he hs

theorem guarded_stops (f : Unit → Edit α) : ∃ x, (ensureNoBracket >>= f).Stops x s :=
  stops_bind (ensureNoBracket_stops hs) f

theorem append_stops (sec : Section) (op : Operation) : ∃ x, (append sec op).Stops x s :=
  stops_get (guarded_stops hs _)

theorem append_bind_stops (sec : Section) (op : Operation) (f : Option Id → Edit α) :
    ∃ x, (append sec op >>= f).Stops x s := stops_bind (append_stops hs sec op) f

/-- An operation that is not refused for its section is refused all the same. -/
theorem checked_append_stops (home sec : Section) (op : Operation) (f : Option Id → Edit α) :
    ∃ x, (checkSection op home >>= fun _ => append sec op >>= f).Stops x s :=
  (checkSection_settles op home).bind_stops fun _ _ => append_bind_stops hs sec op f

theorem addConstant_stops (op : Operation) : ∃ x, (addConstant op).Stops x s :=
  checked_append_stops hs .types .types op _

theorem addVariable_stops (op : Operation) : ∃ x, (addVariable op).Stops x s := by
  unfold addVariable
  split
  · exact ⟨_, rfl⟩
  · exact append_bind_stops hs .types op _

/-- A type is found, or its declaration is refused. -/
theorem declareType_settles (k : TypeKey) :
    (declareType k).Settles s fun i t => t = s ∧ s.getType? k = some i := by
  refine settles_get ?_
  cases hk : s.getType? k with
  | some i => exact settles_pure ⟨rfl, rfl⟩
  | none => exact .inl (guarded_stops hs _)

theorem declareStruct_stops {members : List Id}
    (hn : ¬ (Command.declareStruct members).needless s) :
    ∃ x, (declareStruct members).Stops x s := by
  refine stops_get ?_
  split
  · rename_i i hi
    split at hi
    · rename_i hp
      exact absurd (by simp [Command.needless, hp, hi]) hn
    · cases hi
  · exact guarded_stops hs _

theorem importExtInst_stops {name : String}
    (hn : ¬ (Command.importExtInst name).needless s) : ∃ x, (importExtInst name).Stops x s := by
  refine stops_get ?_
  cases hi : s.index.imported? name with
  | some i => exact absurd (by simp [Command.needless, hi]) hn
  | none => exact guarded_stops hs _

/-- The type of a constant may be there and an id be handed out, but what comes then is refused. -/
theorem typed_halts (k : TypeKey) {g : Id → Id → Edit α}
    (hg : ∀ type i u, ¬ Session.Editable u → ∃ x, (g type i).Stops x u) :
    (declareType k >>= fun type => newId >>= g type).Halts s := by
  refine (declareType_settles hs k).bind_guard_halts fun type _ => ?_
  refine (newId_settles.mono fun _ _ h => h.2.2.1).bind_halts fun i u hu => ?_
  exact hg type i u (hu.not_editable hs)

theorem addConstantImmediate_halts (v : Immediate) : (addConstantImmediate v).Halts s :=
  typed_halts hs _ fun _ _ _ hu => addConstant_stops hu _

theorem addSpecConstantImmediate_halts (v : Immediate) (n : Word) :
    (addSpecConstantImmediate v n).Halts s := by
  refine typed_halts hs _ fun type i u hu => ?_
  exact stops_bind (addConstant_stops hu (.specConstant type i v.words)) _

theorem addFunction_stops {ops : List Operation} (hn : ops ≠ []) :
    ∃ x, (addFunction ops).Stops x s := by
  obtain ⟨op, ops, rfl⟩ := List.exists_cons_of_ne_nil hn
  refine (checkSections_settles (op :: ops) .functions).bind_stops fun _ _ => ?_
  exact stops_bind (append_bind_stops hs .functions op fun _ => pure ()) _

end Locked

end Edit

/-! ## Commands -/

/-- Every command that is not needless is refused in a locked session, unless it may be answered
inside a bracket. The bound is raised before that at most. -/
theorem perform_locked {s : Session} {c : Command} (hs : ¬ s.Editable) (hn : ¬ c.needless s)
    (hc : ¬ c.insideBracket) : ∃ x u, (u = s ∨ c.allocates ∧ Edit.Raised s u) ∧
      s.perform c = (.error (.refused x), u.breached x) := by
  have stopped {α : Type} {e : Edit α} {f : α → Edit Answer} (he : ∃ x, e.Stops x s) :
      ∃ x u, (u = s ∨ c.allocates ∧ Edit.Raised s u) ∧
        (e >>= f).run s = (.error (.refused x), u.breached x) := by
    obtain ⟨x, hx⟩ := Edit.stops_bind he f
    exact ⟨x, s, .inl rfl, hx⟩
  have halted {α : Type} {e : Edit α} {f : α → Edit Answer} (ha : c.allocates) (he : e.Halts s) :
      ∃ x u, (u = s ∨ c.allocates ∧ Edit.Raised s u) ∧
        (e >>= f).run s = (.error (.refused x), u.breached x) := by
    obtain ⟨x, u, hu, hrun⟩ := he.bind f
    exact ⟨x, u, .inr ⟨ha, hu⟩, hrun⟩
  cases c with
  | newId | operands p change | endModify p => exact absurd rfl hc
  | insert p op | replace p op | remove p | beginModify p => exact stopped (Edit.guarded_stops hs _)
  | modifyOperands p change => exact stopped (Edit.stops_bind (Edit.guarded_stops hs _) _)
  | declareType k =>
    rcases Edit.declareType_settles hs k with h | ⟨i, -, -, -, hk⟩
    · exact stopped h
    · exact absurd (by simp [Command.needless, hk]) hn
  | declareStruct members => exact stopped (Edit.declareStruct_stops hs hn)
  | addType op => exact stopped (Edit.checked_append_stops hs _ _ op _)
  | addConstant op => exact stopped (Edit.addConstant_stops hs op)
  | addVariable op => exact stopped (Edit.addVariable_stops hs op)
  | addConstantImmediate v => exact halted rfl (Edit.addConstantImmediate_halts hs v)
  | addSpecConstantImmediate v n => exact halted rfl (Edit.addSpecConstantImmediate_halts hs v n)
  | addDecoration op | addExecutionMode op => exact stopped (Edit.checked_append_stops hs _ _ op _)
  | addCapability c => exact stopped (Edit.append_bind_stops hs _ _ _)
  | addExtension name => exact stopped (Edit.append_bind_stops hs _ _ _)
  | importExtInst name => exact stopped (Edit.importExtInst_stops hs hn)
  | decorateStorageBuffer i =>
    exact stopped (Edit.stops_get (Edit.checked_append_stops hs _ _ _ _))
  | setName i text => exact stopped (Edit.append_bind_stops hs _ _ _)
  | setMemberName i m text => exact stopped (Edit.append_bind_stops hs _ _ _)
  | addFunction ops =>
    exact stopped (Edit.addFunction_stops hs fun h => hn (by simp [Command.needless, h]))

/-! ## Aborted sessions -/

/-- Whether a command asks before anything else whether the session is aborted. -/
def Command.asksFirst : Command → Bool
  | modifyOperands _ _ => true
  | c => c.primitive

section Aborted
variable {s : Session} {c : Command}

theorem Command.asksFirst_of_insideBracket (h : c.insideBracket) : c.asksFirst := by
  cases c with
  | newId | operands p change | endModify p => rfl
  | _ => cases h

theorem perform_asksFirst (h : s.aborted) (hc : c.asksFirst) : c.edit.Stops .aborted s := by
  have hlive := Edit.ensureLive_stops h
  have hguard : Edit.ensureNoBracket.Stops .aborted s := hlive.bind _
  cases c with
  | newId | operands p change | endModify p => exact (hlive.bind _).bind _
  | insert p op | replace p op | remove p | beginModify p => exact (hguard.bind _).bind _
  | modifyOperands p change => exact ((hguard.bind _).bind _).bind _
  | _ => cases hc

/-- An aborted session refuses every command that is not needless, and stays as it is. -/
theorem perform_aborted (h : s.aborted) (hn : ¬ c.needless s) :
    ∃ x, s.perform c = (.error (.refused x), s) := by
  have stays {x : EditError} (hx : c.edit.Stops x s) : s.perform c = (.error (.refused x), s) :=
    hx.trans (by rw [Edit.breached_of_aborted h])
  by_cases hc : c.insideBracket
  · exact ⟨_, stays (perform_asksFirst h (Command.asksFirst_of_insideBracket hc))⟩
  have hlive : s.breach ≠ none := Option.isSome_iff_ne_none.mp h
  obtain ⟨x, u, hu, hrun⟩ := perform_locked (fun he => hlive he.1) hn hc
  -- the bound is raised in a session without a breach only
  obtain rfl | ⟨-, rfl | ⟨_, _, -, hs, -⟩⟩ := hu
  · exact ⟨x, stays hrun⟩
  · exact ⟨x, stays hrun⟩
  · exact absurd hs hlive

theorem perform_keeps_aborted (h : s.aborted) (c : Command) : (s.perform c).2 = s := by
  by_cases hn : c.needless s
  · obtain ⟨a, ha⟩ := perform_needless hn
    rw [ha]
  · obtain ⟨x, hx⟩ := perform_aborted h hn
    rw [hx]

theorem performAll_keeps_aborted (h : s.aborted) (cs : List Command) : s.performAll cs = s := by
  induction cs with
  | nil => rfl
  | cons c cs ih =>
    show (s.perform c).2.performAll cs = s
    rw [perform_keeps_aborted h c, ih]

/-- No run of commands, with whatever arguments, changes an aborted session. Only needless commands
are answered; the others are refused, and those that ask first because the session is aborted. -/
theorem Session.aborted_frozen (h : s.aborted) (cs : List Command) :
    s.performAll cs = s ∧ ∀ c : Command,
      (c.needless s → ∃ a, s.perform c = (.ok a, s)) ∧
      (¬ c.needless s → ∃ x, s.perform c = (.error (.refused x), s) ∧
        (c.asksFirst → x = .aborted)) := by
  refine ⟨performAll_keeps_aborted h cs, fun c => ⟨perform_needless, fun hn => ?_⟩⟩
  obtain ⟨x, hx⟩ := perform_aborted h hn
  refine ⟨x, hx, fun hc => ?_⟩
  have hask : s.perform c = (.error (.refused .aborted), s.breached .aborted) :=
    perform_asksFirst h hc
  rw [hx] at hask
  exact Failure.refused.inj (Except.error.inj (Prod.mk.inj hask).1)

/-- A type is declared, and the removal of an instruction that is not there aborts the session. -/
def misused : Session :=
  (Session.create .never ⟨1, 3⟩ 0).performAll [.declareType (.scalar .bool), .remove 6]

theorem aborted_frozen_misused :
    misused.performAll [.newId, .setName .one "a", .declareType (.scalar .bool), .endModify 5,
        .addFunction []] = misused ∧
      (∃ a, misused.perform (.declareType (.scalar .bool)) = (.ok a, misused)) ∧
      misused.perform .newId = (.error (.refused .aborted), misused) := by
  have h : misused.aborted := by decide +kernel
  obtain ⟨hrun, hans⟩ := Session.aborted_frozen h [.newId, .setName .one "a",
    .declareType (.scalar .bool), .endModify 5, .addFunction []]
  refine ⟨hrun, (hans _).1 (by decide +kernel), ?_⟩
  obtain ⟨x, hx, hask⟩ := (hans .newId).2 (by decide)
  rw [hx, hask rfl]

end Aborted

end SpirvModule
