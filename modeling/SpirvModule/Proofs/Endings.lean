import SpirvModule.Proofs.Move

/-!
# How edits end

An edit is refused when it ends without an answer before it has changed anything: the
session stays, but for the breach it may record. Most edits settle: they stop with an error
and have the breach recorded, or they answer. An edit is made of parts that settle, and it
settles itself if nothing can fail any more once a part has changed something. What it yields
is what holds when it answers, whatever there may be without an answer.

Results:
* `Settles.bind_guard`, `Settles.bind_answers`: an edit stops when its first part does.
* `Yields.bind`, `Settles.yields`: what an edit yields part by part.
* `ensureLive_settles`, `ensureNoBracket_settles`, `instructionAt_settles`, …: what the
  parts of an edit check.
* `exchange_answers`, `register_answers`: when the parts that change something cannot fail.
-/
namespace SpirvModule

/-! ## Order of ids -/

namespace Id

variable {i a b : Id}

theorem toNat_succ (h : i.succ? = some b) : b.value.toNat = i.value.toNat + 1 := by
  have hb : b.value = i.value + 1 := ofWord?_eq_some.mp h
  have hne : b.value.toNat ≠ 0 := fun h0 => b.value_ne_zero (UInt32.toNat_inj.mp h0)
  have hlt := i.value.toNat_lt
  rw [hb, UInt32.toNat_add, UInt32.toNat_one] at hne ⊢
  omega

theorem toNat_max (a b : Id) : (max a b).value.toNat = max a.value.toNat b.value.toNat := by
  show (if a.value ≤ b.value then b else a).value.toNat = _
  split
  · rename_i hle
    rw [UInt32.le_iff_toNat_le] at hle
    omega
  · rename_i hle
    rw [UInt32.not_le, UInt32.lt_iff_toNat_lt] at hle
    omega

theorem lt_of_succ? (h : i.succ? = some b) : i.value < b.value := by
  rw [UInt32.lt_iff_toNat_lt, toNat_succ h]
  omega

/-- An id is below every bound that was raised above it. -/
theorem lt_max_succ (h : i.succ? = some b) (a : Id) : i.value < (max a b).value := by
  rw [UInt32.lt_iff_toNat_lt, toNat_max, toNat_succ h]
  omega

theorem max_succ (h : i.succ? = some b) : max i b = b := by
  apply ext_value
  apply UInt32.toNat_inj.mp
  rw [toNat_max, toNat_succ h]
  omega

/-- A bound is raised above the ids that are not below it only. -/
theorem max_succ_eq (h : i.succ? = some b) (hi : i.value < a.value) : max a b = a := by
  apply ext_value
  apply UInt32.toNat_inj.mp
  rw [UInt32.lt_iff_toNat_lt] at hi
  rw [toNat_max, toNat_succ h]
  omega

end Id

/-! ## What is handed out -/

/-- The id that is handed out first when `op` has come, if it was `fresh` before. -/
def Operation.freshAfter (op : Operation) (fresh : Id) : Id :=
  match op.resultId?.bind Id.succ? with
  | some b => max fresh b
  | none => fresh

namespace Edit

variable {α β : Type} {s t : Session}

theorem run_bind (e : Edit α) (f : α → Edit β) (s : Session) :
    (e >>= f).run s = match e.run s with
      | (.ok a, u) => (f a).run u
      | (.error x, u) => (.error x, u) := by
  show (ExceptT.bindCont f (e.run s).1) (e.run s).2 = _
  rcases e.run s with ⟨r, u⟩
  cases r <;> rfl

/-- An answer may be passed on in some other form. -/
theorem run_map {e : Edit α} {r : Except Failure α} (h : e.run s = (r, t)) (g : α → β) :
    (e >>= fun a => pure (g a)).run s = (r.map g, t) := by
  rw [run_bind, h]
  cases r <;> rfl

@[simp] theorem run_get_bind {ε σ : Type} (f : σ → ExceptT ε (StateM σ) α) (s : σ) :
    (get >>= f).run s = (f s).run s := rfl

theorem ite_unit_bind (b : Prop) [Decidable b] (e : Edit Unit) (f : Unit → Edit α) :
    (if b then e else pure ()) >>= f = if b then e >>= f else f () := by
  split
  · rfl
  · exact pure_bind ..

/-! ## Ends of an edit -/

/-- Whether `t` is `s`, but for a breach. -/
def Refused (s t : Session) : Prop := t = s ∨ ∃ e, t = s.breached e

/-- Whether `e` answers, and leaves an answer and a session behind for which `Q` holds. -/
def Answers (e : Edit α) (s : Session) (Q : α → Session → Prop) : Prop :=
  ∃ a t, e.run s = (.ok a, t) ∧ Q a t

/-- Whether `e` is refused, or answers and `Q` holds. -/
def Ends (e : Edit α) (s : Session) (Q : α → Session → Prop) : Prop :=
  (∃ x t, e.run s = (.error x, t) ∧ Refused s t) ∨ e.Answers s Q

/-- Whether `e` is refused with `x`, and leaves nothing behind but the breach. -/
def Stops (e : Edit α) (x : EditError) (s : Session) : Prop :=
  e.run s = (.error (.refused x), s.breached x)

/-- Whether `e` stops, or answers and `Q` holds. -/
def Settles (e : Edit α) (s : Session) (Q : α → Session → Prop) : Prop :=
  (∃ x, e.Stops x s) ∨ e.Answers s Q

variable {e : Edit α} {f : α → Edit β} {P P' : α → Session → Prop} {Q : β → Session → Prop}
  {x : EditError}

theorem Answers.bind (he : e.Answers s P) (hf : ∀ a u, P a u → (f a).Answers u Q) :
    (e >>= f).Answers s Q := by
  obtain ⟨a, u, hrun, ha⟩ := he
  obtain ⟨b, t, hrun', hb⟩ := hf a u ha
  exact ⟨b, t, by rw [run_bind, hrun, ← hrun'], hb⟩

theorem Answers.mono (he : e.Answers s P) (hP : ∀ a t, P a t → P' a t) : e.Answers s P' := by
  obtain ⟨a, t, hrun, ha⟩ := he
  exact ⟨a, t, hrun, hP a t ha⟩

theorem Stops.bind (he : e.Stops x s) (f : α → Edit β) : (e >>= f).Stops x s := by
  rw [Stops, run_bind, he]

theorem stops_bind (he : ∃ x, e.Stops x s) (f : α → Edit β) : ∃ x, (e >>= f).Stops x s := by
  obtain ⟨x, hx⟩ := he
  exact ⟨x, hx.bind f⟩

theorem Settles.bind_answers (he : e.Settles s P) (hf : ∀ a u, P a u → (f a).Answers u Q) :
    (e >>= f).Settles s Q := by
  rcases he with ⟨x, hx⟩ | he
  · exact .inl ⟨x, hx.bind f⟩
  · exact .inr (he.bind hf)

/-- A part that answers leaves the session as it is. -/
theorem Settles.bind_guard {A : α → Prop} (he : e.Settles s fun a t => t = s ∧ A a)
    (hf : ∀ a, A a → (f a).Settles s Q) : (e >>= f).Settles s Q := by
  rcases he with ⟨x, hx⟩ | ⟨a, t, hrun, rfl, ha⟩
  · exact .inl ⟨x, hx.bind f⟩
  · rcases hf a ha with ⟨x, hx⟩ | ⟨b, u, hrun', hb⟩
    · exact .inl ⟨x, by rw [Stops, run_bind, hrun, ← hx]⟩
    · exact .inr ⟨b, u, by rw [run_bind, hrun, ← hrun'], hb⟩

/-- An edit answers only if its first part does. -/
theorem Ends.answer_bind {b : β} (he : e.Ends s P) (h : (e >>= f).run s = (.ok b, t)) :
    ∃ a u, P a u ∧ (f a).run u = (.ok b, t) := by
  rw [run_bind] at h
  rcases he with ⟨x, u, hrun, -⟩ | ⟨a, u, hrun, ha⟩
  · rw [hrun] at h
    cases h
  · rw [hrun] at h
    exact ⟨a, u, ha, h⟩

theorem Ends.mono (he : e.Ends s P) (hP : ∀ a t, P a t → P' a t) : e.Ends s P' :=
  he.imp_right fun ha => ha.mono hP

theorem Settles.mono (he : e.Settles s P) (hP : ∀ a t, P a t → P' a t) : e.Settles s P' :=
  he.imp_right fun ha => ha.mono hP

/-- To stop is to be refused. -/
theorem Settles.ends (he : e.Settles s P) : e.Ends s P :=
  he.imp_left fun ⟨x, hx⟩ => ⟨_, _, hx, .inr ⟨x, rfl⟩⟩

theorem answers_pure {a : α} (h : P a s) : (pure a : Edit α).Answers s P := ⟨a, s, rfl, h⟩

theorem settles_pure {a : α} (h : P a s) : (pure a : Edit α).Settles s P := .inr (answers_pure h)

theorem answers_get {f : Session → Edit α} (h : (f s).Answers s P) :
    (get >>= f).Answers s P := h

theorem settles_get {f : Session → Edit α} (h : (f s).Settles s P) : (get >>= f).Settles s P := h

theorem settles_violate (x : EditError) : (violate x : Edit α).Settles s P := .inl ⟨x, rfl⟩

theorem settles_violate_bind (x : EditError) : (violate x >>= f).Settles s Q := .inl ⟨x, rfl⟩

/-- Whether `Q` holds of answer and session when `e` answers. -/
def Yields (e : Edit α) (s : Session) (Q : α → Session → Prop) : Prop :=
  ∀ a t, e.run s = (.ok a, t) → Q a t

theorem Yields.bind (he : e.Yields s P) (hf : ∀ a u, P a u → (f a).Yields u Q) :
    (e >>= f).Yields s Q := by
  intro b t hrun
  rw [run_bind] at hrun
  rcases hr : e.run s with ⟨r, u⟩
  rw [hr] at hrun
  cases r with
  | error x => cases hrun
  | ok a => exact hf a u (he a u hr) b t hrun

theorem Yields.mono (he : e.Yields s P) (hP : ∀ a t, P a t → P' a t) : e.Yields s P' :=
  fun a t hrun => hP a t (he a t hrun)

theorem Settles.yields (he : e.Settles s P) : e.Yields s P := by
  intro a t hrun
  rcases he with ⟨x, hx⟩ | ⟨b, u, hrun', hb⟩
  · cases hx.symm.trans hrun
  · obtain ⟨hab, rfl⟩ := Prod.mk.inj (hrun'.symm.trans hrun)
    exact Except.ok.inj hab ▸ hb

theorem yields_pure {a : α} (h : P a s) : (pure a : Edit α).Yields s P :=
  (settles_pure h).yields

theorem yields_get {f : Session → Edit α} (h : (f s).Yields s P) : (get >>= f).Yields s P := h

/-- An answer that was passed on in some other form. -/
theorem Yields.of_map {g : α → β} (hg : ∀ {a b}, g a = g b → a = b) (he : e.Yields s P) {a : α}
    (hrun : (e >>= fun a => pure (g a)).run s = (.ok (g a), t)) : P a t := by
  have hall : (e >>= fun a => pure (g a)).Yields s fun b t => ∃ a, g a = b ∧ P a t :=
    he.bind fun a _ ha => yields_pure ⟨a, rfl, ha⟩
  obtain ⟨_, heq, ha⟩ := hall _ _ hrun
  exact hg heq ▸ ha

/-! ## Parts that check -/

/-- A session that is aborted keeps the breach that aborted it. -/
theorem breached_of_aborted (h : s.aborted) (x : EditError) : s.breached x = s := by
  obtain ⟨b, hb⟩ := Option.isSome_iff_exists.mp h
  simp only [Session.breached, hb, Option.some_or]
  rw [← hb]

theorem aborted_breached (s : Session) (x : EditError) : (s.breached x).aborted := by
  rw [Session.aborted, Session.breached, Option.isSome_or]
  exact Bool.or_true _

theorem ensureLive_stops (h : s.aborted) : ensureLive.Stops .aborted s := by
  rw [Stops, breached_of_aborted h]
  show (if s.aborted then _ else _ : Edit Unit).run s = _
  rw [if_pos h]
  rfl

theorem ensureLive_settles : ensureLive.Settles s fun _ t => t = s ∧ s.breach = none := by
  cases h : s.breach with
  | some b => exact .inl ⟨.aborted, ensureLive_stops (by rw [Session.aborted, h]; rfl)⟩
  | none =>
    refine settles_get ?_
    rw [Session.aborted, h]
    exact settles_pure ⟨rfl, rfl⟩

theorem ensureNoBracket_settles : ensureNoBracket.Settles s fun _ t => t = s ∧ s.Editable := by
  refine ensureLive_settles.bind_guard fun _ hlive => ?_
  refine settles_get ?_
  cases hb : s.bracket with
  | some b => exact settles_violate _
  | none => exact settles_pure ⟨rfl, hlive, hb⟩

theorem ensureLive_answers (hs : s.breach = none) : ensureLive.Answers s fun _ t => t = s := by
  unfold ensureLive
  refine answers_get ?_
  simp only [Session.aborted, hs, Option.isSome_none, Bool.false_eq_true, if_false]
  exact answers_pure rfl

theorem ensureNoBracket_answers (hs : s.Editable) : ensureNoBracket.Answers s fun _ t => t = s := by
  unfold ensureNoBracket
  refine (ensureLive_answers hs.1).bind fun _ u hu => ?_
  subst hu
  refine answers_get ?_
  rw [hs.2]
  exact answers_pure rfl

theorem instructionAt_settles (p : Nat) :
    (instructionAt p).Settles s fun i t => t = s ∧ s.instruction? p = some i := by
  refine settles_get ?_
  cases s.instruction? p with
  | some i => exact settles_pure ⟨rfl, rfl⟩
  | none => exact settles_violate _

/-- Refuses operations that are too long for an instruction. -/
def checkLength (op : Operation) : Edit Unit :=
  if op.wordCount > maxWords then violate (.operationTooLong op.wordCount) else pure ()

theorem checkLength_settles (op : Operation) :
    (checkLength op).Settles s fun _ t => t = s ∧ op.wordCount ≤ maxWords := by
  unfold checkLength
  split
  · exact settles_violate _
  · exact settles_pure ⟨rfl, Nat.le_of_not_gt ‹_›⟩

theorem checkLength_answers {op : Operation} (h : op.wordCount ≤ maxWords) :
    (checkLength op).Answers s fun _ t => t = s := by
  rw [checkLength, if_neg (Nat.not_lt.mpr h)]
  exact answers_pure rfl

/-! ## Parts that change something -/

/-- Raises the bound above the id that an operation defines, unless it is above it already. -/
def coverResult (op : Operation) : Edit Unit :=
  match op.resultId? with
  | some i => get >>= fun s => if s.bound ≤ i.value then raiseBound i else pure ()
  | none => pure ()

/-- Whether `t` is `s`, but for a raised bound. -/
def Raised (s t : Session) : Prop :=
  t = s ∨ ∃ i b : Id, i.succ? = some b ∧ s.breach = none ∧ t = s.raised b

theorem raiseBound_settles (i : Id) (hs : s.breach = none) :
    (raiseBound i).Settles s fun _ t => Raised s t ∧ i.value < t.bound ∧
      t.fresh = match i.succ? with
        | some b => max s.fresh b
        | none => s.fresh := by
  unfold raiseBound
  cases h : i.succ? with
  | none => exact settles_violate _
  | some b => exact .inr ⟨_, _, rfl, .inr ⟨i, b, h, hs, rfl⟩, Id.lt_max_succ h _, rfl⟩

theorem coverResult_settles (op : Operation) (hs : s.breach = none) :
    (coverResult op).Settles s fun _ t =>
      Raised s t ∧ (∀ i, op.resultId? = some i → i.value < t.bound) ∧
        t.fresh = op.freshAfter s.fresh := by
  unfold coverResult Operation.freshAfter
  cases h : op.resultId? with
  | none => exact settles_pure ⟨.inl rfl, nofun, rfl⟩
  | some i =>
    simp only [Option.some.injEq, forall_eq', Option.bind_some]
    refine settles_get ?_
    split
    · exact raiseBound_settles i hs
    · rename_i hle
      have hlt := UInt32.not_le.mp hle
      refine settles_pure ⟨.inl rfl, hlt, ?_⟩
      cases hb : i.succ? with
      | none => rfl
      | some b => exact (Id.max_succ_eq hb hlt).symm

/-- An id below the bound leaves the bound alone. -/
theorem coverResult_answers {op : Operation} (h : ∀ i, op.resultId? = some i → i.value < s.bound) :
    (coverResult op).Answers s fun _ t => t = s := by
  unfold coverResult
  cases hid : op.resultId? with
  | none => exact answers_pure rfl
  | some i =>
    refine answers_get ?_
    rw [if_neg (UInt32.not_le.mpr (h i hid))]
    exact answers_pure rfl

theorem insertInto_eq (sec : Section) (p : Nat) (op : Operation) :
    insertInto sec p op = (do
      ensureNoBracket
      checkLength op
      coverResult op
      exchange sec p 0 op
      register p
      return op.resultId?) := by
  unfold insertInto checkLength coverResult
  cases op.resultId? with
  | none => simp only [ite_unit_bind, pure_bind]
  | some i => simp only [ite_unit_bind, bind_assoc]

theorem exchange_answers (sec : Section) {p old : Nat} (op : Operation)
    (h : p + old ≤ s.words.length) :
    (exchange sec p old op).Answers s fun _ t => t = s.exchanged sec p old op := by
  refine ⟨(), _, ?_, rfl⟩
  show (if s.words.length < p + old then _ else _ : Edit Unit).run s = _
  rw [if_neg (by omega)]
  rfl

theorem register_answers {p : Nat} {i : Instruction} (h : s.instruction? p = some i) :
    (register p).Answers s fun _ t => t = s.registered i := by
  unfold register
  refine answers_get ?_
  rw [h]
  exact ⟨(), _, rfl, rfl⟩

/-- What was put into the words can be read back, wherever that was. -/
theorem instruction?_exchanged (sec : Section) {p : Nat} (old : Nat) {op : Operation}
    (hp : headerWords ≤ p) (hlen : p ≤ s.words.length) (hl : op.wordCount ≤ maxWords) :
    (s.exchanged sec p old op).instruction? p = some (.ofChunk p op.words) := by
  have htake : (s.words.take p).length = p := List.length_take_of_le hlen
  have hat := at?_append (s.words.drop (p + old)) (htake.symm ▸ hp) (op.isChunk_words hl)
  rw [htake] at hat
  rw [Session.instruction?, Session.exchanged, replaceWords, List.append_assoc]
  exact hat

end Edit

end SpirvModule
