import SpirvModule.Proofs.Locked
import SpirvModule.Proofs.Persistence
import SpirvModule.Proofs.Bound

/-!
# The allocator and the header

Ids are allocated from the bound upwards. Whoever takes an id raises the bound above it, and
nothing lowers it again, so that along a run the ids that were allocated ascend, whatever ids
clients name themselves and whichever commands fail on the way. The header tells the bound at
all times, and nothing else in it changes.

* `Command.allotted`, `Session.allotted`: the ids that a command allocates, or a run.
* `Session.Allocates`: that ids were allocated in ascending order between two bounds.

Results:
* `declareType_draws`, `importExtInst_draws`, …: what an edit allocates.
* `perform_allocates`, `performAll_allocates`: so it is for a command, and for a run.
* `Reached.header_follows_allocator`: the header, and the ids of a run.
-/
namespace SpirvModule

open Session

/-! ## Ids that commands allocate -/

namespace Command

/-- Whether a command answers with an id that it allocates if it does not find it. -/
def allocating : Command → Bool
  | newId | declareType _ | declareStruct _ | importExtInst _ => true
  | addConstantImmediate _ | addSpecConstantImmediate _ _ => true
  | _ => false

/-- The key of the type that a command declares on the way, if need be. -/
def constantType? : Command → Option TypeKey
  | addConstantImmediate v | addSpecConstantImmediate v _ => some (.scalar v.type.scalar)
  | _ => none

/-- The id of the type that a command has declared on the way from `s` to `t`. -/
def typeAllotted? (s t : Session) (c : Command) : Option Id :=
  c.constantType?.bind fun k => if (s.getType? k).isSome then none else t.getType? k

/-- The ids that a command allocates when it is answered. Ids that it finds are not among them. -/
def allotted (s : Session) (c : Command) : List Id :=
  match s.perform c with
  | (.ok (.id i), t) =>
    if c.allocating && !c.needless s then (c.typeAllotted? s t).toList ++ [i] else []
  | _ => []

end Command

namespace Session

/-- The ids that some commands allocate, in the order in which they do. -/
def allotted : Session → List Command → List Id
  | _, [] => []
  | s, c :: cs => c.allotted s ++ (s.perform c).2.allotted cs

/-- Whether `ids` may have been allocated in this order on the way from `s` to `t`. -/
structure Allocates (s : Session) (ids : List Id) (t : Session) : Prop where
  rises : s.bound ≤ t.bound
  ascending : ids.Pairwise fun i j => i.value < j.value
  above : ∀ i ∈ ids, s.bound ≤ i.value
  below : ∀ i ∈ ids, i.value < t.bound

variable {s t u : Session} {m : Outline} {ids ids' : List Id}

theorem Allocates.of_rises (h : s.bound ≤ t.bound) : s.Allocates [] t :=
  ⟨h, .nil, nofun, nofun⟩

theorem Allocates.trans (h : s.Allocates ids u) (h' : u.Allocates ids' t) :
    s.Allocates (ids ++ ids') t := by
  refine ⟨UInt32.le_trans h.rises h'.rises, ?_, ?_, ?_⟩
  · refine List.pairwise_append.mpr ⟨h.ascending, h'.ascending, ?_⟩
    intro i hi j hj
    exact UInt32.lt_of_lt_of_le (h.below i hi) (h'.above j hj)
  · intro i hi
    rcases List.mem_append.mp hi with hi | hi
    · exact h.above i hi
    · exact UInt32.le_trans h.rises (h'.above i hi)
  · intro i hi
    rcases List.mem_append.mp hi with hi | hi
    · exact UInt32.lt_of_lt_of_le (h.below i hi) h'.rises
    · exact h'.below i hi

/-- Ids that ascend are distinct. -/
theorem Allocates.nodup (h : s.Allocates ids t) : ids.Nodup := by
  refine h.ascending.imp ?_
  intro i j hlt heq
  rw [heq] at hlt
  exact UInt32.lt_irrefl _ hlt

/-! ## Moves -/

/-- No move lowers the bound. -/
theorem Sound.bound_le_moves (h : s.Sound m) (hst : Moves s t) : s.bound ≤ t.bound := by
  induction hst with
  | refl => exact UInt32.le_refl _
  | tail hmoves hmove ih =>
    obtain ⟨m', h'⟩ := h.moves hmoves
    rcases h'.raised_or_header hmove with ⟨b, rfl⟩ | ⟨hbound, -⟩
    · exact UInt32.le_trans ih (bound_le_raised _ b)
    · rw [hbound]
      exact ih

/-- The header goes on telling the bound. -/
theorem Sound.boundWord_moves (h : s.Sound m) (hst : Moves s t)
    (hword : s.words[boundWord]? = some s.bound) : t.words[boundWord]? = some t.bound := by
  induction hst with
  | refl => exact hword
  | tail hmoves hmove ih =>
    obtain ⟨m', h'⟩ := h.moves hmoves
    rcases h'.raised_or_header hmove with ⟨b, rfl⟩ | ⟨hbound, hheader⟩
    · exact List.getElem?_set_self (Nat.lt_of_lt_of_le (by decide) h'.shows.header)
    · rw [hheader boundWord (by decide), hbound, ih]

end Session

/-- The header of every session tells its bound. -/
theorem Reached.boundWord_eq {P : Session → Prop} {s : Session} (h : Reached P s) :
    s.words[boundWord]? = some s.bound := by
  induction h with
  | create policy v generator _ => rfl
  | ofWords hs _ =>
    obtain ⟨m, hm, -⟩ := ofWords_sound hs
    obtain ⟨v, fresh, -, -, hs⟩ := ofWords_ok hs
    have hlen := hm.shows.header
    rw [hs, List.length_set] at hlen
    rw [hs]
    exact List.getElem?_set_self (Nat.lt_of_lt_of_le (by decide) hlen)
  | perform hs c hc _ ih =>
    obtain ⟨m, hm⟩ := hs.sound
    exact hm.boundWord_moves (perform_leads hm hc).1 ih

/-! ## Edits -/

namespace Edit

variable {α β : Type} {e : Edit α} {f : α → Edit β} {s t : Session} {m : Outline}
  {P P' : α → List Id → Session → Prop} {Q : β → List Id → Session → Prop}

/-- Whether `e` only appends operations, and allocates ids of which `P` is true if it answers. -/
def Draws (e : Edit α) (s : Session) (P : α → List Id → Session → Prop) : Prop :=
  ∃ r ids l t, e.run s = (r, t) ∧ Adds s l t ∧ s.Allocates ids t ∧ ∀ a, r = .ok a → P a ids t

theorem draws_get {f : Session → Edit α} (h : (f s).Draws s P) : (get >>= f).Draws s P := h

theorem draws_pure {a : α} (h : P a [] s) : (pure a : Edit α).Draws s P :=
  ⟨.ok a, [], [], s, rfl, .refl, .of_rises (UInt32.le_refl _), fun b hb => by cases hb; exact h⟩

/-- Nothing is allocated for an edit that is refused. -/
theorem draws_error {x : Failure} (hrun : e.run s = (.error x, t)) (ht : Refused s t) :
    e.Draws s P := by
  refine ⟨.error x, [], [], t, hrun, .of_refused ht, .of_rises ?_, nofun⟩
  rcases ht with rfl | ⟨_, rfl⟩ <;> exact UInt32.le_refl _

theorem draws_violate (x : EditError) : (violate x : Edit α).Draws s P :=
  draws_error rfl (.inr ⟨x, rfl⟩)

/-- An edit that only appends what it is given allocates nothing. -/
theorem Appends.draws {R : α → List (Section × Operation) → Prop} (h : s.Sound m)
    (he : e.Appends s R) : e.Draws s fun a ids _ => ∃ l, R a l ∧ ids = [] := by
  obtain ⟨r, l, t, hrun, hadds, ha⟩ := he
  have hrise := h.bound_le_moves (hadds.moves h)
  exact ⟨r, [], l, t, hrun, hadds, .of_rises hrise, fun a hr => ⟨l, ha a hr, rfl⟩⟩

theorem Draws.mono (he : e.Draws s P) (hP : ∀ a ids t, P a ids t → P' a ids t) :
    e.Draws s P' := by
  obtain ⟨r, ids, l, t, hrun, hadds, hids, ha⟩ := he
  exact ⟨r, ids, l, t, hrun, hadds, hids, fun a hr => hP a ids t (ha a hr)⟩

/-- What was declared before an edit that only appends is declared afterwards. -/
theorem Draws.frame {k : TypeKey} {i : Id} (he : e.Draws s P) (hk : s.getType? k = some i) :
    e.Draws s fun a ids t => P a ids t ∧ t.getType? k = some i := by
  obtain ⟨r, ids, l, t, hrun, hadds, hids, ha⟩ := he
  exact ⟨r, ids, l, t, hrun, hadds, hids, fun a hr => ⟨ha a hr, getType?_adds hk hadds⟩⟩

/-- The ids of the second part come behind those of the first. -/
theorem Draws.bind (h : s.Sound m) (he : e.Draws s P)
    (hf : ∀ a ids u m', u.Sound m' → P a ids u → (f a).Draws u fun b ids' => Q b (ids ++ ids')) :
    (e >>= f).Draws s Q := by
  obtain ⟨r, ids, l, u, hrun, hadds, hids, ha⟩ := he
  cases r with
  | error x => exact ⟨.error x, ids, l, u, by rw [run_bind, hrun], hadds, hids, nofun⟩
  | ok a =>
    obtain ⟨m', h', -⟩ := hadds.sound h
    obtain ⟨r, ids', k, t, hrun', hadds', hids', hb⟩ := hf a ids u m' h' (ha a rfl)
    refine ⟨r, ids ++ ids', l ++ k, t, ?_, hadds.trans hadds', hids.trans hids', hb⟩
    rw [run_bind, hrun, ← hrun']

/-- What comes behind an edit that allocates nothing allocates the same as without it. -/
theorem Appends.bind_draws {R : α → List (Section × Operation) → Prop} (h : s.Sound m)
    (he : e.Appends s R)
    (hf : ∀ a l u m', u.Sound m' → R a l → (f a).Draws u Q) : (e >>= f).Draws s Q := by
  refine (he.draws h).bind h fun a ids u m' h' hids => ?_
  obtain ⟨l, hl, rfl⟩ := hids
  exact hf a l u m' h' hl

theorem Ends.bind_draws {A : α → Prop} (he : e.Ends s fun a t => t = s ∧ A a)
    (hf : ∀ a, A a → (f a).Draws s Q) : (e >>= f).Draws s Q := by
  rcases he with ⟨x, t, hrun, ht⟩ | ⟨a, t, hrun, rfl, ha⟩
  · exact draws_error (by rw [run_bind, hrun]) ht
  · obtain ⟨r, ids, l, u, hrun', hadds, hids, hb⟩ := hf a ha
    exact ⟨r, ids, l, u, by rw [run_bind, hrun, ← hrun'], hadds, hids, hb⟩

/-- An answer may be passed on in some other form. -/
theorem Draws.map (he : e.Draws s P) {g : α → β} (hQ : ∀ a ids t, P a ids t → Q (g a) ids t) :
    (e >>= fun a => pure (g a)).Draws s Q := by
  obtain ⟨r, ids, l, t, hrun, hadds, hids, ha⟩ := he
  refine ⟨r.map g, ids, l, t, run_map hrun g, hadds, hids, fun b hb => ?_⟩
  cases r with
  | error x => cases hb
  | ok a =>
    cases hb
    exact hQ a ids t (ha a rfl)

/-- An id that is handed out is the bound, which is raised above it. -/
theorem newId_draws : newId.Draws s fun i ids _ => ids = [i] := by
  rcases newId_settles (s := s) with ⟨x, hx⟩ | ⟨i, t, hrun, -, rfl, ht, hlt⟩
  · exact draws_error hx (.inr ⟨x, rfl⟩)
  · have hrise : s.bound ≤ t.bound := UInt32.le_of_lt hlt
    refine ⟨.ok s.fresh, [s.fresh], [], t, hrun, .of_raised ht, ⟨hrise, ?_, ?_, ?_⟩, ?_⟩
    · exact List.pairwise_singleton ..
    · simp [Session.bound]
    · simpa using hlt
    · intro j hj
      rw [Except.ok.inj hj]

/-- A type is declared with the bound as its id, unless it is found. -/
theorem declareType_draws (h : s.Sound m) (k : TypeKey) :
    (declareType k).Draws s fun i ids t =>
      (ids = if (s.getType? k).isSome then [] else [i]) ∧ t.getType? k = some i := by
  refine draws_get ?_
  cases hk : s.getType? k with
  | some i => exact draws_pure ⟨rfl, hk⟩
  | none =>
    refine ensureNoBracket_settles.ends.bind_draws fun _ _ => draws_get ?_
    dsimp only
    split
    · exact draws_violate _
    · split
      · exact draws_violate _
      · rename_i op hop
        refine newId_draws.bind h fun i ids u m₁ h₁ hi => ?_
        subst hi
        refine (append_appends h₁ (home_declaration hop i)).bind_draws h₁
          fun a l v m₂ _ _ => draws_get ?_
        split
        · exact draws_error rfl (.inl rfl)
        · rename_i hki
          exact draws_pure ⟨rfl, not_not.mp hki⟩

theorem declareStruct_draws (h : s.Sound m) (members : List Id) :
    (declareStruct members).Draws s fun i ids _ =>
      ids = if (Command.declareStruct members).needless s then [] else [i] := by
  refine draws_get ?_
  split
  · rename_i i hi
    split at hi
    · rename_i hp
      exact draws_pure (by simp [Command.needless, hp, hi])
    · cases hi
  · rename_i hi
    have hn : (Command.declareStruct members).needless s = false := by
      split at hi
      · simp [Command.needless, hi]
      · rename_i hp
        simp [Command.needless, hp]
    refine ensureNoBracket_settles.ends.bind_draws fun _ _ => draws_get ?_
    split
    · exact draws_violate _
    · refine newId_draws.bind h fun i ids u m₁ h₁ hi => ?_
      subst hi
      refine (append_appends h₁ (home_typeStruct i members)).bind_draws h₁ fun a l v m₂ _ _ => ?_
      exact draws_pure (by rw [hn]; rfl)

theorem importExtInst_draws (h : s.Sound m) (name : String) :
    (importExtInst name).Draws s fun i ids _ =>
      ids = if (Command.importExtInst name).needless s then [] else [i] := by
  refine draws_get ?_
  cases hi : s.index.imported? name with
  | some i => exact draws_pure (by simp [Command.needless, hi])
  | none =>
    refine ensureNoBracket_settles.ends.bind_draws fun _ _ => ?_
    refine newId_draws.bind h fun i ids u m₁ h₁ hi' => ?_
    subst hi'
    have himport := appendDefining_appends h₁ (home_extInstImport i name)
    refine (himport.draws h₁).mono fun j ids t hj => ?_
    obtain ⟨l, ⟨hij, -⟩, rfl⟩ := hj
    have hn : (Command.importExtInst name).needless s = false := by simp [Command.needless, hi]
    rw [resultId?_extInstImport] at hij
    rw [hn, ← Option.some.inj hij]
    rfl

/-- A constant gets an id above that of its type. -/
theorem typed_draws (h : s.Sound m) {k : TypeKey} {g : Id → Id → Edit Id}
    (hg : ∀ type i u m', u.Sound m' → (g type i).Draws u fun j ids _ => j = i ∧ ids = []) :
    (declareType k >>= fun type => newId >>= g type).Draws s fun i ids t =>
      ids = (if (s.getType? k).isSome then none else t.getType? k).toList ++ [i] := by
  refine (declareType_draws h k).bind h fun type ids u m₁ h₁ hu => ?_
  obtain ⟨hids, htype⟩ := hu
  have hrest : (newId >>= g type).Draws u fun i ids' _ => ids' = [i] := by
    refine newId_draws.bind h₁ fun i ids' v m₂ h₂ hi => ?_
    subst hi
    refine (hg type i v m₂ h₂).mono fun j ids' t hj => ?_
    obtain ⟨rfl, rfl⟩ := hj
    rfl
  refine (hrest.frame htype).mono fun i ids' t ⟨hids', ht⟩ => ?_
  rw [hids, hids', ht]
  split <;> rfl

theorem addConstantImmediate_draws (h : s.Sound m) (v : Immediate) :
    (addConstantImmediate v).Draws s fun i ids t =>
      ids = ((Command.addConstantImmediate v).typeAllotted? s t).toList ++ [i] := by
  refine typed_draws h fun type i u m' h' => ?_
  refine ((addConstant_appends h' _).draws h').mono fun j ids t hj => ?_
  obtain ⟨l, ⟨hij, -⟩, rfl⟩ := hj
  rw [resultId?_constant] at hij
  exact ⟨(Option.some.inj hij).symm, rfl⟩

theorem addSpecConstantImmediate_draws (h : s.Sound m) (v : Immediate) (n : Word) :
    (addSpecConstantImmediate v n).Draws s fun i ids t =>
      ids = ((Command.addSpecConstantImmediate v n).typeAllotted? s t).toList ++ [i] := by
  refine typed_draws h fun type i u m' h' => ?_
  refine (addConstant_appends h' _).bind_draws h' fun j l v m'' h'' hj => ?_
  refine (addDecoration_appends h'' _).bind_draws h'' fun _ _ w _ _ _ => ?_
  rw [resultId?_specConstant] at hj
  exact draws_pure ⟨(Option.some.inj hj.1).symm, rfl⟩

end Edit

/-! ## Commands -/

/-- A command that answers with a new id allocates it, and before it that of the type it needs. -/
theorem edit_draws {s : Session} {m : Outline} (h : s.Sound m) {c : Command} (hc : c.allocating) :
    c.edit.Draws s fun a ids t => ∃ i, a = .id i ∧
      ids = if c.needless s then [] else (c.typeAllotted? s t).toList ++ [i] := by
  cases c with
  | newId => exact Edit.newId_draws.map fun i ids t hids => ⟨i, rfl, hids⟩
  | declareType k =>
    exact (Edit.declareType_draws h k).map fun i ids t hids => ⟨i, rfl, hids.1⟩
  | declareStruct members =>
    exact (Edit.declareStruct_draws h members).map fun i ids t hids => ⟨i, rfl, hids⟩
  | importExtInst name =>
    exact (Edit.importExtInst_draws h name).map fun i ids t hids => ⟨i, rfl, hids⟩
  | addConstantImmediate v =>
    exact (Edit.addConstantImmediate_draws h v).map fun i ids t hids => ⟨i, rfl, hids⟩
  | addSpecConstantImmediate v n =>
    exact (Edit.addSpecConstantImmediate_draws h v n).map fun i ids t hids => ⟨i, rfl, hids⟩
  | _ => cases hc

/-- A command allocates ids from the bound upwards, whatever it answers. -/
theorem perform_allocates {s : Session} {m : Outline} (h : s.Sound m) {c : Command}
    (hc : c.Proper s) : s.Allocates (c.allotted s) (s.perform c).2 := by
  have hrise : s.bound ≤ (s.perform c).2.bound := h.bound_le_moves (perform_leads h hc).1
  by_cases hall : c.allocating
  · obtain ⟨r, ids, l, t, hrun, -, hids, ha⟩ := edit_draws h hall
    have hperform : s.perform c = (r, t) := hrun
    rw [Command.allotted, hperform]
    rw [hperform] at hrise
    cases r with
    | error x => exact .of_rises hrise
    | ok a =>
      obtain ⟨i, rfl, hi⟩ := ha a rfl
      rw [hi] at hids
      cases hn : c.needless s with
      | true => simpa [hall, hn] using Allocates.of_rises hrise
      | false => simpa [hall, hn] using hids
  · have hnone : c.allotted s = [] := by
      rw [Command.allotted]
      split
      · simp [hall]
      · rfl
    rw [hnone]
    exact .of_rises hrise

/-! ## Runs -/

namespace Reached

variable {P : Session → Prop} {s : Session} {cs : List Command}

/-- What the commands of a run allocate is allocated in their order. -/
theorem performAll_allocates (hs : Reached P s) (hcs : s.Takes P cs) :
    s.Allocates (s.allotted cs) (s.performAll cs) := by
  induction cs generalizing s with
  | nil => exact .of_rises (UInt32.le_refl _)
  | cons c cs ih =>
    obtain ⟨hc, hp, hrest⟩ := hcs
    obtain ⟨m, hm⟩ := hs.sound
    exact (perform_allocates hm hc).trans (ih (hs.perform c hc hp) hrest)

/-- Whatever commands are given to a session, failing ones included, its header tells a bound that
is at least 1 and has not fallen, and keeps its other words. The ids that were allocated on the way
ascend from the bound before to the bound afterwards, so that no id is allocated twice. -/
theorem header_follows_allocator (hs : Reachable s) (hcs : s.Takes (fun _ => True) cs) :
    (s.performAll cs).words[boundWord]? = some (s.performAll cs).bound ∧
      1 ≤ (s.performAll cs).bound ∧
      (∀ k < headerWords, k ≠ boundWord → (s.performAll cs).words[k]? = s.words[k]?) ∧
      s.Allocates (s.allotted cs) (s.performAll cs) ∧ (s.allotted cs).Nodup := by
  obtain ⟨m, hm⟩ := hs.sound
  have hallocates := hs.performAll_allocates hcs
  refine ⟨(hs.performAll hcs).boundWord_eq, ?_, ?_, hallocates, hallocates.nodup⟩
  · have hne := (s.performAll cs).fresh.value_ne_zero
    rw [UInt32.le_iff_toNat_le, UInt32.toNat_one, Nat.one_le_iff_ne_zero]
    exact fun h0 => hne (UInt32.toNat_inj.mp h0)
  · intro k hk hb
    exact hm.header_moves (hs.moves hcs) hk hb

/-- A constant is added, an instruction with an id of its own is put in, and an import is asked for
twice. Then a constant is refused inside a bracket, after an id was handed out for it. -/
def partlyRefused : List Command :=
  [.addConstantImmediate (.u32 7), .insert 5 ⟨.opTypeSampler, [9]⟩, .importExtInst "GLSL.std.450",
    .importExtInst "GLSL.std.450", .beginModify 5, .addConstantImmediate (.u32 8)]

theorem header_follows_allocator_partlyRefused :
    ((Session.create .never ⟨1, 3⟩ 0).performAll partlyRefused).words[boundWord]? = some 12 ∧
      ((Session.create .never ⟨1, 3⟩ 0).performAll partlyRefused).words[2]? = some 0 ∧
      ((Session.create .never ⟨1, 3⟩ 0).allotted partlyRefused).map (·.value) = [1, 2, 10] ∧
      ((Session.create .never ⟨1, 3⟩ 0).allotted partlyRefused).Nodup := by
  obtain ⟨hword, -, hheader, -, hnodup⟩ :=
    header_follows_allocator (.create .never ⟨1, 3⟩ 0 trivial)
      (show Takes (fun _ => True) _ partlyRefused by decide +kernel)
  refine ⟨hword.trans ?_, (hheader 2 (by decide) (by decide)).trans rfl, ?_, hnodup⟩
  · decide +kernel
  · decide +kernel

end Reached

end SpirvModule
