import SpirvModule.Proofs.LoadedTypes
import SpirvModule.Proofs.Reopening
import Mathlib.Order.Bounds.Basic

/-!
# Opening the module in a buffer

A session edits the buffer that its module stands in, and to open a module is to write there
already: the bound in the header is raised to where it has to be. Nothing else is written, and
nothing at all before it is clear that the module opens. The bound that was written is the one that
the next opening finds right, so that it writes the same again.

* `Session.openBuffer`: opening, with the reads and the write of the buffer in order.
* `DefinesLastId`: that no id is left above those that a module defines.
* `BoundReaches`: the numbers that the bound of a module has to reach.

Results:
* `Session.openBuffer_run`: what opening does to the buffer is what `Session.ofWords` says.
* `Session.isGreatest_bound`: the bound becomes the largest of the numbers it has to reach.
* `Session.ofWords_again`: the words of a session that opened a module open as that session.
* `Session.opening_settles`: how opening ends, and what the buffer is then.
-/
namespace SpirvModule

/-- Whether the largest id is defined in the words of a module. -/
def DefinesLastId (ws : List Word) : Prop :=
  ∃ id ∈ definedIds (moduleInstructions ws), id.value = 0xFFFFFFFF

instance (ws : List Word) : Decidable (DefinesLastId ws) :=
  inferInstanceAs (Decidable (∃ id ∈ _, _))

/-- The numbers that the bound of a module has to reach: one, the bound in its header, and each
number right above an id that it defines. -/
inductive BoundReaches (ws : List Word) : Nat → Prop
  | least : BoundReaches ws 1
  | written {w : Word} (h : ws[Session.boundWord]? = some w) : BoundReaches ws w.toNat
  | above {id : Id} (hid : id ∈ definedIds (moduleInstructions ws)) :
      BoundReaches ws (id.value.toNat + 1)

namespace Session

variable {policy : StructPolicy} {ws : List Word} {s : Session} {v : ModuleView}

/-- Opens the module in a buffer. The bound is written when nothing can fail any more. -/
def openBuffer (policy : StructPolicy) : ExceptT EditError (StateM (List Word)) Session := do
  let ws ← get
  match ModuleView.parse ws with
  | .error e => throw (.load e)
  | .ok v =>
    let index := Index.ofInstructions policy (found ws v.layout)
    match firstFresh? v.bound index.highestId? with
    | none => throw .idsExhausted
    | some fresh =>
      modify (·.set boundWord fresh.value)
      let words ← get
      return {
        words := words
        policy := policy
        version := v.version
        fresh := fresh
        layout := v.layout
        index := index
        storageBufferClass := classOf v.version (namesExtension storageBufferExtension
          (instructionsIn words (v.layout.span .extensions)))
        bracket := none
        breach := none }

/-! ## The bound in the header -/

/-- A module reads the same with another bound. -/
theorem parse_set_bound (hv : ModuleView.parse ws = .ok v) (b : Word) :
    ModuleView.parse (ws.set boundWord b) = .ok { v with bound := b } := by
  obtain ⟨ver, reserved, l, final, hws, hver, hwalk, hlayout⟩ := parse_eq_ok.mp hv
  refine parse_eq_ok.mpr ⟨ver, reserved, l, final, by rw [hws]; rfl, hver, ?_, ?_⟩
  · rw [List.length_set]
    exact hwalk
  · rw [List.length_set]
    exact hlayout

/-- The bound is in no section. -/
theorem instructionsIn_set_bound (hv : ModuleView.parse ws = .ok v) (b : Word) (sec : Section) :
    instructionsIn (ws.set boundWord b) (v.layout.span sec) =
      instructionsIn ws (v.layout.span sec) := by
  obtain ⟨-, m, -, hread⟩ := parse_ok hv
  let s (us : List Word) : Session := { create .never ⟨1, 0⟩ 0 with words := us, layout := v.layout }
  have hset := (hread (s (ws.set boundWord b)) (List.drop_set_of_lt (by decide))
    List.length_set rfl).instructions_eq sec
  exact hset.trans ((hread (s ws) rfl rfl rfl).instructions_eq sec).symm

theorem found_set_bound (hv : ModuleView.parse ws = .ok v) (b : Word) :
    found (ws.set boundWord b) v.layout = found ws v.layout := by
  unfold found
  simp only [instructionsIn_set_bound hv]

/-- The least id that may be handed out is one, or the bound of the module. -/
theorem toNat_least (b : Word) : ((Id.ofWord? b).getD .one).value.toNat = max 1 b.toNat := by
  unfold Id.ofWord?
  split
  · rename_i hb
    have hpos : b.toNat ≠ 0 := fun h => hb (UInt32.toNat_inj.mp h)
    simp only [Option.getD_some]
    omega
  · rename_i hb
    rw [not_not.mp hb]
    rfl

/-- The id to hand out first is the least one that may be, or right above the highest one. -/
theorem firstFresh?_cases {b : Word} {highest : Option Id} {fresh : Id}
    (h : firstFresh? b highest = some fresh) :
    fresh.value.toNat = max 1 b.toNat ∨
      ∃ id ∈ highest, max 1 b.toNat ≤ id.value.toNat ∧
        fresh.value.toNat = id.value.toNat + 1 := by
  rw [← toNat_least]
  unfold firstFresh? at h
  cases highest with
  | none =>
    cases h
    exact .inl rfl
  | some id =>
    dsimp only at h
    split at h
    · cases h
      exact .inl rfl
    · rename_i hle
      exact .inr ⟨id, rfl, UInt32.le_iff_toNat_le.mp (UInt32.not_lt.mp hle), Id.toNat_succ h⟩

/-- A session that opens a module has the instructions that stand in its words. -/
theorem listing_ofWords (h : ofWords policy ws = .ok s) : s.listing = moduleInstructions ws := by
  obtain ⟨v, fresh, hv, -, rfl⟩ := ofWords_ok h
  rw [← found_eq hv, ← found_set_bound hv fresh.value]
  rfl

/-- The bound becomes the largest of the numbers that it has to reach. -/
theorem isGreatest_bound (h : ofWords policy ws = .ok s) :
    IsGreatest {n | BoundReaches ws n} s.bound.toNat := by
  have hbelow := idsBelow_ofWords h
  rw [IdsBelow, listing_ofWords h] at hbelow
  obtain ⟨v, fresh, hv, hfresh, hs⟩ := ofWords_ok h
  have hbound : s.bound = fresh.value := by rw [hs]; rfl
  rw [found_eq hv] at hfresh
  rw [hbound] at hbelow ⊢
  have hwritten := bound_of_parse hv
  have hcases := firstFresh?_cases hfresh
  constructor
  · show BoundReaches ws fresh.value.toNat
    rcases hcases with heq | ⟨id, hid, -, heq⟩
    · rw [heq]
      rcases Nat.le_total 1 v.bound.toNat with hle | hle
      · rw [Nat.max_eq_right hle]
        exact .written hwritten
      · rw [Nat.max_eq_left hle]
        exact .least
    · have hdef := (Index.highestId?_eq_some hid).1
      rw [Index.mem_definitions_ofInstructions] at hdef
      exact heq ▸ .above hdef
  · have hmax : max 1 v.bound.toNat ≤ fresh.value.toNat := by
      rcases hcases with heq | ⟨id, -, hle, heq⟩ <;> omega
    intro n hn
    cases hn with
    | least => omega
    | written hw =>
      rw [hwritten] at hw
      cases hw
      omega
    | above hid => exact UInt32.lt_iff_toNat_lt.mp (hbelow _ hid)

/-! ## Opening again -/

/-- The words of a session that opened a module open again, and stay. The sessions differ in what
the policy says of structs. -/
theorem ofWords_again (h : ofWords policy ws = .ok s) (again : StructPolicy) :
    ofWords again s.words = .ok { s with
      policy := again
      index := Index.ofInstructions again s.listing } := by
  have hfresh := (idsBelow_ofWords h).firstFresh?_bound again
  rw [listing_ofWords h] at hfresh ⊢
  obtain ⟨v, fresh, hv, -, rfl⟩ := ofWords_ok h
  have hfound := found_set_bound hv fresh.value
  rw [found_eq hv, found] at hfound
  dsimp only [bound] at hfresh
  unfold ofWords
  rw [parse_set_bound hv]
  dsimp only
  rw [hfound, hfresh, instructionsIn_set_bound hv]
  dsimp only
  rw [List.set_set]

/-- So they open as the session that there is. -/
theorem ofWords_words_self (h : ofWords policy ws = .ok s) : ofWords policy s.words = .ok s := by
  rw [ofWords_again h]
  obtain ⟨m, -, -, hindex, -⟩ := ofWords_sound h
  obtain ⟨v, fresh, -, -, rfl⟩ := ofWords_ok h
  rw [← hindex]

/-! ## The buffer -/

/-- What opening does to the buffer: nothing if it fails, and else the words of the session are what
the buffer becomes. -/
theorem openBuffer_run (policy : StructPolicy) (ws : List Word) :
    (openBuffer policy).run ws =
      match ofWords policy ws with
      | .error e => (.error e, ws)
      | .ok s => (.ok s, s.words) := by
  rw [openBuffer, Edit.run_get_bind]
  unfold ofWords
  cases hv : ModuleView.parse ws with
  | error e => rfl
  | ok v =>
    dsimp only
    rw [found]
    cases hf : firstFresh? v.bound (Index.ofInstructions policy
        (Section.all.flatMap fun sec => instructionsIn ws (v.layout.span sec))).highestId? with
    | none => rfl
    | some fresh =>
      -- the extensions are looked up when the bound is written
      dsimp only
      rw [← instructionsIn_set_bound hv fresh.value]
      rfl

/-- Opening goes wrong with the reading, or because no id is left, and else it goes well. -/
theorem ofWords_ends (policy : StructPolicy) (ws : List Word) :
    (∃ e, ModuleView.parse ws = .error e ∧ ofWords policy ws = .error (.load e)) ∨
    (∃ v, ModuleView.parse ws = .ok v ∧ DefinesLastId ws ∧
      ofWords policy ws = .error .idsExhausted) ∨
    ∃ v s, ModuleView.parse ws = .ok v ∧ ¬ DefinesLastId ws ∧ ofWords policy ws = .ok s := by
  cases hv : ModuleView.parse ws with
  | error e =>
    refine .inl ⟨e, rfl, ?_⟩
    unfold ofWords
    rw [hv]
  | ok v =>
    have hexhausted : firstFresh? v.bound (Index.ofInstructions policy
        (Section.all.flatMap fun sec => instructionsIn ws (v.layout.span sec))).highestId? = none ↔
          DefinesLastId ws := by
      rw [DefinesLastId, ← found_eq hv]
      exact firstFresh?_ofInstructions policy v.bound _
    right
    unfold ofWords
    rw [hv]
    dsimp only
    split
    · rename_i hnone
      exact .inl ⟨v, rfl, hexhausted.mp hnone, rfl⟩
    · rename_i fresh hsome
      refine .inr ⟨v, _, rfl, fun h => ?_, rfl⟩
      rw [hexhausted.mpr h] at hsome
      cases hsome

/-- What there is when a module has been opened: the words `ws` of the buffer have become the words
`ws'` of the session `s`. -/
structure OpenedFrom (policy : StructPolicy) (s : Session) (ws ws' : List Word) : Prop where
  words : s.words = ws'
  written : ws' = ws.set boundWord s.bound
  bound : IsGreatest {n | BoundReaches ws n} s.bound.toNat
  layout : ∃ v, ModuleView.parse ws = .ok v ∧ s.layout = v.layout
  below : s.IdsBelow
  again : (openBuffer policy).run ws' = (.ok s, ws')
  reopens : ∀ other, ∃ t, (openBuffer other).run ws' = (.ok t, ws')

theorem openedFrom (h : ofWords policy ws = .ok s) : OpenedFrom policy s ws s.words where
  words := rfl
  written := ofWords_words h
  bound := isGreatest_bound h
  layout := by
    obtain ⟨v, fresh, hv, -, rfl⟩ := ofWords_ok h
    exact ⟨v, hv, rfl⟩
  below := idsBelow_ofWords h
  again := by rw [openBuffer_run, ofWords_words_self h]
  reopens other := ⟨_, by rw [openBuffer_run, ofWords_again h other]⟩

/-- How the opening of a module ends, and what is in the buffer then. It fails with what the reading
fails with, or else because the largest id is defined, and nothing was written. Otherwise nothing but
the bound was written, which is as large as it has to be, so that all ids are below it; and to open
the buffer again changes nothing. -/
theorem opening_settles (policy : StructPolicy) (ws : List Word) :
    (∀ e, ((openBuffer policy).run ws).1 = .error (.load e) ↔ ModuleView.parse ws = .error e) ∧
    (((openBuffer policy).run ws).1 = .error .idsExhausted ↔
      (∃ v, ModuleView.parse ws = .ok v) ∧ DefinesLastId ws) ∧
    ((∃ s, ((openBuffer policy).run ws).1 = .ok s) ↔
      (∃ v, ModuleView.parse ws = .ok v) ∧ ¬ DefinesLastId ws) ∧
    (∀ e, ((openBuffer policy).run ws).1 = .error e → ((openBuffer policy).run ws).2 = ws) ∧
    ∀ s, ((openBuffer policy).run ws).1 = .ok s →
      OpenedFrom policy s ws ((openBuffer policy).run ws).2 := by
  rw [openBuffer_run]
  rcases ofWords_ends policy ws with ⟨e, hv, hend⟩ | ⟨v, hv, hlast, hend⟩ | ⟨v, s, hv, hlast, hend⟩
  · rw [hend]
    simp [hv]
  · rw [hend]
    simp [hv, hlast]
  · rw [hend]
    simp [hv, hlast, openedFrom hend]

/-- A module with a type whose id is not below the bound, which is no bound at all. -/
def unbounded : List Word :=
  [magic, Version.word ⟨1, 3⟩, 0, 0, 0] ++ Operation.words ⟨.opTypeBool, [7]⟩

theorem isGreatest_unbounded : IsGreatest {n | BoundReaches unbounded n} 8 := by
  have hids : definedIds (moduleInstructions unbounded) = [⟨7, by decide⟩] := by decide +kernel
  constructor
  · have hmem : (⟨7, by decide⟩ : Id) ∈ definedIds (moduleInstructions unbounded) := by
      rw [hids]
      exact List.mem_singleton_self _
    exact .above hmem
  · intro n hn
    cases hn with
    | least => decide
    | written h =>
      cases h
      decide
    | above hid =>
      rw [hids, List.mem_singleton] at hid
      rw [hid]
      decide

/-- The bound is raised above the type, and there it stays. -/
theorem opening_settles_unbounded :
    ∃ s, s.bound = 8 ∧
      (openBuffer .never).run unbounded = (.ok s, unbounded.set boundWord 8) ∧
      (openBuffer .never).run (unbounded.set boundWord 8) = (.ok s, unbounded.set boundWord 8) := by
  obtain ⟨-, -, hopens, -, hopened⟩ := opening_settles .never unbounded
  have hread : ∃ v, ModuleView.parse unbounded = .ok v := ⟨_, rfl⟩
  obtain ⟨s, hs⟩ := hopens.mpr ⟨hread, by decide +kernel⟩
  have h := hopened s hs
  have hbound : s.bound = 8 :=
    UInt32.toNat_inj.mp (h.bound.unique isGreatest_unbounded)
  have hwritten := h.written
  have hagain := h.again
  rw [hbound] at hwritten
  rw [hwritten] at hagain
  exact ⟨s, hbound, Prod.ext hs hwritten, hagain⟩

end Session

end SpirvModule
