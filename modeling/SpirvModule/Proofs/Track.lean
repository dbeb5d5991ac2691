import Mathlib.Data.List.Nodup
import Mathlib.Logic.Relation
import SpirvModule.Index.Basic
import SpirvModule.Proofs.Ledger

/-!
# The index and the instructions it is of

An index is kept in step with a list of instructions, in the order of their offsets:
one enters or leaves, a tail moves along, some that say nothing come in. `Change`
holds these four ways, each with where in the list it happens.

Results:
* `Reflects.change`: after every change the ledger holds what the instructions tell, and a
  place of an id is the place of an instruction that defines it.
* `Locates.change`: while ids are distinct, every id that is defined has its place.
* `Changes.keeps`: what a change keeps is kept by several.
* `changes_ofInstructions`: an index that is made from scratch is made by changes.
-/
namespace SpirvModule

/-! ## What instructions tell -/

/-- The facts that instructions tell, in order. -/
def told (l : List Instruction) : List (Nat × Fact) :=
  l.filterMap fun i => (Fact.ofInstruction? i).map (i.offset, ·)

/-- The ids that instructions define, in order. -/
def definedIds (l : List Instruction) : List Id := l.filterMap Instruction.resultId?

theorem told_append (l k : List Instruction) : told (l ++ k) = told l ++ told k :=
  List.filterMap_append

theorem definedIds_append (l k : List Instruction) :
    definedIds (l ++ k) = definedIds l ++ definedIds k := List.filterMap_append

theorem told_cons (i : Instruction) (l : List Instruction) :
    told (i :: l) = match Fact.ofInstruction? i with
      | none => told l
      | some f => (i.offset, f) :: told l := by
  cases h : Fact.ofInstruction? i <;> simp [told, h]

theorem definedIds_cons (i : Instruction) (l : List Instruction) :
    definedIds (i :: l) = match i.resultId? with
      | none => definedIds l
      | some id => id :: definedIds l := by
  cases h : i.resultId? <;> simp [definedIds, h]

theorem offset_of_mem_told {l : List Instruction} {e : Nat × Fact} (h : e ∈ told l) :
    ∃ i ∈ l, i.offset = e.1 := by
  obtain ⟨i, hi, he⟩ := List.mem_filterMap.mp h
  obtain ⟨f, -, rfl⟩ := Option.map_eq_some_iff.mp he
  exact ⟨i, hi, rfl⟩

theorem mem_definedIds {l : List Instruction} {i : Instruction} {id : Id} (hi : i ∈ l)
    (hid : i.resultId? = some id) : id ∈ definedIds l := List.mem_filterMap.mpr ⟨i, hi, hid⟩

/-- An instruction after its `removed` words in front gave way to `added`. -/
def Instruction.shifted (removed added : Nat) (i : Instruction) : Instruction :=
  { i with offset := i.offset - removed + added }

theorem told_shifted {l : List Instruction} {p removed : Nat} (added : Nat)
    (h : ∀ i ∈ l, p + removed ≤ i.offset) :
    Declarations.relocate p removed added (told l) = told (l.map (.shifted removed added)) := by
  induction l with
  | nil => rfl
  | cons i r ih =>
    obtain ⟨hi, hr⟩ := List.forall_mem_cons.mp h
    have hm : Ledger.moved? p removed added i.offset = some (i.offset - removed + added) := by
      rw [Ledger.moved?, if_neg (by omega), if_neg (by omega)]
    have hf : Fact.ofInstruction? (i.shifted removed added) = Fact.ofInstruction? i := rfl
    rw [List.map_cons, told_cons, told_cons, hf, ← ih hr]
    cases Fact.ofInstruction? i with
    | none => rfl
    | some f => simp [Declarations.relocate, hm, Instruction.shifted]

theorem definedIds_shifted (removed added : Nat) (l : List Instruction) :
    definedIds (l.map (.shifted removed added)) = definedIds l := List.filterMap_map

/-! ## What registering does -/

namespace Index

theorem ext {x y : Index} (hd : x.definitions = y.definitions) (hl : x.ledger = y.ledger)
    (ht : x.types = y.types) : x = y := by
  cases x
  cases y
  cases hd
  cases hl
  cases ht
  rfl

variable (policy : StructPolicy) (x : Index) (i : Instruction)

theorem contribution_fact (t : TypeTable) {f : Fact} (h : Fact.ofInstruction? i = some f) :
    Contribution.of t i = .fact f := by rw [Contribution.of, h]

theorem contribution_ne_fact (t : TypeTable) (f : Fact) (h : Fact.ofInstruction? i = none) :
    Contribution.of t i ≠ .fact f := by
  rw [Contribution.of, h]
  cases i.resultId? with
  | none => nofun
  | some id =>
    dsimp only
    split
    · nofun
    · split <;> nofun

theorem register_definitions :
    (x.register policy i).definitions = match i.resultId? with
      | none => x.definitions
      | some id => x.definitions.insert id i.offset := by
  unfold register
  cases i.resultId? with
  | none =>
    dsimp only
    split
    case h_2 => split <;> rfl
    all_goals rfl
  | some id =>
    dsimp only
    split
    case h_2 => split <;> rfl
    all_goals rfl

theorem register_ledger :
    (x.register policy i).ledger = match Fact.ofInstruction? i with
      | none => x.ledger
      | some f => Ledger.insert i.offset f x.ledger := by
  unfold register
  cases hf : Fact.ofInstruction? i with
  | some f =>
    simp only [contribution_fact i _ hf]
    cases i.resultId? <;> rfl
  | none =>
    have hne := fun t f => contribution_ne_fact i t f hf
    dsimp only
    split
    case h_1 f h => exact absurd h (hne _ _)
    case h_2 => split <;> cases i.resultId? <;> rfl
    all_goals cases i.resultId? <;> rfl

theorem unregister_definitions :
    (x.unregister i).definitions = match i.resultId? with
      | none => x.definitions
      | some id =>
        if x.definitions[id]? = some i.offset then x.definitions.erase id else x.definitions := by
  unfold unregister
  cases i.resultId? with
  | none =>
    dsimp only
    split <;> rfl
  | some id =>
    dsimp only
    split <;> split <;> rfl

theorem unregister_ledger :
    (x.unregister i).ledger = match Fact.ofInstruction? i with
      | none => x.ledger
      | some f => Ledger.erase i.offset f.subject x.ledger := by
  unfold unregister
  cases hf : Fact.ofInstruction? i with
  | some f =>
    simp only [contribution_fact i _ hf]
    cases i.resultId? with
    | none => rfl
    | some id => dsimp only; split <;> rfl
  | none =>
    have hne := fun t f => contribution_ne_fact i t f hf
    dsimp only
    split
    case h_1 f h => exact absurd h (hne _ _)
    all_goals cases i.resultId? with
      | none => rfl
      | some id => dsimp only; split <;> rfl

/-! ## Changes -/

/-- One change of an index together with the list of instructions it is of. -/
inductive Change : Index × List Instruction → Index × List Instruction → Prop
  | enter {x : Index} {i : Instruction} {l k : List Instruction} (policy : StructPolicy)
      (hl : ∀ j ∈ l, j.offset < i.offset) (hk : ∀ j ∈ k, i.offset < j.offset) :
      Change (x, l ++ k) (x.register policy i, l ++ i :: k)
  | leave {x : Index} {i : Instruction} {l k : List Instruction}
      (hl : ∀ j ∈ l, j.offset < i.offset) (hk : ∀ j ∈ k, i.offset < j.offset) :
      Change (x, l ++ i :: k) (x.unregister i, l ++ k)
  | move {x : Index} {l k : List Instruction} (p removed added : Nat)
      (hl : ∀ j ∈ l, j.offset < p) (hk : ∀ j ∈ k, p + removed ≤ j.offset) :
      Change (x, l ++ k) (x.relocate p removed added, l ++ k.map (.shifted removed added))
  | pad {x : Index} {n : List Instruction} (l k : List Instruction) (hf : told n = [])
      (hid : definedIds n = []) : Change (x, l ++ k) (x, l ++ (n ++ k))

/-- Whether the ledger of `x` holds what the instructions in `l` tell, and every place of an id is
that of an instruction that defines it. -/
structure Reflects (x : Index) (l : List Instruction) : Prop where
  holds : x.ledger.Holds (told l)
  exists_of_definition : ∀ id p, x.definitions[id]? = some p →
    ∃ i ∈ l, i.offset = p ∧ i.resultId? = some id

/-- Indices of the same instructions have the same ledger. -/
theorem Reflects.ledger_eq {x y : Index} {l : List Instruction} (h : x.Reflects l)
    (h' : y.Reflects l) : x.ledger = y.ledger := h.holds.unique h'.holds

/-- Whether every id that an instruction in `l` defines has its place there. -/
def Locates (x : Index) (l : List Instruction) : Prop :=
  ∀ i ∈ l, ∀ id, i.resultId? = some id → x.definitions[id]? = some i.offset

theorem told_lt {l : List Instruction} {p : Nat} (h : ∀ j ∈ l, j.offset < p) :
    ∀ e ∈ told l, e.1 < p := by
  intro e he
  obtain ⟨i, hi, heq⟩ := offset_of_mem_told he
  exact heq ▸ h i hi

theorem lt_told {l : List Instruction} {p : Nat} (h : ∀ j ∈ l, p < j.offset) :
    ∀ e ∈ told l, p < e.1 := by
  intro e he
  obtain ⟨i, hi, heq⟩ := offset_of_mem_told he
  exact heq ▸ h i hi

variable {x y : Index} {l k : List Instruction} {i : Instruction}

theorem Reflects.register (h : x.Reflects (l ++ k)) (policy : StructPolicy)
    (hl : ∀ j ∈ l, j.offset < i.offset) (hk : ∀ j ∈ k, i.offset < j.offset) :
    (x.register policy i).Reflects (l ++ i :: k) := by
  constructor
  · have hheld := h.holds
    rw [told_append] at hheld
    rw [register_ledger, told_append, told_cons]
    cases Fact.ofInstruction? i with
    | none => exact hheld
    | some f => exact hheld.insert (told_lt hl) (lt_told hk)
  · intro id p hp
    have old (hp : x.definitions[id]? = some p) :
        ∃ j ∈ l ++ i :: k, j.offset = p ∧ j.resultId? = some id := by
      obtain ⟨j, hj, hjp⟩ := h.exists_of_definition id p hp
      refine ⟨j, ?_, hjp⟩
      rw [List.mem_append, List.mem_cons]
      rcases List.mem_append.mp hj with hj | hj
      · exact .inl hj
      · exact .inr (.inr hj)
    rw [register_definitions] at hp
    cases hid : i.resultId? with
    | none =>
      rw [hid] at hp
      exact old hp
    | some id' =>
      simp only [hid, Std.ExtTreeMap.getElem?_insert, Std.compare_eq_iff_eq] at hp
      split at hp
      · rename_i heq
        exact ⟨i, by simp, Option.some.inj hp, heq ▸ hid⟩
      · exact old hp

theorem Reflects.unregister (h : x.Reflects (l ++ i :: k))
    (hl : ∀ j ∈ l, j.offset < i.offset) (hk : ∀ j ∈ k, i.offset < j.offset) :
    (x.unregister i).Reflects (l ++ k) := by
  constructor
  · have hheld := h.holds
    rw [told_append, told_cons] at hheld
    rw [unregister_ledger, told_append]
    cases hf : Fact.ofInstruction? i with
    | none =>
      rw [hf] at hheld
      exact hheld
    | some f =>
      rw [hf] at hheld
      exact hheld.erase (told_lt hl) (lt_told hk)
  · intro id p hp
    -- an entry that is left is an older one, and not that of `i`
    have old (hp : x.definitions[id]? = some p) (hne : i.resultId? = some id → p ≠ i.offset) :
        ∃ j ∈ l ++ k, j.offset = p ∧ j.resultId? = some id := by
      obtain ⟨j, hj, hjp, hjid⟩ := h.exists_of_definition id p hp
      refine ⟨j, ?_, hjp, hjid⟩
      rw [List.mem_append, List.mem_cons] at hj
      rcases hj with hj | rfl | hj
      · exact List.mem_append_left _ hj
      · exact absurd hjp.symm (hne hjid)
      · exact List.mem_append_right _ hj
    rw [unregister_definitions] at hp
    cases hid : i.resultId? with
    | none =>
      rw [hid] at hp
      refine old hp ?_
      rw [hid]
      nofun
    | some id' =>
      simp only [hid] at hp
      split at hp
      · rw [Std.ExtTreeMap.getElem?_erase] at hp
        simp only [Std.compare_eq_iff_eq] at hp
        split at hp
        · cases hp
        · rename_i hne
          refine old hp fun hi => absurd ?_ hne
          exact Option.some.inj (hid.symm.trans hi)
      · rename_i hne
        refine old hp fun hi hpi => hne ?_
        obtain rfl : id' = id := Option.some.inj (hid.symm.trans hi)
        rw [hp, hpi]

theorem definitions_relocate (p removed added : Nat) (id : Id) :
    (x.relocate p removed added).definitions[id]? =
      x.definitions[id]?.bind (Ledger.moved? p removed added) :=
  Std.ExtTreeMap.getElem?_filterMap'

/-- Where the place of an instruction moves when those from some offset on move along. -/
theorem moved_offset {p removed : Nat} (added : Nat) (hl : ∀ j ∈ l, j.offset < p)
    (hk : ∀ j ∈ k, p + removed ≤ j.offset) (hi : i ∈ l ++ k) :
    ∃ j ∈ l ++ k.map (.shifted removed added), j.resultId? = i.resultId? ∧
      Ledger.moved? p removed added i.offset = some j.offset := by
  rcases List.mem_append.mp hi with hi | hi
  · refine ⟨i, List.mem_append_left _ hi, rfl, ?_⟩
    rw [Ledger.moved?, if_pos (hl i hi)]
  · have := hk i hi
    refine ⟨i.shifted removed added, ?_, rfl, ?_⟩
    · exact List.mem_append_right _ (List.mem_map_of_mem hi)
    · rw [Ledger.moved?, if_neg (by omega), if_neg (by omega)]
      rfl

theorem Reflects.relocate (h : x.Reflects (l ++ k)) {p removed : Nat} (added : Nat)
    (hl : ∀ j ∈ l, j.offset < p) (hk : ∀ j ∈ k, p + removed ≤ j.offset) :
    (x.relocate p removed added).Reflects (l ++ k.map (.shifted removed added)) := by
  constructor
  · have hheld := h.holds.relocate p removed added
    rwa [told_append, Declarations.relocate_append, Declarations.relocate_of_lt (told_lt hl),
      told_shifted added hk, ← told_append] at hheld
  · intro id q hq
    rw [definitions_relocate] at hq
    obtain ⟨o, ho, hoq⟩ := Option.bind_eq_some_iff.mp hq
    obtain ⟨i, hi, rfl, hid⟩ := h.exists_of_definition id o ho
    obtain ⟨j, hj, hjid, hjo⟩ := moved_offset added hl hk hi
    exact ⟨j, hj, Option.some.inj (hjo.symm.trans hoq), hjid.trans hid⟩

theorem Reflects.pad (h : x.Reflects (l ++ k)) {n : List Instruction} (hf : told n = []) :
    x.Reflects (l ++ (n ++ k)) := by
  have hheld := h.holds
  rw [told_append] at hheld
  refine ⟨by rwa [told_append, told_append, hf], fun id p hp => ?_⟩
  obtain ⟨i, hi, hip⟩ := h.exists_of_definition id p hp
  refine ⟨i, ?_, hip⟩
  simp only [List.mem_append] at hi ⊢
  tauto

theorem Reflects.change {a b : Index × List Instruction} (h : a.1.Reflects a.2)
    (hab : Change a b) : b.1.Reflects b.2 := by
  cases hab with
  | enter policy hl hk => exact h.register policy hl hk
  | leave hl hk => exact h.unregister hl hk
  | move p removed added hl hk => exact h.relocate added hl hk
  | pad l k hf hid => exact h.pad hf

/-! ## Places of ids -/

theorem Locates.register (h : x.Locates (l ++ k)) (policy : StructPolicy)
    (hd : (definedIds (l ++ i :: k)).Nodup) : (x.register policy i).Locates (l ++ i :: k) := by
  intro j hj id hid
  rw [register_definitions]
  rw [definedIds_append, definedIds_cons] at hd
  rw [List.mem_append, List.mem_cons] at hj
  have old (hj : j ∈ l ++ k) : x.definitions[id]? = some j.offset := h j hj id hid
  cases hi : i.resultId? with
  | none =>
    rcases hj with hj | rfl | hj
    · exact old (List.mem_append_left _ hj)
    · cases hid.symm.trans hi
    · exact old (List.mem_append_right _ hj)
  | some id' =>
    simp only [hi] at hd
    have hnew : id' ∉ definedIds l ++ definedIds k :=
      (List.nodup_cons.mp (List.nodup_middle.mp hd)).1
    simp only [Std.ExtTreeMap.getElem?_insert, Std.compare_eq_iff_eq]
    have other (hj : j ∈ l ++ k) : id' ≠ id := by
      rintro rfl
      refine hnew ?_
      rw [← definedIds_append]
      exact mem_definedIds hj hid
    rcases hj with hj | rfl | hj
    · rw [if_neg (other (List.mem_append_left _ hj))]
      exact old (List.mem_append_left _ hj)
    · rw [if_pos (Option.some.inj (hi.symm.trans hid))]
    · rw [if_neg (other (List.mem_append_right _ hj))]
      exact old (List.mem_append_right _ hj)

theorem Locates.unregister (h : x.Locates (l ++ i :: k))
    (hd : (definedIds (l ++ i :: k)).Nodup) : (x.unregister i).Locates (l ++ k) := by
  intro j hj id hid
  have old : x.definitions[id]? = some j.offset := by
    refine h j ?_ id hid
    rw [List.mem_append, List.mem_cons]
    exact (List.mem_append.mp hj).imp_right .inr
  rw [unregister_definitions]
  rw [definedIds_append, definedIds_cons] at hd
  cases hi : i.resultId? with
  | none => exact old
  | some id' =>
    simp only [hi] at hd
    have hne : id' ≠ id := by
      rintro rfl
      refine (List.nodup_cons.mp (List.nodup_middle.mp hd)).1 ?_
      rw [← definedIds_append]
      exact mem_definedIds hj hid
    dsimp only
    split
    · rw [Std.ExtTreeMap.getElem?_erase, if_neg]
      · exact old
      · rwa [Std.compare_eq_iff_eq]
    · exact old

theorem Locates.relocate (h : x.Locates (l ++ k)) {p removed : Nat} (added : Nat)
    (hl : ∀ j ∈ l, j.offset < p) (hk : ∀ j ∈ k, p + removed ≤ j.offset) :
    (x.relocate p removed added).Locates (l ++ k.map (.shifted removed added)) := by
  intro j hj id hid
  rw [definitions_relocate]
  rcases List.mem_append.mp hj with hj | hj
  · rw [h j (List.mem_append_left _ hj) id hid, Option.bind_some, Ledger.moved?, if_pos (hl j hj)]
  · obtain ⟨i, hi, rfl⟩ := List.mem_map.mp hj
    have := hk i hi
    rw [h i (List.mem_append_right _ hi) id hid, Option.bind_some, Ledger.moved?,
      if_neg (by omega), if_neg (by omega)]
    rfl

theorem Locates.pad (h : x.Locates (l ++ k)) {n : List Instruction} (hn : definedIds n = []) :
    x.Locates (l ++ (n ++ k)) := by
  intro i hi id hid
  refine h i ?_ id hid
  simp only [List.mem_append] at hi ⊢
  rcases hi with hi | hi | hi
  · exact .inl hi
  · have := mem_definedIds hi hid
    rw [hn] at this
    cases this
  · exact .inr hi

/-- Ids keep their places as long as they are distinct before a change and after it. -/
theorem Locates.change {a b : Index × List Instruction} (h : a.1.Locates a.2) (hab : Change a b)
    (ha : (definedIds a.2).Nodup) (hb : (definedIds b.2).Nodup) : b.1.Locates b.2 := by
  cases hab with
  | enter policy hl hk => exact h.register policy hb
  | leave hl hk => exact h.unregister ha
  | move p removed added hl hk => exact h.relocate added hl hk
  | pad l k hf hid => exact h.pad hid

/-! ## Several changes -/

open scoped List

/-- Any number of changes, with ids all along that are among those at the start or those at the
end. -/
def Changes (ids ids' : List Id) : Index × List Instruction → Index × List Instruction → Prop :=
  Relation.ReflTransGen fun a b => Change a b ∧
    (definedIds a.2 <+ ids ∨ definedIds a.2 <+ ids') ∧
    (definedIds b.2 <+ ids ∨ definedIds b.2 <+ ids')

variable {a b : Index × List Instruction} {ids ids' : List Id}

theorem Changes.mono {jds jds' : List Id} (h : Changes ids ids' a b)
    (hi : ids <+ jds ∨ ids <+ jds') (hi' : ids' <+ jds ∨ ids' <+ jds') : Changes jds jds' a b := by
  have widen {kds : List Id} (h : kds <+ ids ∨ kds <+ ids') : kds <+ jds ∨ kds <+ jds' := by
    rcases h with h | h
    · exact hi.imp h.trans h.trans
    · exact hi'.imp h.trans h.trans
  exact Relation.ReflTransGen.mono (fun _ _ hc => And.intro hc.1 ⟨widen hc.2.1, widen hc.2.2⟩) _ _ h

theorem Changes.reflects (h : Changes ids ids' a b) (ha : a.1.Reflects a.2) :
    b.1.Reflects b.2 := by
  induction h with
  | refl => exact ha
  | tail _ hc ih => exact ih.change hc.1

/-- What a change keeps while ids are distinct, several changes do. -/
theorem Changes.keeps {Q : Index → List Instruction → Prop}
    (hQ : ∀ a b : Index × List Instruction, Change a b → (definedIds a.2).Nodup →
      (definedIds b.2).Nodup → Q a.1 a.2 → Q b.1 b.2)
    (h : Changes ids ids' a b) (hi : ids.Nodup) (hi' : ids'.Nodup) (ha : Q a.1 a.2) :
    Q b.1 b.2 := by
  have distinct {kds : List Id} (h : kds <+ ids ∨ kds <+ ids') : kds.Nodup :=
    h.elim (·.nodup hi) (·.nodup hi')
  induction h with
  | refl => exact ha
  | tail _ hc ih => exact hQ _ _ hc.1 (distinct hc.2.1) (distinct hc.2.2) ih

/-! ## Indexing from scratch -/

/-- Offsets go up. -/
def Ascending (l : List Instruction) : Prop := l.Pairwise fun i j => i.offset < j.offset

/-- Entering instructions one after the other, behind those that are in already. -/
theorem changes_foldl (policy : StructPolicy) (x : Index) (k l : List Instruction)
    (h : Ascending (k ++ l)) :
    Changes (definedIds k) (definedIds (k ++ l)) (x, k)
      (l.foldl (register policy) x, k ++ l) := by
  induction l generalizing x k with
  | nil =>
    rw [List.append_nil]
    exact .refl
  | cons i r ih =>
    have hlt : ∀ j ∈ k, j.offset < i.offset := fun j hj =>
      (List.pairwise_append.mp h).2.2 j hj i (by simp)
    have henter : Change (x, k ++ []) (x.register policy i, k ++ i :: []) :=
      .enter policy hlt nofun
    rw [List.append_nil] at henter
    rw [List.append_cons] at h ⊢
    have hids : definedIds (k ++ [i]) <+ definedIds (k ++ [i] ++ r) :=
      (List.sublist_append_left _ _).filterMap _
    refine .head ⟨henter, .inl (.refl _), .inr hids⟩ ?_
    exact (ih (x.register policy i) (k ++ [i]) h).mono (.inr hids) (.inr (.refl _))

theorem changes_ofInstructions (policy : StructPolicy) (h : Ascending l) :
    Changes [] (definedIds l) (empty, []) (ofInstructions policy l, l) :=
  changes_foldl policy empty [] l h

theorem reflects_ofInstructions (policy : StructPolicy) (h : Ascending l) :
    (ofInstructions policy l).Reflects l :=
  (changes_ofInstructions policy h).reflects ⟨.empty, fun id p hp => by simp [empty] at hp⟩

end Index

end SpirvModule
