import Mathlib.Data.List.Basic
import Mathlib.Data.Prod.Basic
import SpirvModule.Index.Ledger

/-!
# What a ledger holds

The tables of a ledger are a way to keep a list of facts. They hold one if under every key
there is what the list has to say about it, and no key without anything; there is only one
ledger that does. Recording a fact, forgetting it and moving words do to the tables what
they do to the list.

* `Table.under`: what stands under a key.
* `Table.Tidy`, `Ledger.Tidy`: that something stands under every key.
* `Ledger.about`: what a ledger has to say about a subject.
* `Ledger.Holds`: that a ledger holds a list of facts.

Results:
* `Table.Tidy.ext`: tidy tables are the same if the same stands under every key.
* `Ledger.about_insert`, `Ledger.about_erase`, `Ledger.about_relocate`: what a change of the
  tables does to a subject.
* `Ledger.Tidy.insert`, `Ledger.Tidy.erase`, `Ledger.tidy_relocate`: a key goes with the
  last thing that is told under it.
* `Holds.insert`, `Holds.erase`, `Holds.relocate`: what a change does to the list.
* `Holds.unique`: the list determines the tables.
-/
namespace SpirvModule

/-! ## Tables -/

namespace Table

variable {κ δ : Type} [Ord κ] [Std.TransOrd κ] [Emptiable δ] {m m' : Std.ExtTreeMap κ δ}
  {f : δ → δ}

/-- What stands under a key. -/
def under (m : Std.ExtTreeMap κ δ) (k : κ) : δ := m[k]?.getD default

/-- Whether something stands under every key. -/
def Tidy (m : Std.ExtTreeMap κ δ) : Prop :=
  ∀ (k : κ) (d : δ), m[k]? = some d → Emptiable.isEmpty d = false

theorem left?_eq_some {d e : δ} : left? d = some e ↔ Emptiable.isEmpty d = false ∧ d = e := by
  rw [left?, Option.ite_none_left_eq_some, Bool.not_eq_true, Option.some.injEq]

/-- What stands under a key that is dropped is what stands under one that is not there. -/
theorem left?_getD (d : δ) : (left? d).getD default = d := by
  unfold left?
  split
  · rename_i h
    exact ((Emptiable.isEmpty_iff d).mp h).symm
  · rfl

theorem Tidy.enter (h : Tidy m) (k : κ) (hf : ∀ d, Emptiable.isEmpty (f d) = false) :
    Tidy (enter k f m) := by
  intro k' d hd
  rw [Table.enter, Std.ExtTreeMap.getElem?_alter] at hd
  split at hd
  · exact Option.some.inj hd ▸ hf _
  · exact h k' d hd

theorem Tidy.reduce (h : Tidy m) (k : κ) (f : δ → δ) : Tidy (reduce k f m) := by
  intro k' d hd
  rw [Table.reduce, Std.ExtTreeMap.getElem?_alter] at hd
  split at hd
  · obtain ⟨e, -, he⟩ := Option.bind_eq_some_iff.mp hd
    obtain ⟨hleft, rfl⟩ := left?_eq_some.mp he
    exact hleft
  · exact h k' d hd

variable [Std.LawfulEqOrd κ]

theorem tidy_reduceAll (f : δ → δ) (m : Std.ExtTreeMap κ δ) : Tidy (reduceAll f m) := by
  intro k d hd
  rw [reduceAll, Std.ExtTreeMap.getElem?_filterMap'] at hd
  obtain ⟨e, -, he⟩ := Option.bind_eq_some_iff.mp hd
  obtain ⟨hleft, rfl⟩ := left?_eq_some.mp he
  exact hleft

theorem under_enter [DecidableEq κ] (k k' : κ) :
    under (enter k f m) k' = if k = k' then f (under m k) else under m k' := by
  rw [under, enter, Std.ExtTreeMap.getElem?_alter]
  simp only [Std.compare_eq_iff_eq]
  split <;> rfl

theorem under_reduce [DecidableEq κ] (hf : f default = default) (k k' : κ) :
    under (reduce k f m) k' = if k = k' then f (under m k) else under m k' := by
  rw [under, reduce, Std.ExtTreeMap.getElem?_alter]
  simp only [Std.compare_eq_iff_eq]
  split
  · rw [under]
    cases m[k]? with
    | none => exact hf.symm
    | some d => exact left?_getD (f d)
  · rfl

theorem under_reduceAll (hf : f default = default) (k : κ) :
    under (reduceAll f m) k = f (under m k) := by
  rw [under, reduceAll, Std.ExtTreeMap.getElem?_filterMap', under]
  cases m[k]? with
  | none => exact hf.symm
  | some d => exact left?_getD (f d)

/-- What stands under the keys determines a table that has no key without anything. -/
theorem Tidy.ext (h : Tidy m) (h' : Tidy m') (hunder : ∀ k, under m k = under m' k) : m = m' := by
  have stands {d : δ} (hd : Emptiable.isEmpty d = false) : d ≠ default := by
    rintro rfl
    cases hd.symm.trans ((Emptiable.isEmpty_iff default).mpr rfl)
  refine Std.ExtTreeMap.ext_getElem? fun k => ?_
  have hk := hunder k
  rw [under, under] at hk
  -- where only one of the two has the key, something would be nothing
  cases hm : m[k]? with
  | none =>
    cases hm' : m'[k]? with
    | none => rfl
    | some d' =>
      rw [hm, hm'] at hk
      exact absurd hk.symm (stands (h' k d' hm'))
  | some d =>
    cases hm' : m'[k]? with
    | none =>
      rw [hm, hm'] at hk
      exact absurd hk (stands (h k d hm))
    | some d' =>
      rw [hm, hm'] at hk
      exact congrArg some hk

end Table

/-! ## What is told under one key -/

namespace Declarations

variable {α β : Type} {d l k : Declarations α} {p removed added : Nat} {v : α}

theorem insert_ne_nil (p : Nat) (v : α) (d : Declarations α) : insert p v d ≠ [] := by
  unfold insert
  split
  · nofun
  · split
    · nofun
    · split <;> nofun

theorem insert_append (hl : ∀ e ∈ l, e.1 < p) (hk : ∀ e ∈ k, p < e.1) :
    insert p v (l ++ k) = l ++ (p, v) :: k := by
  induction l with
  | nil =>
    cases k with
    | nil => rfl
    | cons e r =>
      have he : p < e.1 := hk e (by simp)
      rw [List.nil_append, insert, if_neg (by omega), if_neg (by omega)]
      rfl
  | cons e r ih =>
    obtain ⟨he, hr⟩ := List.forall_mem_cons.mp hl
    rw [List.cons_append, insert, if_pos he, ih hr]
    rfl

theorem erase_eq_self : erase p d = d ↔ ∀ e ∈ d, e.1 ≠ p := by
  simp only [erase, List.filter_eq_self, decide_eq_true_eq]

theorem erase_append (hl : ∀ e ∈ l, e.1 < p) (hk : ∀ e ∈ k, p < e.1) :
    erase p (l ++ (p, v) :: k) = l ++ k := by
  have h1 : erase p l = l := erase_eq_self.mpr fun e he => Nat.ne_of_lt (hl e he)
  have h2 : erase p k = k := erase_eq_self.mpr fun e he => Nat.ne_of_gt (hk e he)
  rw [erase] at h1 h2 ⊢
  rw [List.filter_append, h1, List.filter_cons_of_neg (by simp), h2]

/-- What is recorded and forgotten leaves everything as it was exactly if nothing was told at its
offset. -/
theorem erase_insert : erase p (insert p v d) = d ↔ ∀ e ∈ d, e.1 ≠ p := by
  constructor
  · intro h
    refine erase_eq_self.mp ?_
    rw [← h, erase, erase, List.filter_filter]
    simp only [Bool.and_self]
  · intro h
    induction d with
    | nil => exact List.filter_cons_of_neg (by simp)
    | cons e r ih =>
      obtain ⟨he, hr⟩ := List.forall_mem_cons.mp h
      rw [insert]
      split
      · rw [erase, List.filter_cons_of_pos (by simpa using he)]
        exact congrArg _ (ih hr)
      · rw [erase, List.filter_cons_of_neg (by simp)]
        exact erase_eq_self.mpr h

theorem relocate_of_lt (hl : ∀ e ∈ l, e.1 < p) : relocate p removed added l = l := by
  rw [relocate]
  calc l.filterMap (fun e => (Ledger.moved? p removed added e.1).map (·, e.2))
      = l.filterMap some :=
        List.filterMap_congr fun e he => by rw [Ledger.moved?, if_pos (hl e he)]; rfl
    _ = l := List.filterMap_some

theorem relocate_append (p removed added : Nat) (l k : Declarations α) :
    relocate p removed added (l ++ k) = relocate p removed added l ++ relocate p removed added k :=
  List.filterMap_append

/-- Moving offsets does not change which values are there. -/
theorem filter_relocate (q : α → Bool) (p removed added : Nat) (d : Declarations α) :
    (relocate p removed added d).filter (fun e => q e.2) =
      relocate p removed added (d.filter fun e => q e.2) := by
  rw [relocate, relocate, List.filter_filterMap, List.filterMap_filter]
  refine List.filterMap_congr fun e _ => ?_
  cases Ledger.moved? p removed added e.1 with
  | none => exact (ite_self none).symm
  | some o => cases h : q e.2 <;> simp [h]

/-- The same offsets with other values. -/
def map (g : α → β) (d : Declarations α) : Declarations β := List.map (Prod.map id g) d

variable (g : α → β)

theorem map_insert (p : Nat) (v : α) (d : Declarations α) :
    map g (insert p v d) = insert p (g v) (map g d) := by
  induction d with
  | nil => rfl
  | cons e r ih =>
    rw [insert, map, map, List.map_cons, insert]
    simp only [Prod.map_fst, id_eq]
    split
    · rw [List.map_cons]
      exact congrArg _ ih
    · split <;> rfl

theorem map_erase (p : Nat) (d : Declarations α) : map g (erase p d) = erase p (map g d) := by
  rw [map, map, erase, erase, List.filter_map]
  rfl

theorem map_relocate (p removed added : Nat) (d : Declarations α) :
    map g (relocate p removed added d) = relocate p removed added (map g d) := by
  rw [map, map, relocate, relocate, List.map_filterMap, List.filterMap_map]
  refine List.filterMap_congr fun e _ => ?_
  rw [Option.map_map]
  rfl

theorem map_injective {g : α → β} (hg : Function.Injective g) : Function.Injective (map g) :=
  (Function.injective_id.prodMap hg).list_map

end Declarations

namespace BindingDecorations

variable (f : Declarations Word → Declarations Word) (d : BindingDecorations)

@[simp] theorem sets_onSets : (d.onSets f).sets = f d.sets := rfl

@[simp] theorem slots_onSets : (d.onSets f).slots = d.slots := rfl

@[simp] theorem sets_onSlots : (d.onSlots f).sets = d.sets := rfl

@[simp] theorem slots_onSlots : (d.onSlots f).slots = f d.slots := rfl

end BindingDecorations

/-! ## Ledgers -/

namespace Ledger

open Table (under)

/-- What a ledger has to say about a subject. -/
def about (x : Ledger) : Subject → Declarations Fact
  | .set t => Declarations.map (.set t) (under x.bindings t).sets
  | .slot t => Declarations.map (.slot t) (under x.bindings t).slots
  | .name t m => Declarations.map (.name t m) (under x.names ⟨t, m⟩)
  | .extInstImport n => Declarations.map (.extInstImport n) (under x.imports n)
  | .entry f => Declarations.map (fun _ => .entry f) (under x.entries f)

/-- Whether no table has a key without anything that is told under it. -/
structure Tidy (x : Ledger) : Prop where
  entries : Table.Tidy x.entries
  bindings : Table.Tidy x.bindings
  names : Table.Tidy x.names
  imports : Table.Tidy x.imports

variable {x y : Ledger} (p removed added : Nat) (f : Fact) (s u : Subject)

theorem about_insert :
    (x.insert p f).about u =
      if f.subject = u then Declarations.insert p f (x.about u) else x.about u := by
  cases f <;> cases u
  all_goals
    simp only [insert, about, Fact.subject, Table.under_enter, reduceCtorEq, if_false,
      Subject.set.injEq, Subject.slot.injEq, Subject.name.injEq, Subject.extInstImport.injEq,
      Subject.entry.injEq, NameKey.mk.injEq]
  all_goals split <;> simp_all [Declarations.map_insert]

theorem about_erase :
    (x.erase p s).about u = if s = u then Declarations.erase p (x.about u) else x.about u := by
  have hlist {κ α : Type} [Ord κ] [Std.TransOrd κ] [Std.LawfulEqOrd κ] [DecidableEq κ]
      (m : Std.ExtTreeMap κ (Declarations α)) :=
    Table.under_reduce (m := m) (f := Declarations.erase p) rfl
  have hsets := Table.under_reduce (m := x.bindings) (f := .onSets (Declarations.erase p)) rfl
  have hslots := Table.under_reduce (m := x.bindings) (f := .onSlots (Declarations.erase p)) rfl
  cases s <;> cases u
  all_goals
    simp only [erase, about, hlist, hsets, hslots, reduceCtorEq, if_false, Subject.set.injEq,
      Subject.slot.injEq, Subject.name.injEq, Subject.extInstImport.injEq, Subject.entry.injEq,
      NameKey.mk.injEq]
  all_goals split <;> simp_all [Declarations.map_erase]

theorem about_relocate :
    (x.relocate p removed added).about u = Declarations.relocate p removed added (x.about u) := by
  have hlist {κ α : Type} [Ord κ] [Std.TransOrd κ] [Std.LawfulEqOrd κ]
      (m : Std.ExtTreeMap κ (Declarations α)) :=
    Table.under_reduceAll (m := m) (f := Declarations.relocate p removed added) rfl
  have hbindings := Table.under_reduceAll (m := x.bindings) (f := fun d =>
    (d.onSets (Declarations.relocate p removed added)).onSlots
      (Declarations.relocate p removed added)) rfl
  cases u <;> simp only [relocate, about, hlist, hbindings, Declarations.map_relocate,
    BindingDecorations.slots_onSlots, BindingDecorations.sets_onSlots,
    BindingDecorations.sets_onSets, BindingDecorations.slots_onSets]

/-! ## Keys that go -/

theorem tidy_empty : empty.Tidy := by
  refine ⟨?_, ?_, ?_, ?_⟩ <;> exact fun k d hd => by simp [empty] at hd

theorem Tidy.insert (h : x.Tidy) : (x.insert p f).Tidy := by
  have stands {α : Type} (v : α) (d : Declarations α) :
      List.isEmpty (Declarations.insert p v d) = false :=
    List.isEmpty_eq_false_iff.mpr (Declarations.insert_ne_nil p v d)
  cases f with
  | set t v =>
    have hset (d : BindingDecorations) :
        Emptiable.isEmpty (d.onSets (Declarations.insert p v)) = false :=
      Bool.and_eq_false_iff.mpr (.inl (stands v d.sets))
    exact { h with bindings := h.bindings.enter t hset }
  | slot t v =>
    have hslot (d : BindingDecorations) :
        Emptiable.isEmpty (d.onSlots (Declarations.insert p v)) = false :=
      Bool.and_eq_false_iff.mpr (.inr (stands v d.slots))
    exact { h with bindings := h.bindings.enter t hslot }
  | name t m text => exact { h with names := h.names.enter ⟨t, m⟩ (stands text) }
  | extInstImport n i => exact { h with imports := h.imports.enter n (stands i) }
  | entry f => exact { h with entries := h.entries.enter f (stands ()) }

theorem Tidy.erase (h : x.Tidy) : (x.erase p s).Tidy := by
  cases s with
  | set t => exact { h with bindings := h.bindings.reduce t _ }
  | slot t => exact { h with bindings := h.bindings.reduce t _ }
  | name t m => exact { h with names := h.names.reduce _ _ }
  | extInstImport n => exact { h with imports := h.imports.reduce n _ }
  | entry f => exact { h with entries := h.entries.reduce f _ }

theorem tidy_relocate (x : Ledger) : (x.relocate p removed added).Tidy :=
  ⟨Table.tidy_reduceAll _ _, Table.tidy_reduceAll _ _, Table.tidy_reduceAll _ _,
    Table.tidy_reduceAll _ _⟩

/-- Ledgers without idle keys are the same if they say the same about every subject. -/
theorem Tidy.ext (h : x.Tidy) (h' : y.Tidy) (habout : ∀ u, x.about u = y.about u) : x = y := by
  have hentries : x.entries = y.entries := h.entries.ext h'.entries fun f =>
    Declarations.map_injective (fun _ _ _ => rfl) (habout (.entry f))
  have hbindings : x.bindings = y.bindings := by
    refine h.bindings.ext h'.bindings fun t => ?_
    have hsets : (under x.bindings t).sets = (under y.bindings t).sets :=
      Declarations.map_injective (fun _ _ hv => (Fact.set.inj hv).2) (habout (.set t))
    have hslots : (under x.bindings t).slots = (under y.bindings t).slots :=
      Declarations.map_injective (fun _ _ hv => (Fact.slot.inj hv).2) (habout (.slot t))
    exact congrArg₂ BindingDecorations.mk hsets hslots
  have hnames : x.names = y.names := h.names.ext h'.names fun k =>
    Declarations.map_injective (fun _ _ hv => (Fact.name.inj hv).2.2) (habout (.name k.1 k.2))
  have himports : x.imports = y.imports := h.imports.ext h'.imports fun n =>
    Declarations.map_injective (fun _ _ hv => (Fact.extInstImport.inj hv).2)
      (habout (.extInstImport n))
  cases x
  cases y
  cases hentries
  cases hbindings
  cases hnames
  cases himports
  rfl

/-! ## The list that is held -/

/-- Whether the tables hold the facts in `l`: under every key what the list tells about it, and no
key without anything. -/
structure Holds (x : Ledger) (l : List (Nat × Fact)) : Prop where
  tidy : x.Tidy
  about : ∀ u, x.about u = l.filter (·.2.subject = u)

namespace Holds

variable {l k : List (Nat × Fact)} {p removed added : Nat} {f : Fact}

/-- There is one ledger that holds a list. -/
theorem unique (h : x.Holds l) (h' : y.Holds l) : x = y :=
  h.tidy.ext h'.tidy fun u => (h.about u).trans (h'.about u).symm

/-- The tables tell every fact of the list under its subject, and nothing else. -/
theorem mem_about (h : x.Holds l) {e : Nat × Fact} {u : Subject} :
    e ∈ x.about u ↔ e ∈ l ∧ e.2.subject = u := by
  rw [h.about, List.mem_filter, decide_eq_true_eq]

theorem empty : Ledger.empty.Holds [] where
  tidy := tidy_empty
  about u := by cases u <;> simp [Ledger.empty, Ledger.about, Table.under] <;> rfl

theorem insert (h : x.Holds (l ++ k)) (hl : ∀ e ∈ l, e.1 < p) (hk : ∀ e ∈ k, p < e.1) :
    (x.insert p f).Holds (l ++ (p, f) :: k) := by
  refine ⟨h.tidy.insert p f, fun u => ?_⟩
  rw [about_insert, h.about, List.filter_append, List.filter_append, List.filter_cons]
  simp only [decide_eq_true_eq]
  split
  · exact Declarations.insert_append (fun e he => hl e (List.mem_filter.mp he).1)
      fun e he => hk e (List.mem_filter.mp he).1
  · rfl

theorem erase (h : x.Holds (l ++ (p, f) :: k)) (hl : ∀ e ∈ l, e.1 < p) (hk : ∀ e ∈ k, p < e.1) :
    (x.erase p f.subject).Holds (l ++ k) := by
  refine ⟨h.tidy.erase p f.subject, fun u => ?_⟩
  rw [about_erase, h.about, List.filter_append, List.filter_append, List.filter_cons]
  simp only [decide_eq_true_eq]
  split
  · exact Declarations.erase_append (fun e he => hl e (List.mem_filter.mp he).1)
      fun e he => hk e (List.mem_filter.mp he).1
  · rfl

theorem relocate (h : x.Holds l) (p removed added : Nat) :
    (x.relocate p removed added).Holds (Declarations.relocate p removed added l) := by
  refine ⟨tidy_relocate p removed added x, fun u => ?_⟩
  rw [about_relocate, h.about]
  exact (Declarations.filter_relocate (fun g : Fact => g.subject = u) ..).symm

end Holds

end Ledger

end SpirvModule
