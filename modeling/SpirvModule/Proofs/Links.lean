import SpirvModule.Proofs.Course
import SpirvModule.Proofs.Keys

/-!
# Keys and their ids

As long as ids are distinct, the table of types leads from keys to ids and back, whatever
comes and goes in a module, and every id with a key is that of an instruction that declares
it. Nothing is said of which keys are found: a type that is declared twice is lost when the
instruction goes whose id is found.

Results:
* `Index.Keyed.change`: every change of the index keeps keys and ids linked.
* `TypeTable.mem_entries`, `TypeTable.pairwise_entries`: the declared types of a category.
* `Reached.keys_correspond`: at every point of a run with distinct ids, keys and ids lead to
  each other.
-/
namespace SpirvModule

namespace Index

/-- Whether keys and ids lead to each other, and every id with a key is that of an instruction in
`l` that declares the key, by the keys that its constituents had when it came. -/
structure Keyed (x : Index) (l : List Instruction) : Prop where
  linked : x.types.Linked
  declared : ∀ id k, x.types.keyOf? id = some k →
    ∃ i ∈ l, i.resultId? = some id ∧ ∃ resolve, i.Declares resolve k

namespace Keyed

variable {x y : Index} {l l' r : List Instruction} {i : Instruction}

theorem empty : Keyed .empty [] := by
  constructor
  · intro id k
    simp [Index.empty, TypeTable.empty, TypeTable.keyOf?, TypeTable.get?]
  · intro id k hk
    simp [Index.empty, TypeTable.empty, TypeTable.keyOf?] at hk

/-- Only the declarations matter, as long as keys and ids stay as they are. -/
theorem of_same (h : x.Keyed l) (hids : y.types.ids = x.types.ids)
    (hkeys : y.types.keys = x.types.keys)
    (hl : ∀ i ∈ l, ∀ resolve k, i.resultId?.isSome → i.Declares resolve k →
      ∃ j ∈ l', j.words = i.words) : y.Keyed l' := by
  refine ⟨h.linked.congr hids hkeys, fun id k hk => ?_⟩
  rw [TypeTable.keyOf?_congr hkeys] at hk
  obtain ⟨i, hi, hid, resolve, hd⟩ := h.declared id k hk
  obtain ⟨j, hj, hw⟩ := hl i hi resolve k (hid ▸ rfl) hd
  exact ⟨j, hj, (Instruction.resultId?_congr hw).trans hid, resolve, hd.congr hw⟩

theorem mono (h : x.Keyed l) (hl : l ⊆ l') : x.Keyed l' :=
  h.of_same rfl rfl fun i hi _ _ _ _ => ⟨i, hl hi, rfl⟩

theorem register (h : x.Keyed (l ++ r)) (policy : StructPolicy)
    (hd : (definedIds (l ++ i :: r)).Nodup) : (x.register policy i).Keyed (l ++ i :: r) := by
  have h' : x.Keyed (l ++ i :: r) := h.mono (subset_append_cons l r i)
  cases x.register_gains policy i with
  | idle hids hkeys => exact h'.of_same hids hkeys fun i hi _ _ _ _ => ⟨i, hi, rfl⟩
  | @type id k hid hk hu =>
    -- the id is new, so it has no key yet
    have hfresh : x.types.keyOf? id = none := by
      rw [Option.eq_none_iff_forall_ne_some]
      intro k' hk'
      obtain ⟨j, hj, hjid, -⟩ := h.declared id k' hk'
      exact not_mem_definedIds hd hid (mem_definedIds hj hjid)
    refine ⟨hu ▸ h.linked.insert hfresh, fun d k' hk' => ?_⟩
    rw [hu] at hk'
    cases hget : x.types.get? k with
    | some c =>
      rw [TypeTable.insert_of_isSome (hget ▸ rfl : (x.types.get? k).isSome)] at hk'
      exact h'.declared d k' hk'
    | none =>
      rw [TypeTable.keyOf?_insert hget] at hk'
      split at hk'
      · rename_i heq
        cases heq
        cases hk'
        exact ⟨i, mem_append_cons.mpr (.inl rfl), hid, _, TypeTable.declares_of_decode hk⟩
      · exact h'.declared d k' hk'

theorem unregister (h : x.Keyed (l ++ i :: r)) : (x.unregister i).Keyed (l ++ r) := by
  cases x.unregister_loses i with
  | idle hids hkeys hno =>
    refine h.of_same hids hkeys fun j hj resolve k hid hd => ⟨j, ?_, rfl⟩
    refine (mem_append_cons.mp hj).resolve_left ?_
    rintro rfl
    obtain ⟨id, hid⟩ := Option.isSome_iff_exists.mp hid
    exact hno id hid resolve k hd
  | @type id hid hu =>
    refine ⟨hu ▸ h.linked.remove, fun d k hk => ?_⟩
    rw [hu] at hk
    obtain ⟨hne, hk⟩ := TypeTable.resolves_remove.mp hk
    obtain ⟨j, hj, hjid, hd⟩ := h.declared d k hk
    refine ⟨j, (mem_append_cons.mp hj).resolve_left ?_, hjid, hd⟩
    rintro rfl
    exact hne (Option.some.inj (hid.symm.trans hjid))

theorem relocate (h : x.Keyed (l ++ r)) (p removed added : Nat) :
    (x.relocate p removed added).Keyed (l ++ r.map (.shifted removed added)) := by
  refine h.of_same rfl rfl fun i hi _ _ _ _ => ?_
  rcases List.mem_append.mp hi with hi | hi
  · exact ⟨i, List.mem_append_left _ hi, rfl⟩
  · exact ⟨i.shifted removed added, List.mem_append_right _ (List.mem_map_of_mem hi), rfl⟩

/-- Every change keeps keys and ids linked while ids are distinct. -/
theorem change {a b : Index × List Instruction} (h : a.1.Keyed a.2) (hab : Change a b)
    (hd : (definedIds b.2).Nodup) : b.1.Keyed b.2 := by
  cases hab with
  | enter policy _ _ => exact h.register policy hd
  | leave _ _ => exact h.unregister
  | move p removed added _ _ => exact h.relocate p removed added
  | pad l r _ _ =>
    refine h.mono fun i hi => ?_
    simp only [List.mem_append] at hi ⊢
    exact hi.imp_right .inr

end Keyed

end Index

/-! ## The declared types of a category -/

namespace TypeTable

variable {t : TypeTable} {c : TypeCategory} {k : TypeKey} {id : Id}

theorem mem_entries : (k, id) ∈ t.entries c ↔ k.category = c ∧ t.get? k = some id := by
  rw [entries, List.mem_filter, Std.ExtTreeMap.mem_toList_iff_getElem?_eq_some, decide_eq_true_eq,
    and_comm]
  rfl

theorem pairwise_entries (t : TypeTable) (c : TypeCategory) :
    (t.entries c).Pairwise fun d e => compare d.1 e.1 = .lt :=
  Std.ExtTreeMap.ordered_keys_toList.filter _

end TypeTable

/-! ## Runs -/

open Session

namespace Reached

variable {s : Session}

theorem keyed (h : Reached IdsDistinct s) : s.index.Keyed s.live :=
  h.keeps .empty fun _ _ hab _ hb hkeyed => hkeyed.change hab hb

/-- At every point of a run with distinct ids, keys and ids lead to each other, every id that is
found is defined outside the open bracket, and the types of a category are listed in order. -/
theorem keys_correspond (h : Reached IdsDistinct s) :
    (∀ k id, s.getType? k = some id ↔ s.typeKey? id = some k) ∧
      (∀ k k' id, s.getType? k = some id → s.getType? k' = some id → k = k') ∧
      (∀ k id, s.getType? k = some id → ∃ i ∈ s.live, i.resultId? = some id) ∧
      ∀ c, (∀ k id, (k, id) ∈ s.declaredTypes c ↔ k.category = c ∧ s.getType? k = some id) ∧
        (s.declaredTypes c).Pairwise fun d e => compare d.1 e.1 = .lt := by
  have hkeyed := h.keyed
  have hiff (k : TypeKey) (id : Id) : s.getType? k = some id ↔ s.typeKey? id = some k :=
    (hkeyed.linked id k).symm
  refine ⟨hiff, fun k k' id hk hk' => ?_, fun k id hk => ?_, fun c => ⟨fun k id => ?_, ?_⟩⟩
  · exact Option.some.inj (((hiff k id).mp hk).symm.trans ((hiff k' id).mp hk'))
  · obtain ⟨i, hi, hid, -⟩ := hkeyed.declared id k ((hiff k id).mp hk)
    exact ⟨i, hi, hid⟩
  · exact TypeTable.mem_entries
  · exact TypeTable.pairwise_entries _ _

/-- A type is declared twice and its first declaration removed, it is declared once more, and a
bracket opens around a vector of it. -/
def redeclared : List Command :=
  [.declareType (.scalar .bool), .declareType (.vector ⟨.bool, 4⟩), .addType ⟨.opTypeBool, [3]⟩,
    .remove 5, .declareType (.scalar .bool), .beginModify 7]

theorem keys_correspond_redeclared :
    Reached IdsDistinct ((Session.create .never ⟨1, 3⟩ 0).performAll redeclared) ∧
      ((Session.create .never ⟨1, 3⟩ 0).performAll redeclared).typeKey? ⟨4, by decide⟩ =
        some (.scalar .bool) ∧
      (∀ k, ((Session.create .never ⟨1, 3⟩ 0).performAll redeclared).getType? k =
        some ⟨4, by decide⟩ → k = .scalar .bool) ∧
      ∃ i ∈ ((Session.create .never ⟨1, 3⟩ 0).performAll redeclared).live,
        i.resultId? = some ⟨4, by decide⟩ := by
  have h : Reached IdsDistinct ((Session.create .never ⟨1, 3⟩ 0).performAll redeclared) :=
    Reached.performAll (.create _ _ _ (by decide)) (by decide +kernel)
  have hbool : ((Session.create .never ⟨1, 3⟩ 0).performAll redeclared).getType? (.scalar .bool) =
      some ⟨4, by decide⟩ := by decide +kernel
  obtain ⟨hiff, hinj, hlive, -⟩ := h.keys_correspond
  exact ⟨h, (hiff _ _).mp hbool, fun k hk => hinj k _ _ hk hbool, hlive _ _ hbool⟩

end Reached

end SpirvModule
