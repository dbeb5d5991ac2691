import SpirvModule.Proofs.Links

/-!
# The order of keys

Keys are compared by their codes. The category stands first in a code and the fields behind it, so
that keys of different categories compare as these do, and keys of one category field by field. No
field is left out of a code. Hence only equal keys compare as equal, and a table in this order keeps
all keys apart.

Results:
* `TypeKey.compare_eq_then`: by category, then by fields.
* `TypeKey.compare_function_eq_lt`: functions by their result, then by their arguments.
* `TypeTable.get?_enterAll`: what is found in a table that keys were entered into.
* `TypeKey.order_total`: the order is total and strict, and a table holds every key once.
-/
namespace SpirvModule

/-- The index of a category is its place in the list of all. -/
theorem TypeCategory.getElem?_all (c : TypeCategory) : all[c.index]? = some c := by cases c <;> rfl

theorem TypeCategory.index_injective {a b : TypeCategory} (h : a.index = b.index) : a = b :=
  Option.some.inj (((getElem?_all a).symm.trans (by rw [h])).trans (getElem?_all b))

/-! ## Lists of ids -/

namespace Id

/-- Whether `xs` comes in front of `ys`: it ends where `ys` goes on, or it has the smaller id at the
first place where they differ. -/
def ListedBefore (xs ys : List Id) : Prop :=
  (∃ y r, ys = xs ++ y :: r) ∨
    ∃ l x y r r', xs = l ++ x :: r ∧ ys = l ++ y :: r' ∧ x.value < y.value

variable {x y : Id} {xs ys : List Id}

theorem listedBefore_nil : ListedBefore [] ys ↔ ys ≠ [] := by
  unfold ListedBefore
  cases ys <;> simp

theorem not_listedBefore_nil : ¬ ListedBefore xs [] := by
  simp [ListedBefore]

theorem listedBefore_cons :
    ListedBefore (x :: xs) (y :: ys) ↔ x.value < y.value ∨ x = y ∧ ListedBefore xs ys := by
  unfold ListedBefore
  constructor
  · intro h
    rcases h with ⟨z, r, h⟩ | ⟨l, u, v, r, r', hx, hy, hlt⟩
    · obtain ⟨rfl, rfl⟩ := List.cons.inj h
      exact .inr ⟨rfl, .inl ⟨z, r, rfl⟩⟩
    · cases l with
      | nil =>
        obtain ⟨rfl, -⟩ := List.cons.inj hx
        obtain ⟨rfl, -⟩ := List.cons.inj hy
        exact .inl hlt
      | cons w l =>
        obtain ⟨rfl, rfl⟩ := List.cons.inj hx
        obtain ⟨rfl, rfl⟩ := List.cons.inj hy
        exact .inr ⟨rfl, .inr ⟨l, u, v, r, r', rfl, rfl, hlt⟩⟩
  · intro h
    rcases h with hlt | ⟨rfl, ⟨z, r, rfl⟩ | ⟨l, u, v, r, r', rfl, rfl, hlt⟩⟩
    · exact .inr ⟨[], x, y, xs, ys, rfl, rfl, hlt⟩
    · exact .inl ⟨z, r, rfl⟩
    · exact .inr ⟨x :: l, u, v, r, r', rfl, rfl, hlt⟩

/-- Lists of ids come one in front of the other as the lists of their numbers do. -/
theorem compare_numbers_eq_lt (xs ys : List Id) :
    compare (xs.map (·.value.toNat)) (ys.map (·.value.toNat)) = .lt ↔ ListedBefore xs ys := by
  induction xs generalizing ys with
  | nil => cases ys <;> simp [listedBefore_nil]
  | cons x xs ih =>
    cases ys with
    | nil => simp [not_listedBefore_nil]
    | cons y ys =>
      rw [listedBefore_cons, ← ih ys, UInt32.lt_iff_toNat_lt]
      simp only [List.map_cons, List.compare_cons_cons, Ordering.then_eq_lt, Nat.compare_eq_lt,
        Nat.compare_eq_eq]
      have hsame : x.value.toNat = y.value.toNat ↔ x = y :=
        ⟨TypeKey.id_of_toNat, fun h => h ▸ rfl⟩
      rw [hsame]

end Id

/-! ## Comparing keys -/

namespace TypeKey

variable {a b : TypeKey}

/-- Keys are compared by their categories, and those of one category by their fields. -/
theorem compare_eq_then (a b : TypeKey) :
    compare a b = (compare a.category b.category).then (compare a.fields b.fields) :=
  List.compare_cons_cons

theorem compare_of_category_ne (h : a.category ≠ b.category) :
    compare a b = compare a.category b.category := by
  have hne : compare a.category b.category ≠ .eq := by
    intro heq
    exact h (TypeCategory.index_injective (Nat.compare_eq_eq.mp heq))
  rw [compare_eq_then]
  cases hc : compare a.category b.category with
  | eq => exact absurd hc hne
  | lt => rfl
  | gt => rfl

/-- Functions are compared by their results, and those of one result by their arguments. -/
theorem compare_function_eq_lt (r s : Id) (xs ys : List Id) :
    compare (function r xs) (function s ys) = .lt ↔
      r.value < s.value ∨ r = s ∧ Id.ListedBefore xs ys := by
  rw [← Id.listedBefore_cons, ← Id.compare_numbers_eq_lt, compare_eq_then]
  rfl

end TypeKey

/-! ## Tables in the order of keys -/

namespace TypeTable

variable {k : TypeKey}

/-- The table after keys were entered one after the other, each with an id. -/
def enterAll (t : TypeTable) (l : List (TypeKey × Id)) : TypeTable :=
  l.foldl (fun t e => t.insert e.1 e.2) t

/-- A key leads to the id that it had before, or else to the first with which it was entered. -/
theorem get?_enterAll (t : TypeTable) (l : List (TypeKey × Id)) (k : TypeKey) :
    (t.enterAll l).get? k = (t.get? k).or ((l.find? fun e => e.1 = k).map (·.2)) := by
  induction l generalizing t with
  | nil => simp [enterAll]
  | cons e r ih =>
    have hstep : t.enterAll (e :: r) = (t.insert e.1 e.2).enterAll r := rfl
    rw [hstep, ih]
    cases he : t.get? e.1 with
    | some i =>
      rw [insert_of_isSome (he ▸ rfl : (t.get? e.1).isSome)]
      by_cases hk : e.1 = k
      · simp [← hk, he]
      · simp [hk]
    | none =>
      rw [get?_insert he]
      by_cases hk : e.1 = k
      · simp [← hk, he]
      · simp [hk]

end TypeTable

namespace TypeKey

/-- The order of keys is total and strict. It goes by the categories, and among functions by the
result, then by the arguments. A table in this order keeps all keys apart and none of them twice. -/
theorem order_total :
    (∀ a b : TypeKey, compare a b = .eq ↔ a = b) ∧
    (∀ a b : TypeKey, compare b a = (compare a b).swap) ∧
    (∀ a b c : TypeKey, compare a b = .lt → compare b c = .lt → compare a c = .lt) ∧
    (∀ a b : TypeKey, a.category ≠ b.category → compare a b = compare a.category b.category) ∧
    (∀ r s xs ys, compare (function r xs) (function s ys) = .lt ↔
      r.value < s.value ∨ r = s ∧ Id.ListedBefore xs ys) ∧
    (∀ (t : TypeTable) l k,
      (t.enterAll l).get? k = (t.get? k).or ((l.find? fun e => e.1 = k).map (·.2))) ∧
    ∀ t : TypeTable, t.ids.keys.Nodup ∧
      ∀ c, (t.entries c).Pairwise fun d e => compare d.1 e.1 = .lt := by
  refine ⟨fun a b => Std.compare_eq_iff_eq, fun a b => Std.OrientedCmp.eq_swap, ?_,
    fun a b => compare_of_category_ne, compare_function_eq_lt, TypeTable.get?_enterAll, ?_⟩
  · intro a b c hab hbc
    exact Std.TransCmp.lt_trans hab hbc
  · intro t
    exact ⟨Std.ExtTreeMap.nodup_keys, t.pairwise_entries⟩

/-- A vector comes in front of a function, and that in front of one with an argument more. -/
theorem order_total_functions :
    compare (vector ⟨.float 32, 4⟩) (function ⟨7, by decide⟩ [⟨9, by decide⟩]) =
        compare TypeCategory.vector TypeCategory.function ∧
      Id.ListedBefore [⟨9, by decide⟩] [⟨9, by decide⟩, ⟨2, by decide⟩] ∧
      compare (vector ⟨.float 32, 4⟩) (function ⟨7, by decide⟩ [⟨9, by decide⟩, ⟨2, by decide⟩]) =
        .lt := by
  obtain ⟨-, -, htrans, hcategory, hfunction, -⟩ := order_total
  have hargs : compare (function ⟨7, by decide⟩ [⟨9, by decide⟩])
      (function ⟨7, by decide⟩ [⟨9, by decide⟩, ⟨2, by decide⟩]) = .lt := by decide
  refine ⟨hcategory _ _ (by decide), ?_, htrans _ _ _ (by decide) hargs⟩
  rcases (hfunction _ _ _ _).mp hargs with hlt | ⟨-, h⟩
  · exact absurd hlt (by decide)
  · exact h

end TypeKey

end SpirvModule
