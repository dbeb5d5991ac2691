import SpirvModule.Word
import Std.Data.ExtTreeMap

/-!
# Identifiers

An `Id` names a type, constant, variable, function or label. Zero is never an
identifier, so the word an id is written as always leads back to it.
-/
namespace SpirvModule

/-- Identifier within a module. -/
structure Id where
  value : Word
  value_ne_zero : value ≠ 0
  deriving DecidableEq

namespace Id

/-- The identifier written as `w`, unless `w` is zero. -/
def ofWord? (w : Word) : Option Id :=
  if h : w ≠ 0 then some ⟨w, h⟩ else none

/-- The smallest identifier. -/
def one : Id := ⟨1, by decide⟩

/-- The next larger identifier; there is none above the largest word. -/
def succ? (i : Id) : Option Id := ofWord? (i.value + 1)

/-- Identifiers are ordered by number. -/
instance : Ord Id := ⟨fun a b => compare a.value b.value⟩

instance : LE Id := ⟨fun a b => a.value ≤ b.value⟩

instance (a b : Id) : Decidable (a ≤ b) := inferInstanceAs (Decidable (a.value ≤ b.value))

instance : Max Id := ⟨fun a b => if a ≤ b then b else a⟩

instance : Min Id := ⟨fun a b => if a ≤ b then a else b⟩

/-- An identifier as it stands in a message. -/
def text (i : Id) : String := "%" ++ toString i.value

/-- An identifier as it stands inside the text of a type key. -/
def fieldText (i : Id) : String := "Id(" ++ toString i.value ++ ")"

theorem ext_value {a b : Id} (h : a.value = b.value) : a = b := by
  cases a; cases b; cases h; rfl

@[simp] theorem ofWord?_value (i : Id) : ofWord? i.value = some i := by
  simp [ofWord?, i.value_ne_zero]

theorem ofWord?_eq_some {w : Word} {i : Id} : ofWord? w = some i ↔ i.value = w := by
  constructor
  · intro h
    unfold ofWord? at h
    split at h <;> simp_all
    subst h; rfl
  · rintro rfl
    exact ofWord?_value i

instance : Std.TransOrd Id := inferInstanceAs (Std.TransCmp (compareOn value))

instance : Std.LawfulEqOrd Id where
  eq_of_compare {a b} h :=
    ext_value (Std.compare_eq_iff_eq.mp (show compare a.value b.value = .eq from h))

end Id

end SpirvModule
