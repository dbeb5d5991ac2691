import SpirvModule.Id
import SpirvModule.Grammar.Enumerants

/-!
# Type keys

A key describes a type of one category completely. Scalars are part of a key,
as is the column of a matrix; every other constituent is named by its id. Two
declarations have equal keys exactly when they declare the same type.

* `TypeKey.category`: the categories, in order.
* `TypeKey.code`: a key as a list of numbers, category first, then field by field;
  keys are ordered as their codes are.
* `TypeKey.text`: a key as it stands in a message.
-/
namespace SpirvModule

/-- A type of single values. -/
inductive Scalar where
  | void
  | bool
  | int (width : Word) (signed : Bool)
  | float (width : Word)
  deriving DecidableEq

/-- `count` components of one scalar type. -/
structure VectorType where
  scalar : Scalar
  count : Word
  deriving DecidableEq

/-- `count` columns of one vector type. -/
structure MatrixType where
  column : VectorType
  count : Word
  deriving DecidableEq

/-- An image. `depth` is 0 for no depth image, 1 for one, 2 when it is not known; `sampled` is 0
when it is not known, 1 for use with a sampler, 2 for use without. -/
structure ImageType where
  sampledType : Scalar
  dim : Dim
  depth : Word
  arrayed : Bool
  multisampled : Bool
  sampled : Word
  format : ImageFormat
  deriving DecidableEq

/-- Kind of type that a key describes. -/
inductive TypeCategory where
  | scalar
  | vector
  | matrix
  | pointer
  | image
  | sampler
  | sampledImage
  | function
  deriving DecidableEq

/-- A type, up to declaration. -/
inductive TypeKey where
  | scalar (s : Scalar)
  | vector (v : VectorType)
  | matrix (m : MatrixType)
  | pointer (base : Id) (storage : StorageClass)
  | image (i : ImageType)
  | sampler
  | sampledImage (image : Id)
  | function (result : Id) (arguments : List Id)
  deriving DecidableEq

namespace Scalar

/-- Size in bytes of a value. -/
def size : Scalar → Nat
  | void => 0
  | bool => 4
  | int w _ | float w => w.toNat / 8

/-- The fields of a scalar as numbers. -/
def code : Scalar → List Nat
  | void => [0, 0, 0]
  | bool => [1, 0, 0]
  | int w s => [2, w.toNat, s.toNat]
  | float w => [3, w.toNat, 0]

def text : Scalar → String
  | void => "Void"
  | bool => "Bool"
  | int w s => s!"Int \x7b width: {w}, signed: {s} \x7d"
  | float w => s!"Float \x7b width: {w} \x7d"

theorem code_injective {a b : Scalar} (h : a.code = b.code) : a = b := by
  cases a <;> cases b <;> simp_all [code]
  · rename_i s _ t
    obtain ⟨hw, hs⟩ := h
    refine ⟨UInt32.toNat_inj.mp hw, ?_⟩
    cases s <;> cases t <;> simp_all
  · exact UInt32.toNat_inj.mp h

theorem length_code (s : Scalar) : s.code.length = 3 := by cases s <;> rfl

end Scalar

def VectorType.text (v : VectorType) : String :=
  s!"Vector \x7b scalar: {v.scalar.text}, count: {v.count} \x7d"

def MatrixType.text (m : MatrixType) : String :=
  s!"Matrix \x7b column: {m.column.text}, count: {m.count} \x7d"

def ImageType.text (i : ImageType) : String :=
  s!"Image \x7b sampled_type: {i.sampledType.text}, dim: {i.dim.name}, depth: {i.depth}, " ++
    s!"arrayed: {i.arrayed}, multisampled: {i.multisampled}, sampled: {i.sampled}, " ++
    s!"format: {i.format.name} \x7d"

namespace TypeCategory

/-- The categories, in order. -/
def all : List TypeCategory :=
  [.scalar, .vector, .matrix, .pointer, .image, .sampler, .sampledImage, .function]

/-- Place of a category in the order. -/
def index : TypeCategory → Nat
  | scalar => 0
  | vector => 1
  | matrix => 2
  | pointer => 3
  | image => 4
  | sampler => 5
  | sampledImage => 6
  | function => 7

/-- Categories are ordered by their place. -/
instance : Ord TypeCategory := ⟨fun a b => compare a.index b.index⟩

def name : TypeCategory → String
  | scalar => "Scalar"
  | vector => "Vector"
  | matrix => "Matrix"
  | pointer => "Pointer"
  | image => "Image"
  | sampler => "Sampler"
  | sampledImage => "SampledImage"
  | function => "Function"

end TypeCategory

namespace TypeKey

/-- The category of a key. -/
def category : TypeKey → TypeCategory
  | scalar _ => .scalar
  | vector _ => .vector
  | matrix _ => .matrix
  | pointer _ _ => .pointer
  | image _ => .image
  | sampler => .sampler
  | sampledImage _ => .sampledImage
  | function _ _ => .function

/-- The fields of a key as numbers. -/
def fields : TypeKey → List Nat
  | scalar s => s.code
  | vector v => v.scalar.code ++ [v.count.toNat]
  | matrix m => m.column.scalar.code ++ [m.column.count.toNat, m.count.toNat]
  | pointer base storage => [base.value.toNat, storage.value.toNat]
  | image i => i.sampledType.code ++ [i.dim.value.toNat, i.depth.toNat, i.arrayed.toNat,
      i.multisampled.toNat, i.sampled.toNat, i.format.value.toNat]
  | sampler => []
  | sampledImage i => [i.value.toNat]
  | function result arguments => (result :: arguments).map (·.value.toNat)

/-- A key as a list of numbers. -/
def code (k : TypeKey) : List Nat := k.category.index :: k.fields

/-- Keys are ordered as their codes: by category, then field by field. -/
instance : Ord TypeKey := ⟨fun a b => compare a.code b.code⟩

/-- A key as it stands in a message. -/
def text : TypeKey → String
  | scalar s => s!"Scalar({s.text})"
  | vector v => s!"Vector({v.text})"
  | matrix m => s!"Matrix({m.text})"
  | pointer base storage =>
    s!"Pointer(Pointer \x7b base: {base.fieldText}, storage: {storage.name} \x7d)"
  | image i => s!"Image({i.text})"
  | sampler => "Sampler(Sampler)"
  | sampledImage i => s!"SampledImage(SampledImage \x7b image: {i.fieldText} \x7d)"
  | function result arguments =>
    s!"Function(FunctionType \x7b return_type: {result.fieldText}, " ++
      "arguments: [" ++ String.intercalate ", " (arguments.map Id.fieldText) ++ "] \x7d)"

/-! ## The order of keys -/

theorem id_of_toNat {a b : Id} (h : a.value.toNat = b.value.toNat) : a = b :=
  Id.ext_value (UInt32.toNat_inj.mp h)

theorem enumerant_of_toNat {r : List (Nat × Nat)} {a b : Enumerant r}
    (h : a.value.toNat = b.value.toNat) : a = b := by
  cases a; cases b; cases UInt32.toNat_inj.mp h; rfl

theorem bool_of_toNat {a b : Bool} (h : a.toNat = b.toNat) : a = b := by
  cases a <;> cases b <;> simp_all

theorem scalar_append {a b : Scalar} {u v : List Nat} (h : a.code ++ u = b.code ++ v) :
    a = b ∧ u = v := by
  have := List.append_inj h (by rw [Scalar.length_code, Scalar.length_code])
  exact ⟨Scalar.code_injective this.1, this.2⟩

/-- A key is determined by its code. -/
theorem code_injective {a b : TypeKey} (h : a.code = b.code) : a = b := by
  cases a <;> cases b <;> simp only [code, category, TypeCategory.index, fields, List.cons.injEq,
    reduceCtorEq, false_and, true_and, Nat.reduceEqDiff] at h
  · rw [Scalar.code_injective h]
  · rename_i v w
    obtain ⟨h1, h2⟩ := scalar_append h
    cases v; cases w
    simp only [List.cons.injEq, and_true] at h2
    cases h1; cases UInt32.toNat_inj.mp h2; rfl
  · rename_i m n
    obtain ⟨h1, h2⟩ := scalar_append h
    obtain ⟨⟨_, _⟩, _⟩ := m
    obtain ⟨⟨_, _⟩, _⟩ := n
    simp only [List.cons.injEq, and_true] at h2
    cases h1; cases UInt32.toNat_inj.mp h2.1; cases UInt32.toNat_inj.mp h2.2; rfl
  · rw [id_of_toNat h.1, enumerant_of_toNat h.2.1]
  · rename_i i j
    obtain ⟨h1, h2⟩ := scalar_append h
    cases i; cases j
    simp only [List.cons.injEq, and_true] at h2
    obtain ⟨h2, h3, h4, h5, h6, h7⟩ := h2
    cases h1; cases enumerant_of_toNat h2; cases UInt32.toNat_inj.mp h3; cases bool_of_toNat h4
    cases bool_of_toNat h5; cases UInt32.toNat_inj.mp h6; cases enumerant_of_toNat h7; rfl
  · rfl
  · rw [id_of_toNat h.1]
  · rename_i r xs s ys
    simp only [List.map_cons, List.cons.injEq] at h
    rw [id_of_toNat h.1, List.map_inj_right (fun _ _ => id_of_toNat) |>.mp h.2]

instance : Std.TransOrd TypeKey := inferInstanceAs (Std.TransCmp (compareOn code))

instance : Std.LawfulEqOrd TypeKey where
  eq_of_compare {a b} h := code_injective
    (Std.compare_eq_iff_eq.mp (show compare a.code b.code = .eq from h))

end TypeKey

end SpirvModule
