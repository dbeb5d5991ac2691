import SpirvModule.Types.Key
import SpirvModule.Instruction

/-!
# Declared types

The table of declared types leads from keys to ids and back. The first
declaration of a key stays the one that is found; a struct is found by its
members, if it is recorded at all.

* `TypeTable.declaration`: the operation that declares a key.
* `TypeTable.decode`: the key that an instruction declares.
* `TypeTable.insert`, `TypeTable.remove`: record and forget a declaration.
-/
namespace SpirvModule

/-- A constituent that a key needs and that is not declared. -/
inductive MissingType where
  | scalar (s : Scalar)
  | vector (v : VectorType)
  | id (i : Id)
  deriving DecidableEq

/-- A missing constituent as it stands in a message. -/
def MissingType.text : MissingType → String
  | .scalar s => s!"Scalar({s.text})"
  | .vector v => s!"Vector({v.text})"
  | .id i => s!"Id({i.fieldText})"

/-- The declared types of a module. -/
structure TypeTable where
  ids : Std.ExtTreeMap TypeKey Id
  keys : Std.ExtTreeMap Id TypeKey
  structs : Std.ExtTreeMap (List Id) Id

namespace TypeTable

/-- No type is declared. -/
def empty : TypeTable := ⟨∅, ∅, ∅⟩

/-- The id a key was declared with. -/
def get? (t : TypeTable) (k : TypeKey) : Option Id := t.ids[k]?

/-- The key an id was declared with. -/
def keyOf? (t : TypeTable) (i : Id) : Option TypeKey := t.keys[i]?

/-- Records that `i` declares `k`, unless `k` is declared already. -/
def insert (t : TypeTable) (k : TypeKey) (i : Id) : TypeTable :=
  if (t.get? k).isSome then t
  else { t with ids := t.ids.insert k i, keys := t.keys.insert i k }

/-- Forgets `i`, and its key if that leads to `i`. -/
def remove (t : TypeTable) (i : Id) : TypeTable :=
  match t.keyOf? i with
  | none => t
  | some k =>
    { t with
      ids := if t.get? k = some i then t.ids.erase k else t.ids
      keys := t.keys.erase i }

/-- The struct with these members. -/
def getStruct? (t : TypeTable) (members : List Id) : Option Id := t.structs[members]?

/-- Records the struct `i`, unless one with its members is recorded already. -/
def insertStruct (t : TypeTable) (members : List Id) (i : Id) : TypeTable :=
  if (t.getStruct? members).isSome then t else { t with structs := t.structs.insert members i }

/-- Forgets the struct `i`, if its members lead to it. -/
def removeStruct (t : TypeTable) (members : List Id) (i : Id) : TypeTable :=
  if t.getStruct? members = some i then { t with structs := t.structs.erase members } else t

/-- The declared types of a category, in the order of their keys. -/
def entries (t : TypeTable) (c : TypeCategory) : List (TypeKey × Id) :=
  t.ids.toList.filter fun e => e.1.category = c

/-- The id of a scalar. -/
def scalarId (t : TypeTable) (s : Scalar) : Except MissingType Id :=
  match t.get? (.scalar s) with
  | some i => .ok i
  | none => .error (.scalar s)

/-- The scalar that an id declares. -/
def scalarOf? (t : TypeTable) (i : Id) : Option Scalar :=
  match t.keyOf? i with
  | some (.scalar s) => some s
  | _ => none

/-- The vector that an id declares. -/
def vectorOf? (t : TypeTable) (i : Id) : Option VectorType :=
  match t.keyOf? i with
  | some (.vector v) => some v
  | _ => none

/-- The operation that declares `k` with the id `i`. It fails when a scalar or the column of a
matrix is not declared. -/
def declaration (t : TypeTable) (k : TypeKey) (i : Id) : Except MissingType Operation :=
  match k with
  | .scalar .void => .ok ⟨.opTypeVoid, [i.value]⟩
  | .scalar .bool => .ok ⟨.opTypeBool, [i.value]⟩
  | .scalar (.int width signed) => .ok ⟨.opTypeInt, [i.value, width, if signed then 1 else 0]⟩
  | .scalar (.float width) => .ok ⟨.opTypeFloat, [i.value, width]⟩
  | .vector v =>
    match t.scalarId v.scalar with
    | .error e => .error e
    | .ok component => .ok ⟨.opTypeVector, [i.value, component.value, v.count]⟩
  | .matrix m =>
    match t.get? (.vector m.column) with
    | none => .error (.vector m.column)
    | some column => .ok ⟨.opTypeMatrix, [i.value, column.value, m.count]⟩
  | .pointer base storage => .ok ⟨.opTypePointer, [i.value, storage.value, base.value]⟩
  | .image g =>
    match t.scalarId g.sampledType with
    | .error e => .error e
    | .ok sampledType =>
      .ok ⟨.opTypeImage, [i.value, sampledType.value, g.dim.value, g.depth,
        if g.arrayed then 1 else 0, if g.multisampled then 1 else 0, g.sampled, g.format.value]⟩
  | .sampler => .ok ⟨.opTypeSampler, [i.value]⟩
  | .sampledImage g => .ok ⟨.opTypeSampledImage, [i.value, g.value]⟩
  | .function result arguments =>
    .ok ⟨.opTypeFunction, i.value :: result.value :: arguments.map Id.value⟩

/-- The key of an integer type with the given operands. -/
def intKey : List Word → Option TypeKey
  | _ :: width :: signed :: _ => some (.scalar (.int width (signed ≠ 0)))
  | _ => none

/-- The key of a float type. One with an encoding has none. -/
def floatKey : List Word → Option TypeKey
  | [_, width] => some (.scalar (.float width))
  | _ => none

def vectorKey (t : TypeTable) : List Word → Option TypeKey
  | _ :: scalar :: count :: _ => do
    let s ← t.scalarOf? (← Id.ofWord? scalar)
    return .vector ⟨s, count⟩
  | _ => none

def matrixKey (t : TypeTable) : List Word → Option TypeKey
  | _ :: column :: count :: _ => do
    let v ← t.vectorOf? (← Id.ofWord? column)
    return .matrix ⟨v, count⟩
  | _ => none

def pointerKey : List Word → Option TypeKey
  | _ :: storage :: base :: _ => do
    let c ← Enumerant.ofWord? storage
    let i ← Id.ofWord? base
    return .pointer i c
  | _ => none

/-- The key of an image type. One with an access qualifier has none. -/
def imageKey (t : TypeTable) : List Word → Option TypeKey
  | [_, sampledType, dim, depth, arrayed, multisampled, sampled, format] => do
    let s ← t.scalarOf? (← Id.ofWord? sampledType)
    let d ← Enumerant.ofWord? dim
    let f ← Enumerant.ofWord? format
    return .image ⟨s, d, depth, arrayed ≠ 0, multisampled ≠ 0, sampled, f⟩
  | _ => none

def sampledImageKey : List Word → Option TypeKey
  | _ :: image :: _ => (Id.ofWord? image).map .sampledImage
  | _ => none

def functionKey : List Word → Option TypeKey
  | _ :: result :: arguments => do
    let r ← Id.ofWord? result
    let a ← arguments.mapM Id.ofWord?
    return .function r a
  | _ => none

/-- The key that an instruction declares. There is none for an instruction that declares no type
with a key, nor for one whose constituents are not known. -/
def decode (t : TypeTable) (inst : Instruction) : Option TypeKey :=
  match inst.opcode? with
  | none => none
  | some op =>
    if op = .opTypeVoid then some (.scalar .void)
    else if op = .opTypeBool then some (.scalar .bool)
    else if op = .opTypeInt then intKey inst.operands
    else if op = .opTypeFloat then floatKey inst.operands
    else if op = .opTypeVector then t.vectorKey inst.operands
    else if op = .opTypeMatrix then t.matrixKey inst.operands
    else if op = .opTypePointer then pointerKey inst.operands
    else if op = .opTypeImage then t.imageKey inst.operands
    else if op = .opTypeSampler then some .sampler
    else if op = .opTypeSampledImage then sampledImageKey inst.operands
    else if op = .opTypeFunction then functionKey inst.operands
    else none

end TypeTable

end SpirvModule
