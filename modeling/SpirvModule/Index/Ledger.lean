import SpirvModule.Index.Fact

/-!
# The ledger

The ledger keeps what instructions tell in four tables: entry points, bindings, names
and imports. Under one key several things may be told. They are kept with the offsets of
the instructions that tell them, in the order of offsets, so that it does not matter in
which order they were recorded. A key goes with the last thing that is told under it.

* `Declarations`: what is told under one key.
* `Table.enter`, `Table.reduce`, `Table.reduceAll`: tables that drop keys with nothing
  under them.
* `Ledger.insert`, `Ledger.erase`, `Ledger.relocate`: recording, forgetting, moving words.
-/
namespace SpirvModule

/-- Where something at offset `o` stands after the `removed` words at `offset` gave way to `added`
words; nowhere if it stood among the removed ones. -/
def Ledger.moved? (offset removed added o : Nat) : Option Nat :=
  if o < offset then some o
  else if o < offset + removed then none
  else some (o - removed + added)

/-- Descriptor set and slot of a resource. -/
structure Binding where
  set : Word
  slot : Word
  deriving DecidableEq

namespace Binding

/-- Slot of a resource that is bound to none. -/
def unboundSlot : Word := 0xFFFFFFFF

/-- The binding of a resource without any decoration. -/
def unbound : Binding := ⟨0, unboundSlot⟩

def isBound (b : Binding) : Bool := b.slot ≠ unboundSlot

/-- A binding as it stands in a message. -/
def text (b : Binding) : String := s!"Binding \x7b set: {b.set}, binding: {b.slot} \x7d"

end Binding

/-! ## What is told under one key -/

/-- What may stand under a key of a table, as long as it is not empty. -/
class Emptiable (δ : Type) extends Inhabited δ where
  isEmpty : δ → Bool
  isEmpty_iff (d : δ) : isEmpty d = true ↔ d = default

instance {α : Type} : Emptiable (List α) := ⟨List.isEmpty, fun _ => List.isEmpty_iff⟩

/-- Values with the offsets of the instructions that tell them, in the order of offsets. -/
abbrev Declarations (α : Type) := List (Nat × α)

namespace Declarations

variable {α : Type}

/-- Records that the instruction at `offset` tells `v`. What was told there gives way. -/
def insert (offset : Nat) (v : α) : Declarations α → Declarations α
  | [] => [(offset, v)]
  | (o, w) :: r =>
    if o < offset then (o, w) :: insert offset v r
    else if o = offset then (offset, v) :: r
    else (offset, v) :: (o, w) :: r

/-- Forgets what the instruction at `offset` tells. -/
def erase (offset : Nat) (d : Declarations α) : Declarations α := d.filter fun e => e.1 ≠ offset

/-- Moves the offsets along when the `removed` words at `offset` give way to `added` words. What
stood among the removed ones is forgotten. -/
def relocate (offset removed added : Nat) (d : Declarations α) : Declarations α :=
  d.filterMap fun e => (Ledger.moved? offset removed added e.1).map (·, e.2)

/-- The value that holds. -/
def first? (d : Declarations α) : Option α := d.head?.map (·.2)

end Declarations

/-- The descriptor sets and slots that one id is decorated with. -/
structure BindingDecorations where
  sets : Declarations Word
  slots : Declarations Word
  deriving DecidableEq, Inhabited

namespace BindingDecorations

instance : Emptiable BindingDecorations where
  isEmpty d := d.sets.isEmpty && d.slots.isEmpty
  isEmpty_iff d := by
    cases d
    rw [Bool.and_eq_true, List.isEmpty_iff, List.isEmpty_iff]
    exact BindingDecorations.mk.injEq .. ▸ Iff.rfl

/-- The binding that holds; a part that no decoration gives is as in `Binding.unbound`. -/
def binding (d : BindingDecorations) : Binding :=
  ⟨(Declarations.first? d.sets).getD Binding.unbound.set,
    (Declarations.first? d.slots).getD Binding.unbound.slot⟩

/-- Changes the descriptor sets. -/
def onSets (f : Declarations Word → Declarations Word) (d : BindingDecorations) :
    BindingDecorations := { d with sets := f d.sets }

/-- Changes the slots. -/
def onSlots (f : Declarations Word → Declarations Word) (d : BindingDecorations) :
    BindingDecorations := { d with slots := f d.slots }

/-- Whether there is both a descriptor set and a slot. -/
def isComplete (d : BindingDecorations) : Bool := !d.sets.isEmpty && !d.slots.isEmpty

end BindingDecorations

/-! ## Tables -/

namespace Table

variable {κ δ : Type} [Ord κ] [Std.TransOrd κ] [Emptiable δ]

/-- Changes what stands under a key, which is entered if it is not there. -/
def enter (k : κ) (f : δ → δ) (m : Std.ExtTreeMap κ δ) : Std.ExtTreeMap κ δ :=
  m.alter k fun d? => some (f (d?.getD default))

/-- What is left of something that stands under a key. -/
def left? (d : δ) : Option δ := if Emptiable.isEmpty d then none else some d

/-- Changes what stands under a key if it is there, and drops the key if nothing is left. -/
def reduce (k : κ) (f : δ → δ) (m : Std.ExtTreeMap κ δ) : Std.ExtTreeMap κ δ :=
  m.alter k fun d? => d?.bind fun d => left? (f d)

/-- Changes what stands under every key, and drops the keys under which nothing is left. -/
def reduceAll (f : δ → δ) (m : Std.ExtTreeMap κ δ) : Std.ExtTreeMap κ δ :=
  m.filterMap fun _ d => left? (f d)

end Table

/-- What may have a name: an id, or one of its members. -/
structure NameKey where
  target : Id
  member : Option Word
  deriving DecidableEq

namespace NameKey

instance : Ord NameKey := ⟨compareLex (compareOn target) (compareOn member)⟩

instance : Std.TransOrd NameKey :=
  inferInstanceAs (Std.TransCmp (compareLex (compareOn target) (compareOn member)))

instance : Std.LawfulEqOrd NameKey where
  eq_of_compare {a b} h := by
    have h : (compare a.target b.target).then (compare a.member b.member) = .eq := h
    obtain ⟨ht, hm⟩ := Ordering.then_eq_eq.mp h
    cases a
    cases b
    cases Std.LawfulEqOrd.eq_of_compare ht
    cases Std.LawfulEqOrd.eq_of_compare hm
    rfl

end NameKey

/-! ## The tables of a module -/

/-- What is told of a module, by entry functions, decorated ids, ids and members with names, and
names of instruction sets. -/
structure Ledger where
  entries : Std.ExtTreeMap Id (Declarations Unit)
  bindings : Std.ExtTreeMap Id BindingDecorations
  names : Std.ExtTreeMap NameKey (Declarations String)
  imports : Std.ExtTreeMap String (Declarations Id)

namespace Ledger

/-- Nothing is told. -/
def empty : Ledger := ⟨∅, ∅, ∅, ∅⟩

/-- Records that the instruction at `offset` tells `f`. -/
def insert (offset : Nat) (f : Fact) (x : Ledger) : Ledger :=
  match f with
  | .set t v =>
    { x with bindings := Table.enter t (.onSets (Declarations.insert offset v)) x.bindings }
  | .slot t v =>
    { x with bindings := Table.enter t (.onSlots (Declarations.insert offset v)) x.bindings }
  | .name t m s => { x with names := Table.enter ⟨t, m⟩ (Declarations.insert offset s) x.names }
  | .extInstImport n i =>
    { x with imports := Table.enter n (Declarations.insert offset i) x.imports }
  | .entry f => { x with entries := Table.enter f (Declarations.insert offset ()) x.entries }

/-- Forgets what the instruction at `offset` tells about `s`. -/
def erase (offset : Nat) (s : Subject) (x : Ledger) : Ledger :=
  match s with
  | .set t => { x with bindings := Table.reduce t (.onSets (Declarations.erase offset)) x.bindings }
  | .slot t =>
    { x with bindings := Table.reduce t (.onSlots (Declarations.erase offset)) x.bindings }
  | .name t m => { x with names := Table.reduce ⟨t, m⟩ (Declarations.erase offset) x.names }
  | .extInstImport n => { x with imports := Table.reduce n (Declarations.erase offset) x.imports }
  | .entry f => { x with entries := Table.reduce f (Declarations.erase offset) x.entries }

/-- Moves everything along when the `removed` words at `offset` give way to `added` words. -/
def relocate (offset removed added : Nat) (x : Ledger) : Ledger where
  entries := Table.reduceAll (Declarations.relocate offset removed added) x.entries
  bindings := x.bindings |> Table.reduceAll fun d =>
    (d.onSets (Declarations.relocate offset removed added)).onSlots
      (Declarations.relocate offset removed added)
  names := Table.reduceAll (Declarations.relocate offset removed added) x.names
  imports := Table.reduceAll (Declarations.relocate offset removed added) x.imports

end Ledger

end SpirvModule
