import SpirvModule.Index.Ledger
import SpirvModule.Types.Table

/-!
# The index of a module

The index answers questions about a module without reading its words again:
where ids are defined, which facts are told, which types are declared. An
instruction enters it with `register` and leaves it with `unregister`.

* `Index.register`, `Index.unregister`, `Index.relocate`: keeping the index in step.
* `Index.name?`, `Index.binding`, `Index.entryPoint?`, …: asking it.
-/
namespace SpirvModule

/-- Whether structs with the same members share an id. -/
inductive StructPolicy where
  | never
  | byMembers
  deriving DecidableEq

/-- What an instruction adds to the index besides the place of its id. -/
inductive Contribution where
  | fact (f : Fact)
  | struct (id : Id) (members : List Id)
  | type (id : Id) (key : TypeKey)
  | nothing
  deriving DecidableEq

/-- The contribution of an instruction, when the types in `t` are declared. -/
def Contribution.of (t : TypeTable) (inst : Instruction) : Contribution :=
  match Fact.ofInstruction? inst with
  | some f => .fact f
  | none =>
    match inst.resultId? with
    | none => .nothing
    | some i =>
      if inst.opcode? = some .opTypeStruct then
        .struct i ((inst.operands.drop 1).filterMap Id.ofWord?)
      else match t.decode inst with
        | some k => .type i k
        | none => .nothing

/-- What is known of a module: the offset where each id is defined, the facts that instructions
tell, and the declared types. -/
structure Index where
  definitions : Std.ExtTreeMap Id Nat
  ledger : Ledger
  types : TypeTable

namespace Index

/-- Nothing is known. -/
def empty : Index := ⟨∅, .empty, .empty⟩

/-- Enters an instruction. The last definition of an id counts. -/
def register (policy : StructPolicy) (x : Index) (inst : Instruction) : Index :=
  let x : Index := match inst.resultId? with
    | none => x
    | some i => { x with definitions := x.definitions.insert i inst.offset }
  match Contribution.of x.types inst with
  | .fact f => { x with ledger := Ledger.insert inst.offset f x.ledger }
  | .struct i members =>
    if policy = .byMembers then { x with types := x.types.insertStruct members i } else x
  | .type i k => { x with types := x.types.insert k i }
  | .nothing => x

/-- Takes an instruction out. Its id loses its place only if that is the place of the instruction.
An instruction that no longer reads as a type takes the key of its id along all the same. -/
def unregister (x : Index) (inst : Instruction) : Index :=
  let x : Index := match inst.resultId? with
    | none => x
    | some i =>
      if x.definitions[i]? = some inst.offset then
        { x with definitions := x.definitions.erase i }
      else x
  match Contribution.of x.types inst with
  | .fact f => { x with ledger := Ledger.erase inst.offset f.subject x.ledger }
  | .struct i members => { x with types := x.types.removeStruct members i }
  | .type i _ => { x with types := x.types.remove i }
  | .nothing =>
    match inst.resultId? with
    | none => x
    | some i => { x with types := x.types.remove i }

/-- Moves everything along when the `removed` words at `offset` give way to `added` words. -/
def relocate (offset removed added : Nat) (x : Index) : Index :=
  { x with
    definitions := x.definitions.filterMap fun _ o => Ledger.moved? offset removed added o
    ledger := Ledger.relocate offset removed added x.ledger }

/-- The index of some instructions, entered one after the other. -/
def ofInstructions (policy : StructPolicy) (insts : List Instruction) : Index :=
  insts.foldl (register policy) empty

/-! ## Questions -/

/-- Offset of the instruction that defines `i`. -/
def definition? (x : Index) (i : Id) : Option Nat := x.definitions[i]?

/-- Offset of the first declaration of `f` as an entry point. -/
def entryPoint? (x : Index) (f : Id) : Option Nat :=
  x.ledger.entries[f]?.bind fun d => d.head?.map (·.1)

/-- Binding of `i`. -/
def binding (x : Index) (i : Id) : Binding :=
  (x.ledger.bindings[i]?.map BindingDecorations.binding).getD Binding.unbound

/-- The ids with both a descriptor set and a slot, in order, with their bindings. -/
def bindings (x : Index) : List (Id × Binding) :=
  (x.ledger.bindings.toList.filter (·.2.isComplete)).map fun e => (e.1, e.2.binding)

/-- First name of `i`, or of one of its members. -/
def name? (x : Index) (i : Id) (member : Option Word) : Option String :=
  x.ledger.names[NameKey.mk i member]?.bind Declarations.first?

/-- The lowest id that has any name equal to `s`. -/
def named? (x : Index) (s : String) : Option Id :=
  ((x.ledger.names.toList.filter fun e => e.1.member.isNone && e.2.any (·.2 = s)).map
    (·.1.target)).min?

/-- The id with which the instruction set `s` is first imported. -/
def imported? (x : Index) (s : String) : Option Id :=
  x.ledger.imports[s]?.bind Declarations.first?

/-- The highest id that is defined. -/
def highestId? (x : Index) : Option Id := x.definitions.keys.getLast?

end Index

end SpirvModule
