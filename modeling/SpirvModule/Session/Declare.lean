import SpirvModule.Session.Edit
import SpirvModule.Immediate

/-!
# Declarations

Edits that put an instruction of a certain kind at the end of its section. Types
and imports that are declared already are not declared again, whatever state the
session is in.

* `Edit.declareType`: the id of a type, declared if need be.
* `Edit.addConstantImmediate`, `Edit.addSpecConstantImmediate`: a constant and its type.
* `Edit.addFunction`: all instructions of a function.
-/
namespace SpirvModule

/-- The ids that a key names and that have to be defined, in the order in which they are looked
for. -/
def TypeKey.references : TypeKey → List Id
  | .pointer base _ => [base]
  | .sampledImage i => [i]
  | .function result arguments => result :: arguments
  | _ => []

namespace Edit

/-- The first of some ids that no instruction defines. -/
def firstUndefined? (s : Session) (ids : List Id) : Option Id :=
  ids.find? fun i => (s.locate? i).isNone

/-- Appends `op`, which has to define an id, and answers that id. -/
def appendDefining (sec : Section) (op : Operation) : Edit Id := do
  match ← append sec op with
  | some i => return i
  | none => violate (.noResultId op.opcode)

/-- Refuses an operation that is at home in another section. -/
def checkSection (op : Operation) (sec : Section) : Edit Unit := do
  if ¬ op.opcode.home?.all (· = sec) then
    violate (.misplaced op.opcode ((← get).sectionStop sec))

/-- The id of the type with key `k`, which is declared at the end of the types if it is not yet
declared. Its constituents have to be declared. Afterwards the new id has to be found under `k`. -/
def declareType (k : TypeKey) : Edit Id := do
  match (← get).getType? k with
  | some i => return i
  | none =>
    ensureNoBracket
    let s ← get
    match firstUndefined? s k.references with
    | some i => violate (.missingDependency k (.id i))
    | none =>
      match s.index.types.declaration k s.fresh with
      | .error missing => violate (.missingDependency k missing)
      | .ok op =>
        let i ← newId
        let _ ← append .types (op.setResultId i)
        if (← get).getType? k ≠ some i then throw .crash
        return i

/-- The id of a struct with the given members. Under the policy `byMembers` it is shared with an
earlier struct with the same members. -/
def declareStruct (members : List Id) : Edit Id := do
  let s ← get
  match (if s.policy = .byMembers then s.index.types.getStruct? members else none) with
  | some i => return i
  | none =>
    ensureNoBracket
    match firstUndefined? (← get) members with
    | some i => violate (.undeclaredMember i)
    | none =>
      let i ← newId
      let _ ← append .types (.typeStruct i members)
      return i

/-- Adds a type. -/
def addType (op : Operation) : Edit Id := do
  checkSection op .types
  appendDefining .types op

/-- Adds a constant. -/
def addConstant (op : Operation) : Edit Id := do
  checkSection op .types
  appendDefining .types op

/-- Adds a global variable. -/
def addVariable (op : Operation) : Edit Id := do
  if op.opcode ≠ .opVariable then violate (.misplaced op.opcode ((← get).sectionStop .types))
  appendDefining .types op

/-- Adds a constant that holds `v`, and its type if need be. Constants are never shared. -/
def addConstantImmediate (v : Immediate) : Edit Id := do
  let type ← declareType (.scalar v.type.scalar)
  let i ← newId
  addConstant (.constant type i v.words)

/-- Adds a decoration. -/
def addDecoration (op : Operation) : Edit Unit := do
  checkSection op .annotations
  let _ ← append .annotations op

/-- Adds a constant that holds `v` until it is overridden under the number `specId`. -/
def addSpecConstantImmediate (v : Immediate) (specId : Word) : Edit Id := do
  let type ← declareType (.scalar v.type.scalar)
  let i ← newId
  let i ← addConstant (.specConstant type i v.words)
  addDecoration (.decorate i .specId [specId])
  return i

/-- Asks for a capability. -/
def addCapability (c : Capability) : Edit Unit := do
  let _ ← append .capabilities (.capability c)

/-- Asks for an extension. -/
def addExtension (name : String) : Edit Unit := do
  let _ ← append .extensions (.extension name)

/-- The id with which the instruction set `name` is imported, imported if need be. -/
def importExtInst (name : String) : Edit Id := do
  match (← get).index.imported? name with
  | some i => return i
  | none =>
    ensureNoBracket
    let i ← newId
    appendDefining .extInstImports (.extInstImport i name)

/-- Adds an execution mode. -/
def addExecutionMode (op : Operation) : Edit Unit := do
  checkSection op .executionModes
  let _ ← append .executionModes op

/-- Marks a struct as the layout of a storage buffer, in the way that goes with the class that
storage buffers have in the module. -/
def decorateStorageBuffer (i : Id) : Edit Unit := do
  addDecoration (.decorate i
    (if (← get).storageBufferClass = .storageBuffer then .block else .bufferBlock) [])

/-- Names `i`. An earlier name stays the one that is found. -/
def setName (i : Id) (text : String) : Edit Unit := do
  let _ ← append .debugNames (.name i text)

/-- Names a member of the struct `i`. -/
def setMemberName (i : Id) (member : Word) (text : String) : Edit Unit := do
  let _ ← append .debugNames (.memberName i member text)

/-- Adds the instructions of a function. All are checked before the first is added. -/
def addFunction (ops : List Operation) : Edit Unit := do
  ops.forM fun op => checkSection op .functions
  ops.forM fun op => do
    let _ ← append .functions op

end Edit

end SpirvModule
