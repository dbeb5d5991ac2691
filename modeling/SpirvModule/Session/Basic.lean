import SpirvModule.Index.Basic
import SpirvModule.EditError

/-!
# Sessions

A session edits one module in place. It holds the words and everything derived
from them: the layout, the index and the bound of the ids. Misuse is a breach of
contract; from then on the session is aborted and refuses every edit.

* `Session.ofWords`: opens a module. Only the bound in its header may change.
* `Session.create`: starts a module that is nothing but a header.
* `Session.instructions`, `Session.binding`, …: questions about the module.
-/
namespace SpirvModule

/-- An instruction taken out of the index while its operands are edited. -/
structure Bracket where
  offset : Nat
  wordCount : Nat
  deriving DecidableEq

/-- A module being edited. `fresh` is the id that is handed out next, and its number the bound of
the module; `breach` is the breach of contract that aborted the session. -/
structure Session where
  words : List Word
  policy : StructPolicy
  version : Version
  fresh : Id
  layout : Layout
  index : Index
  storageBufferClass : StorageClass
  bracket : Option Bracket
  breach : Option EditError

namespace Session

/-- Extension that allows the class of storage buffers before version 1.3. -/
def storageBufferExtension : String := "SPV_KHR_storage_buffer_storage_class"

/-- Place of the bound in the header. -/
def boundWord : Nat := 3

/-- The bound that stands in the header. Every id that was handed out is smaller. -/
def bound (s : Session) : Word := s.fresh.value

/-- Whether the contract was breached. -/
def aborted (s : Session) : Bool := s.breach.isSome

/-- The instructions of a section, up to the first that is malformed. -/
def instructions (s : Session) (sec : Section) : List Instruction :=
  instructionsIn s.words (s.layout.span sec)

/-- The instruction at `offset`. -/
def instruction? (s : Session) (offset : Nat) : Option Instruction :=
  Instruction.at? s.words offset

/-- Offset where a section starts. -/
def sectionStart (s : Session) (sec : Section) : Nat := (s.layout.span sec).start

/-- Offset where a section stops. -/
def sectionStop (s : Session) (sec : Section) : Nat := (s.layout.span sec).stop

/-- Whether some instructions ask for the extension `name`. -/
def namesExtension (name : String) (insts : List Instruction) : Bool :=
  insts.any fun i => i.opcode? = some .opExtension && i.stringOperand? 0 = some name

/-- Whether the module asks for the extension `name`. -/
def hasExtension (s : Session) (name : String) : Bool :=
  namesExtension name (s.instructions .extensions)

/-- Whether the module asks for the capability `c`. -/
def hasCapability (s : Session) (c : Capability) : Bool :=
  (s.instructions .capabilities).any fun i =>
    i.opcode? = some .opCapability && i.operands[0]? = some c.value

/-! ## Opening -/

/-- The id to hand out first in a module with bound `bound` whose highest id is `highest`. -/
def firstFresh? (bound : Word) (highest : Option Id) : Option Id :=
  let least := (Id.ofWord? bound).getD .one
  match highest with
  | none => some least
  | some h => if h.value < least.value then some least else h.succ?

/-- The class of storage buffers in a module. -/
def classOf (v : Version) (hasExtension : Bool) : StorageClass :=
  if v.atLeast 1 3 || hasExtension then .storageBuffer else .uniform

/-- Opens the module `ws`. -/
def ofWords (policy : StructPolicy) (ws : List Word) : Except EditError Session :=
  match ModuleView.parse ws with
  | .error e => .error (.load e)
  | .ok v =>
    let insts (sec : Section) := instructionsIn ws (v.layout.span sec)
    let index := Index.ofInstructions policy (Section.all.flatMap insts)
    match firstFresh? v.bound index.highestId? with
    | none => .error .idsExhausted
    | some fresh => .ok {
        words := ws.set boundWord fresh.value
        policy := policy
        version := v.version
        fresh := fresh
        layout := v.layout
        index := index
        storageBufferClass :=
          classOf v.version (namesExtension storageBufferExtension (insts .extensions))
        bracket := none
        breach := none }

/-- Starts a module with nothing but a header. -/
def create (policy : StructPolicy) (v : Version) (generator : Word) : Session where
  words := [magic, v.word, generator, Id.one.value, 0]
  policy := policy
  version := v
  fresh := .one
  layout := .empty headerWords
  index := .empty
  storageBufferClass := classOf v false
  bracket := none
  breach := none

/-! ## Questions -/

/-- Offset of the instruction that defines `i`; for an entry point, of its function. -/
def locate? (s : Session) (i : Id) : Option Nat := s.index.definition? i

/-- Offset of the instruction that declares the function `i` an entry point. -/
def locateEntry? (s : Session) (i : Id) : Option Nat := s.index.entryPoint? i

/-- The id that the type with key `k` is declared with. -/
def getType? (s : Session) (k : TypeKey) : Option Id := s.index.types.get? k

/-- The key of the type that is declared as `i`. -/
def typeKey? (s : Session) (i : Id) : Option TypeKey := s.index.types.keyOf? i

/-- The declared types of a category, in the order of their keys. -/
def declaredTypes (s : Session) (c : TypeCategory) : List (TypeKey × Id) := s.index.types.entries c

/-- Descriptor set and slot of the resource `i`. -/
def binding (s : Session) (i : Id) : Binding := s.index.binding i

/-- The resources with both a descriptor set and a slot, in the order of their ids. -/
def bindings (s : Session) : List (Id × Binding) := s.index.bindings

/-- First name of `i`. -/
def name? (s : Session) (i : Id) : Option String := s.index.name? i none

/-- First name of a member of the struct `i`. -/
def memberName? (s : Session) (i : Id) (member : Word) : Option String :=
  s.index.name? i (some member)

/-- The lowest id with the name `text`. -/
def findByName? (s : Session) (text : String) : Option Id := s.index.named? text

end Session

end SpirvModule
