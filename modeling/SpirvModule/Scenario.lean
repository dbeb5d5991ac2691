import SpirvModule.FileError
import SpirvModule.Session.Declare

/-!
# Scenarios

A scenario is a run of edits with a known purpose that checks its own result. It
works on a given module or, without one, on the module that the first scenario
builds.

* `Scenario.run`: the module that a scenario makes.
* `TrialError`: why a scenario does not make one.
-/
namespace SpirvModule

/-- Why a scenario has failed, or its module is not as it should be. -/
inductive TrialError where
  | edit (e : EditError)
  | file (e : FileError)
  | check (said : String)
  | invalid (said : String)
  | mismatch (name : String) (firstDifference : Nat)
  deriving DecidableEq

/-- What is said about a failed scenario. -/
def TrialError.message : TrialError → String
  | edit e => s!"Editor failed: {e.message}"
  | file e => s!"IO error: {e.message}"
  | check said => s!"Result check failed: {said}"
  | invalid said => s!"Module did not validate: {said}"
  | mismatch name d => s!"Result of {name} differs from blessed result at word {d}"

/-- How a scenario ends without a module. -/
inductive Breakdown where
  | failed (e : TrialError)
  | crash
  deriving DecidableEq

/-- A run of edits and checks. -/
abbrev Trial := ExceptT Breakdown (StateM Session)

namespace Trial

/-- An edit as part of a scenario. -/
def edit {α : Type} (e : Edit α) : Trial α := fun s =>
  match e.run s with
  | (.ok a, s) => (.ok a, s)
  | (.error (.refused e), s) => (.error (.failed (.edit e)), s)
  | (.error .crash, s) => (.error .crash, s)

/-- Fails unless `condition` holds. -/
def ensure (condition : Bool) (said : String) : Trial Unit :=
  if condition then pure () else throw (.failed (.check said))

/-- The module that `t` makes of the one in `s`, or why it makes none; and the breach of contract
that aborted the session, if one did. -/
def result (t : Trial Unit) (s : Session) : Except Breakdown (List Word) × Option EditError :=
  match t.run s with
  | (.ok (), s) => (.ok s.words, s.breach)
  | (.error e, s) => (.error e, s.breach)

end Trial

/-- A run of edits with a known purpose. `rebind` moves every resource `offset` descriptor sets up,
`specConstant` adds a named specialization constant, `stripNames` removes the names of ids. -/
inductive Scenario where
  | emptyModule
  | rebind (offset : Word)
  | specConstant (value specId : Word)
  | stripNames
  deriving DecidableEq

namespace Scenario

/-- Generator number of built modules. -/
def generator : Word := 0x53500001

/-- Name of the constant that `specConstant` adds. -/
def constantName : String := "injected_constant"

/-- A compute shader with one four-component uniform at set 0, slot 2. -/
def buildModule : Trial Unit := do
  let float : TypeKey := .scalar (.float 32)
  let vector : TypeKey := .vector ⟨.float 32, 4⟩
  .edit (.addCapability .shader)
  let _ ← .edit (do Edit.insert ((← get).sectionStop .memoryModel) ⟨.opMemoryModel, [0, 1]⟩)
  let floatId ← .edit (.declareType float)
  let vectorId ← .edit (.declareType vector)
  let pointer : TypeKey := .pointer vectorId .uniform
  let pointerId ← .edit (.declareType pointer)
  let i ← .edit .newId
  let resource ← .edit (.addVariable (.var pointerId i .uniform none))
  .edit (.addDecoration (.decorate resource .descriptorSet [0]))
  .edit (.addDecoration (.decorate resource .binding [2]))
  .edit (.setName resource "ubo")
  let s ← get
  .ensure (s.binding resource = ⟨0, 2⟩) s!"ubo is bound at {(s.binding resource).text}"
  let same ← do
    if (← .edit (.declareType float)) ≠ floatId then pure false
    else if (← .edit (.declareType vector)) ≠ vectorId then pure false
    else pure ((← .edit (.declareType pointer)) = pointerId)
  .ensure same "redeclaration returned new ids"
  .ensure ((← get).words.length = s.words.length && (← get).bound = s.bound)
    "redeclaration changed the module"
  let void ← .edit (.declareType (.scalar .void))
  let functionType ← .edit (.declareType (.function void []))
  let main ← .edit .newId
  let label ← .edit .newId
  .edit (.addFunction
    [.function void main 0 functionType, .label label, ⟨.opReturn, []⟩, ⟨.opFunctionEnd, []⟩])
  let _ ← .edit (do
    Edit.insert ((← get).sectionStop .entryPoints) (.entryPoint .glCompute main "main" []))
  .edit (.addExecutionMode (.executionMode main .localSize [1, 1, 1]))
  .edit (.setName main "main")

/-- The sum of two words, if it is a word. -/
def add? (a b : Word) : Option Word := if a.toNat + b.toNat < UInt32.size then some (a + b) else none

/-- Offsets of the decorations with a descriptor set. -/
def setDecorations (s : Session) : List Nat :=
  ((s.instructions .annotations).filter fun i =>
    i.opcode? = some .opDecorate && i.operands[1]? = some Decoration.descriptorSet.value).map
    (·.offset)

/-- Checks that the resources in `before` have moved `offset` sets up. -/
def ensureMoved (offset : Word) (before : List (Id × Binding)) : Trial Unit :=
  before.forM fun (i, b) => do
    let now := (← get).binding i
    match add? b.set offset with
    | none => throw .crash
    | some set =>
      .ensure (now.set = set && now.slot = b.slot) s!"{i.text} moved from {b.text} to {now.text}"

/-- Moves every resource `offset` sets up. -/
def moveSets (offset : Word) : Trial Unit := do
  let s ← get
  (setDecorations s).forM fun p => .edit (.modifyOperands p (.demand 2 (add? offset)))
  .ensure ((← get).words.length = s.words.length) "in place edit changed the module length"
  ensureMoved offset s.bindings

/-- Adds a specialization constant that holds `value`. -/
def addConstant (value specId : Word) : Trial Unit := do
  let i ← .edit (.addSpecConstantImmediate (.u32 value) specId)
  .edit (.setName i constantName)
  let s ← get
  .ensure (s.findByName? constantName = some i) s!"{i.text} is not named {constantName}"
  match s.locate? i with
  | none => .ensure false s!"{i.text} holds None"
  | some p =>
    match s.instruction? p with
    | none => throw (.failed (.edit (.invalidLocation p)))
    | some inst =>
      .ensure (inst.operands[2]? = some value) (match inst.operands[2]? with
        | none => s!"{i.text} holds None"
        | some w => s!"{i.text} holds Some({w})")

/-- Offsets and texts of the names of ids. -/
def nameInstructions (s : Session) : List (Nat × String) :=
  ((s.instructions .debugNames).filter fun i => i.opcode? = some .opName).map fun i =>
    (i.offset, (i.stringOperand? 1).getD "")

/-- Removes the names of ids. Names of members stay. -/
def removeNames : Trial Unit := do
  let names := nameInstructions (← get)
  names.forM fun n => .edit (.remove n.1)
  let s ← get
  names.forM fun n => .ensure (s.findByName? n.2).isNone s!"{n.2} is still declared"

/-- Name of a scenario, under which its result is kept. -/
def name : Scenario → String
  | emptyModule => "empty_module"
  | rebind _ => "rebind"
  | specConstant _ _ => "spec_constant"
  | stripNames => "strip_names"

/-- The scenario with a name. -/
def ofName? (s : String) : Option Scenario :=
  if s = "empty_module" then some emptyModule
  else if s = "rebind" then some (rebind 1)
  else if s = "spec_constant" then some (specConstant 42 7)
  else if s = "strip_names" then some stripNames
  else none

/-- The module that `emptyModule` makes. -/
def build : Except Breakdown (List Word) × Option EditError :=
  Trial.result buildModule (.create .never ⟨1, 3⟩ generator)

/-- Opens the module `ws` for `t`. -/
def onModule (t : Trial Unit) (ws : List Word) : Except Breakdown (List Word) × Option EditError :=
  match Session.ofWords .never ws with
  | .error e => (.error (.failed (.edit e)), none)
  | .ok s => t.result s

/-- Opens `input` for `t`, or the built module without one. -/
def onInput (t : Trial Unit) (input : Option (List Word)) :
    Except Breakdown (List Word) × Option EditError :=
  match input with
  | some ws => onModule t ws
  | none =>
    match build with
    | (.ok ws, _) => onModule t ws
    | failure => failure

/-- The module that a scenario makes of `input`, or why it makes none; and the breach of contract
on the way, if there was one. -/
def run (sc : Scenario) (input : Option (List Word)) :
    Except Breakdown (List Word) × Option EditError :=
  match sc with
  | emptyModule => build
  | rebind offset => onInput (moveSets offset) input
  | specConstant value specId => onInput (addConstant value specId) input
  | stripNames => onInput removeNames input

end Scenario

end SpirvModule
