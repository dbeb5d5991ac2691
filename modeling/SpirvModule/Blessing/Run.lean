import SpirvModule.Blessing.Database
import SpirvModule.Blessing.Report
import SpirvModule.Scenario

/-!
# Runs

A run performs scenarios and holds their results against the database, or blesses
them and writes the database anew. It blesses when there is no database, when the
database says so, or when it is asked to.

* `Request.ofArguments`: what the arguments ask for.
* `Database.check`: one result against the database.
* `run`: a whole run, up to its exit.
-/
namespace SpirvModule

/-- The part of the program that a log record comes from. -/
inductive LogSource where
  | runner
  | scenarios
  | session
  deriving DecidableEq

/-- An error that is logged. -/
structure LogRecord where
  source : LogSource
  text : String
  deriving DecidableEq

/-- How a run ends. -/
inductive Exit where
  | success
  | failure
  | crash
  deriving DecidableEq

/-- Exit code of a run. -/
def Exit.code : Exit → UInt8
  | success => 0
  | failure => 1
  | crash => 101

/-- Name of the file that holds the database. -/
def databaseName : String := "BlessedTests.json"

/-- What reading the file that a path leads to gives. -/
abbrev FileReader := String → Except FileError (List UInt8)

/-! ## Requests -/

/-- What a run is asked for: whether to bless, the input with its path, and the scenarios by
name. -/
structure Request where
  bless : Bool
  input : Option (String × List Word)
  names : List String

/-- The module in a file. -/
def loadInput (read : FileReader) (path : String) : Except TrialError (List Word) :=
  match read path with
  | .error e => .error (.file e)
  | .ok bs =>
    match wordsOfBytes bs with
    | .ok ws => .ok ws
    | .error e => .error (.edit (.load e))

/-- What the arguments ask for on top of `r`, or what is wrong with them. The argument behind
`--input` is a path whatever it is; of several inputs the last counts. -/
def Request.extend (read : FileReader) (r : Request) : List String → Except String Request
  | [] => .ok r
  | "--input" :: path :: args =>
    match loadInput read path with
    | .ok ws => Request.extend read { r with input := some (path, ws) } args
    | .error e => .error s!"Failed to load input {path}: {e.message}"
  | ["--input"] => .error "--input needs a file"
  | "bless" :: args => Request.extend read { r with bless := true } args
  | name :: args => Request.extend read { r with names := r.names ++ [name] } args

/-- What the arguments ask for. -/
def Request.ofArguments (read : FileReader) (args : List String) : Except String Request :=
  Request.extend read ⟨false, none, []⟩ args

/-- The name a result is kept under. Results on an input are kept apart for each path. -/
def Request.resultName (r : Request) (sc : Scenario) : String :=
  match r.input with
  | some (path, _) => sc.name ++ "@" ++ path
  | none => sc.name

/-! ## Results against the database -/

/-- The first place where two lists of words have different ones; where the shorter list ends if
there is none. -/
def firstDifference (old ws : List Word) : Nat :=
  ((old.zip ws).findIdx? fun p => p.1 ≠ p.2).getD (min old.length ws.length)

/-- Holds the result `ws` of `name` against the database, or blesses it: the database afterwards,
what is logged, and whether the result passes. A result that is not in the database passes. -/
def Database.check (d : Database) (tools : Toolbox) (name : String) (ws : List Word) :
    Database × List String × Except TrialError Unit :=
  let objection := tools.objection? ws
  let log := objection.toList.map fun o => s!"{name} produced an invalid module: {o}"
  if d.bless then
    match objection with
    | some o => (d, log, .error (.invalid o))
    | none => (d.keep name ws, log, .ok ())
  else match d.results[name]? with
    | none =>
      (d, log ++ [s!"Could not test result, there is no blessed result for {name}!"], .ok ())
    | some blessed =>
      if blessed = ws then (d, log, .ok ())
      else
        let p := firstDifference blessed ws
        (d, log ++ [s!"{name} differs at word {p}:\n{tools.excerpt ws p}"],
          .error (.mismatch name p))

/-! ## Runs -/

/-- How far a run has come. -/
structure Progress where
  database : Database
  log : List LogRecord
  failed : Nat

namespace Progress

/-- Adds a record to the log. -/
def say (p : Progress) (source : LogSource) (text : String) : Progress :=
  { p with log := p.log ++ [⟨source, text⟩] }

/-- Counts a scenario as failed. -/
def fail (p : Progress) (sc : Scenario) (e : TrialError) : Progress :=
  { p.say .runner s!"Failed to run test {sc.name}: {e.message}" with failed := p.failed + 1 }

/-- Performs a scenario and holds its result against the database. On the left the log of a run that
crashes. -/
def perform (tools : Toolbox) (r : Request) (p : Progress) (sc : Scenario) :
    Except (List LogRecord) Progress :=
  let (result, breach) := sc.run (r.input.map (·.2))
  let p := match breach with
    | some e => p.say .session s!"Aborting edit session: {e.message}"
    | none => p
  match result with
  | .error .crash => .error p.log
  | .error (.failed e) => .ok (p.fail sc e)
  | .ok ws =>
    let (d, said, verdict) := p.database.check tools (r.resultName sc) ws
    let p := said.foldl (say · .runner) { p with database := d }
    match verdict with
    | .ok () => .ok p
    | .error e => .ok (p.fail sc e)

/-- Performs scenarios one after the other. -/
def performAll (tools : Toolbox) (r : Request) (p : Progress) :
    List Scenario → Except (List LogRecord) Progress
  | [] => .ok p
  | sc :: scs =>
    match p.perform tools r sc with
    | .error log => .error log
    | .ok p => p.performAll tools r scs

end Progress

/-- How a run ends, what it logs, and the database it writes, if it writes one. -/
structure Outcome where
  exit : Exit
  log : List LogRecord
  saved : Option Database

/-- A run on a database, `none` where there is no file. -/
def runOn (args : List String) (read : FileReader) (tools : Toolbox)
    (found : Option Database) : Outcome :=
  let log : List LogRecord :=
    if found.isSome then [] else [⟨.runner, "Could not find blessed file"⟩]
  match Request.ofArguments read args with
  | .error said => ⟨.failure, log ++ [⟨.runner, said⟩], none⟩
  | .ok r =>
    let d := found.getD .fresh
    let d := { d with bless := d.bless || r.bless }
    let unknown := r.names.filter fun n => (Scenario.ofName? n).isNone
    let log := log ++ unknown.map fun n => ⟨.scenarios, s!"No test named \"{n}\" found!"⟩
    let scenarios := r.names.filterMap Scenario.ofName?
    match Progress.performAll tools r ⟨d, log, 0⟩ scenarios with
    | .error log => ⟨.crash, log, none⟩
    | .ok p =>
      let saved := if p.database.bless then some p.database else none
      if p.failed = 0 then ⟨.success, p.log, saved⟩
      else ⟨.failure, (p.say .runner s!"{p.failed} of {scenarios.length} tests failed").log, saved⟩

/-- A run that reads files by `read`. A database that cannot be read ends it at once. -/
def run (args : List String) (read : FileReader) (tools : Toolbox) :
    Outcome :=
  match read databaseName with
  | .error .missing => runOn args read tools none
  | .error _ => ⟨.crash, [], none⟩
  | .ok bs =>
    match Database.ofBytes? bs with
    | none => ⟨.crash, [], none⟩
    | some d => runOn args read tools (some d)

end SpirvModule
