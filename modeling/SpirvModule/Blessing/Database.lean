import SpirvModule.Word
import SpirvModule.Text.Json
import Std.Data.ExtTreeMap

/-!
# The database of blessed modules

The database keeps, under the name of each scenario, the words that count as its
right result, and whether the next run blesses again. On file it is a JSON object
with two members.

* `Database.ofBytes?`: the database that the bytes of a file write.
* `Database.render`: the text of a database.
-/
namespace SpirvModule

/-- Blessed results by name. A run on a database that says `bless` blesses. -/
structure Database where
  bless : Bool
  results : Std.ExtTreeMap String (List Word)

namespace Database

/-- No result is blessed yet, and the run blesses. -/
def fresh : Database := ⟨true, ∅⟩

/-- Keeps `ws` as the result of `name`. -/
def keep (d : Database) (name : String) (ws : List Word) : Database :=
  { d with results := d.results.insert name ws }

/-! ## Reading -/

/-- The word that a number without sign, point and exponent spells. -/
def word? : JsonValue → Option Word
  | .number ds =>
    if ds.all JsonValue.isDigit then
      let n := ds.foldl (fun n c => n * 10 + (c.toNat - 48)) 0
      if n < UInt32.size then some (UInt32.ofNat n) else none
    else none
  | _ => none

def words? : JsonValue → Option (List Word)
  | .array vs => vs.mapM word?
  | _ => none

def bool? : JsonValue → Option Bool
  | .bool b => some b
  | _ => none

/-- A result with its name. -/
def result? (m : Option String × JsonValue) : Option (String × List Word) := do
  return (← m.1, ← words? m.2)

/-- The results in an object. Of results with one name the last counts. -/
def results? : JsonValue → Option (Std.ExtTreeMap String (List Word))
  | .object ms =>
    (ms.mapM result?).map fun rs => rs.foldl (fun t r => t.insert r.1 r.2) ∅
  | _ => none

/-- The only value that members with the name `name` have. -/
def only? (name : String) (ms : List (String × JsonValue)) : Option JsonValue :=
  match ms.filter (·.1 = name) with
  | [m] => some m.2
  | _ => none

/-- The members of an object, if all their names are text. -/
def named? (ms : List (Option String × JsonValue)) : Option (List (String × JsonValue)) :=
  ms.mapM fun m => m.1.map (·, m.2)

/-- The database that a value writes: an object with two members of fixed names, among others, or an
array of the two values. -/
def ofJson? : JsonValue → Option Database
  | .object ms => do
    let ms ← named? ms
    let b ← (only? "bless" ms).bind bool?
    let rs ← (only? "blessed_results" ms).bind results?
    return ⟨b, rs⟩
  | .array [b, rs] => do return ⟨← bool? b, ← results? rs⟩
  | _ => none

/-- The database that the bytes of a file write. -/
def ofBytes? (bs : List UInt8) : Option Database := (JsonValue.parse? bs).bind ofJson?

/-! ## Writing -/

def wordsText (ws : List Word) : String :=
  "[" ++ String.intercalate "," (ws.map toString) ++ "]"

/-- The text of a database. The results come in the order of their names, which is one of the orders
that they may be written in: to what reads them back the order does not matter. -/
def render (d : Database) : String :=
  "\x7b\"bless\":" ++ (if d.bless then "true" else "false") ++ ",\"blessed_results\":\x7b" ++
    String.intercalate "," (d.results.toList.map fun r =>
      JsonValue.quote r.1 ++ ":" ++ wordsText r.2) ++
    "\x7d\x7d"

end Database

end SpirvModule
