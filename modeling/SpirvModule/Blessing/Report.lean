import SpirvModule.Instruction

/-!
# Reports of outside tools

A validator and a disassembler may look at a module. Neither has to be there.

* `Toolbox.objection?`: what the validator has against a module.
* `Toolbox.excerpt`: the disassembled instructions around a word.
* `instructionIndex`: the place, among all instructions, of the one that covers a word.
-/
namespace SpirvModule

/-- What a tool printed, and whether it was content. -/
structure ToolReport where
  success : Bool
  output : String
  complaint : String
  deriving DecidableEq

/-- The tools at hand, each with its report on a module. -/
structure Toolbox where
  validator : Option (List Word → ToolReport)
  disassembler : Option (List Word → ToolReport)

/-- `index` and the number of those instructions, among some words at `offset`, that end at or
before `word`; `skip` words are passed over first. -/
def instructionIndexFrom (word skip offset index : Nat) : List Word → Nat
  | [] => index
  | w :: r =>
    match skip with
    | k + 1 => instructionIndexFrom word k (offset + 1) index r
    | 0 =>
      if word < offset + max (Word.count w) 1 then index
      else instructionIndexFrom word (max (Word.count w) 1 - 1) (offset + 1) (index + 1) r

/-- Place of the instruction that covers `word`. The header counts to the first instruction, what is
behind the module to one after the last. -/
def instructionIndex (ws : List Word) (word : Nat) : Nat :=
  instructionIndexFrom word 0 headerWords 0 (ws.drop headerWords)

/-- A line without the carriage return that its end may have before the line feed. -/
def dropReturn (line : List Char) : List Char :=
  if line.getLast? = some '\r' then line.dropLast else line

/-- The lines of a text, of which `line` is the beginning of the first, read backwards. What follows
the last line feed is a line only if it is not empty. -/
def linesFrom (line : List Char) : List Char → List (List Char)
  | [] => if line = [] then [] else [line.reverse]
  | c :: r =>
    if c = '\n' then dropReturn line.reverse :: linesFrom [] r else linesFrom (c :: line) r

/-- The lines of a text. -/
def textLines (s : String) : List String := (linesFrom [] s.toList).map String.ofList

namespace Toolbox

/-- Number of instructions shown before, and of those shown after, the one in question. -/
def contextLines : Nat := 4

/-- What the validator has against a module; without a validator, nothing. -/
def objection? (t : Toolbox) (ws : List Word) : Option String :=
  match t.validator with
  | none => none
  | some tool => if (tool ws).success then none else some (tool ws).complaint

/-- A number to the right of at least five columns. -/
def padded (n : Nat) : String :=
  String.ofList (List.replicate (5 - (toString n).length) ' ') ++ toString n

/-- Line number `index` of a disassembly, marked when it is line number `target`. -/
def shownLine (target index : Nat) (line : String) : String :=
  (if index = target then ">" else " ") ++ " " ++ padded index ++ ": " ++ line ++ "\n"

/-- The lines of a disassembly around line number `target`. -/
def around (target : Nat) (lines : List String) : String :=
  String.join ((lines.zipIdx.drop (target - contextLines)).take (2 * contextLines + 1) |>.map
    fun l => shownLine target l.2 l.1)

/-- The disassembled instructions around a word of a module, or why there are none. -/
def excerpt (t : Toolbox) (ws : List Word) (word : Nat) : String :=
  match t.disassembler with
  | none => "No spirv-dis"
  | some tool =>
    if (tool ws).success then around (instructionIndex ws word) (textLines (tool ws).output)
    else (tool ws).complaint

end Toolbox

end SpirvModule
