import SpirvModule.Instruction
import SpirvModule.Layout

/-!
# Reading a module

A binary is read into words, and words into a `ModuleView`: the header values and
the layout. The walk over the instructions keeps a running section. An instruction
with a home moves it there and must not move it back; a variable or undefined
value met before the types moves it to the types; every other one stays.

* `wordsOfBytes`: the words of a binary of either byte order.
* `ModuleView.parse`: header values and layout of a module.
* `LoadError`: why a binary or a module is refused.
-/
namespace SpirvModule

/-- First word of every module. -/
def magic : Word := 0x07230203

/-- Why something is not a module. -/
inductive LoadError where
  | truncatedHeader (length : Nat)
  | badMagic (word : Word)
  | unalignedLength (length : Nat)
  | zeroWordCount (offset : Nat)
  | instructionOverrun (offset wordCount length : Nat)
  | sectionOrder (offset : Nat) (op : Opcode) (home current : Section)
  deriving DecidableEq

namespace LoadError

/-- Eight hexadecimal digits of a word. -/
def hex (w : Word) : String :=
  String.ofList ((List.range 8).map fun k => Nat.digitChar (w.toNat >>> (4 * (7 - k)) % 16))

/-- What is said about a load error. -/
def message : LoadError → String
  | truncatedHeader n => s!"Module is only {n} words long, the header alone needs 5"
  | badMagic w => s!"Not a SPIR-V module, magic number was 0x{hex w}"
  | unalignedLength n => s!"Byte length {n} is not a multiple of the word size"
  | zeroWordCount p => s!"Instruction at word {p} has a word count of zero"
  | instructionOverrun p c n =>
    s!"Instruction at word {p} claims {c} words, but the module ends at {n}"
  | sectionOrder p op home current =>
    s!"{op.name} at word {p} belongs to {home.name}, which must come before {current.name}"

end LoadError

/-- The words of a binary. The first word tells the byte order. -/
def wordsOfBytes (bs : List UInt8) : Except LoadError (List Word) :=
  if bs.length % 4 ≠ 0 then .error (.unalignedLength bs.length)
  else match Word.ofByteList bs with
    | [] => .error (.truncatedHeader 0)
    | w :: ws =>
      if w = magic then .ok (w :: ws)
      else if Word.swap w = magic then .ok ((w :: ws).map Word.swap)
      else .error (.badMagic w)

/-- Version of a module. -/
structure Version where
  major : UInt8
  minor : UInt8
  deriving DecidableEq

namespace Version

/-- The version in word 1 of a header. -/
def ofWord (w : Word) : Version :=
  ⟨UInt8.ofNat (w.toNat / 65536), UInt8.ofNat (w.toNat / 256)⟩

/-- The word a version is written as. -/
def word (v : Version) : Word := UInt32.ofNat (v.major.toNat * 65536 + v.minor.toNat * 256)

/-- Whether `v` is `major.minor` or later. -/
def atLeast (v : Version) (major minor : UInt8) : Bool :=
  major < v.major || (v.major = major && minor ≤ v.minor)

end Version

/-- The section that an instruction takes when the running section is `current`, or, on the left,
the home that lies before it. -/
def Section.advance (current : Section) (op? : Option Opcode) : Except (Opcode × Section) Section :=
  match op? with
  | none => .ok current
  | some op =>
    match op.home? with
    | some home => if home < current then .error (op, home) else .ok home
    | none =>
      if (op = .opVariable ∨ op = .opUndef) ∧ current < .types then .ok .types else .ok current

/-- The section and offset of each instruction of some words at `offset`, after `skip` words are
passed over, when `current` is the running section and the module has `length` words. -/
def walkFrom (length skip offset : Nat) (current : Section) :
    List Word → Except LoadError (List (Section × Nat))
  | [] => .ok []
  | w :: r =>
    match skip with
    | k + 1 => walkFrom length k (offset + 1) current r
    | 0 =>
      if Word.count w = 0 then .error (.zeroWordCount offset)
      else if length < offset + Word.count w then
        .error (.instructionOverrun offset (Word.count w) length)
      else match current.advance (Opcode.ofNumber? (Word.number w)) with
        | .error (op, home) => .error (.sectionOrder offset op home current)
        | .ok s =>
          match walkFrom length (Word.count w - 1) (offset + 1) s r with
          | .error e => .error e
          | .ok starts => .ok ((s, offset) :: starts)

/-- The layout of a module of `length` words, given section and offset of each instruction. -/
def Layout.ofStarts (length : Nat) (starts : List (Section × Nat)) : Layout :=
  ⟨(fill length (fun s => (starts.find? fun p => p.1 = s).map (·.2)) Section.all).2⟩

/-- What the header and the walk tell of a module. -/
structure ModuleView where
  version : Version
  generator : Word
  bound : Word
  layout : Layout
  deriving DecidableEq

/-- Header values and layout of a module. -/
def ModuleView.parse (ws : List Word) : Except LoadError ModuleView :=
  match ws with
  | m :: v :: g :: b :: _ :: body =>
    if m ≠ magic then .error (.badMagic m)
    else match walkFrom ws.length 0 headerWords .capabilities body with
      | .error e => .error e
      | .ok starts => .ok ⟨.ofWord v, g, b, .ofStarts ws.length starts⟩
  | _ => .error (.truncatedHeader ws.length)

/-- The instructions of a span of the module `ws`. -/
def instructionsIn (ws : List Word) (s : Span) : List Instruction :=
  scan s.start ((ws.take s.stop).drop s.start)

end SpirvModule
