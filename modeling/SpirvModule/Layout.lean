import SpirvModule.Section

/-!
# Layout

The layout of a module tells which words belong to which section, by the two
bounds of each. That a section stops where the next one starts is not built in; it
is what reading a module and shifting sections have to keep.

Bounds are addresses of 64 bits. One that is moved below zero, as by an edit at an
offset where no instruction starts, wraps round to the top of the address space.

* `Layout.span`: the words of a section.
* `Layout.fill`: the bounds of sections of which some may have no instruction.
* `Layout.shift`: a section grows or shrinks at its end, and later ones move along.
* `Layout.placement`: the section that takes an instruction put at an offset.
-/
namespace SpirvModule

/-- The offsets from `start` up to, but not with, `stop`. -/
structure Span where
  start : Nat
  stop : Nat
  deriving DecidableEq

namespace Span

def isEmpty (s : Span) : Bool := s.start = s.stop

/-- Number of offsets; a span that stops before it starts has none. -/
def length? (s : Span) : Option Nat := if s.start ≤ s.stop then some (s.stop - s.start) else none

/-- Whether something may be put in at `offset`. Both ends are such places. -/
def accepts (s : Span) (offset : Nat) : Bool := s.start ≤ offset && offset ≤ s.stop

def contains (s : Span) (offset : Nat) : Bool := s.start ≤ offset && offset < s.stop

end Span

/-- Where a section starts and where it stops. -/
structure Bounds where
  start : Int
  stop : Int
  deriving DecidableEq

/-- Where the sections of a module lie: the one with index `i` within `bounds[i]`. -/
structure Layout where
  bounds : Vector Bounds 10
  deriving DecidableEq

namespace Layout

/-- The address of a bound. -/
def address : Int → Nat
  | .ofNat n => n
  | .negSucc n => UInt64.size - 1 - n

/-- The layout of a module without instructions, whose header ends at `origin`. -/
def empty (origin : Nat) : Layout := ⟨Vector.replicate 10 ⟨origin, origin⟩⟩

/-- The bound where a section starts. -/
def start (l : Layout) (s : Section) : Int := l.bounds[s.index].start

/-- The bound where a section stops. -/
def stop (l : Layout) (s : Section) : Int := l.bounds[s.index].stop

/-- The offsets of a section. -/
def span (l : Layout) (s : Section) : Span := ⟨address (l.start s), address (l.stop s)⟩

/-- The section that covers `offset`. -/
def containing (l : Layout) (offset : Nat) : Option Section :=
  Section.all.find? fun s => (l.span s).contains offset

/-- The bounds of the sections in a list, from the last, which stops at `length`, to the first, and
where the first starts. `first?` tells where the first instruction of a section stands; one without
instructions starts where the next one does. -/
def fill (length : Nat) (first? : Section → Option Nat) :
    List Section → Nat × Vector Bounds 10
  | [] => (length, Vector.replicate 10 ⟨0, 0⟩)
  | s :: r =>
    let next := fill length first? r
    let start := (first? s).getD next.1
    (start, next.2.set s.index ⟨start, next.1⟩)

/-- The layout after `target` grew by `delta` words at its end: later sections move along. -/
def shift (l : Layout) (target : Section) (delta : Int) : Layout where
  bounds := Vector.ofFn fun i =>
    let b := l.bounds[i]
    if i = target.index then { b with stop := b.stop + delta }
    else if target.index < i then ⟨b.start + delta, b.stop + delta⟩
    else b

/-- Whether the sections follow one another without a gap up to `length`, the end of the module. -/
def isContiguous (l : Layout) (length : Nat) : Bool :=
  (List.zip Section.all Section.all.tail).all (fun p => (l.span p.1).stop = (l.span p.2).start) &&
    Section.all.all (fun s => (l.span s).start ≤ (l.span s).stop) &&
    (l.span .functions).stop = length

/-- The section that an instruction put in at `offset` goes to. An opcode with a home goes there or
nowhere. Variables and undefined values prefer the types; other opcodes go to the section that
covers the offset, or else to the last that accepts it. -/
def placement (l : Layout) (op : Opcode) (offset : Nat) : Option Section :=
  match op.home? with
  | some s => if (l.span s).accepts offset then some s else none
  | none =>
    if (op = .opVariable ∨ op = .opUndef) ∧ (l.span .types).accepts offset then some .types
    else (l.containing offset).or (Section.all.reverse.find? fun s => (l.span s).accepts offset)

end Layout

end SpirvModule
