/-!
# Text in bytes

Text is written in UTF-8. Reading never fails: what is not text turns into the
replacement character, one for each longest run of bytes that could still have
begun a character.

* `encode`: the bytes of a text.
* `decode`: the text of any bytes.
* `decode?`: the text of bytes that are the encoding of one.

`decode` walks the bytes once. Between two bytes it is in the middle of a
character (`Pending`): the bits read so far and the ranges that the bytes still
awaited have to lie in.
-/
namespace SpirvModule.Text

/-- The bytes of a text. -/
def encode (s : String) : List UInt8 := s.toList.flatMap String.utf8EncodeChar

/-- Stands for bytes that are no text. -/
def replacement : Char := '\uFFFD'

/-- A character of which some bytes are read and some awaited. With none awaited
no character has begun. -/
structure Pending where
  bits : Nat
  awaited : List (UInt8 × UInt8)
  deriving DecidableEq

namespace Pending

/-- Between two characters. -/
def idle : Pending := ⟨0, []⟩

/-- What the first byte of a character leaves to be read. The range of the second byte leaves out
overlong forms, surrogates and numbers above the last code point. -/
def ofFirst? (b : UInt8) : Option Pending :=
  if b < 0x80 then some ⟨b.toNat, []⟩
  else if b < 0xC2 then none
  else if b < 0xE0 then some ⟨b.toNat % 32, [(0x80, 0xBF)]⟩
  else if b < 0xF0 then
    some ⟨b.toNat % 16, [(if b = 0xE0 then 0xA0 else 0x80, if b = 0xED then 0x9F else 0xBF),
      (0x80, 0xBF)]⟩
  else if b < 0xF5 then
    some ⟨b.toNat % 8, [(if b = 0xF0 then 0x90 else 0x80, if b = 0xF4 then 0x8F else 0xBF),
      (0x80, 0xBF), (0x80, 0xBF)]⟩
  else none

/-- The characters that are complete once `p` stands, and what is left of it. -/
def settle (p : Pending) : List Char × Pending :=
  if p.awaited = [] then ([Char.ofNat p.bits], idle) else ([], p)

/-- A character begins with `b`. -/
def first (b : UInt8) : List Char × Pending :=
  match ofFirst? b with
  | none => ([replacement], idle)
  | some p => p.settle

/-- The next byte: the characters it completes and the state after it. -/
def next (p : Pending) (b : UInt8) : List Char × Pending :=
  match p.awaited with
  | [] => first b
  | (lo, hi) :: more =>
    if lo ≤ b ∧ b ≤ hi then settle ⟨p.bits * 64 + b.toNat % 64, more⟩
    else (replacement :: (first b).1, (first b).2)

/-- The characters of the bytes after those that led to `p`. -/
def decode (p : Pending) : List UInt8 → List Char
  | [] => if p.awaited = [] then [] else [replacement]
  | b :: r => (p.next b).1 ++ (p.next b).2.decode r

end Pending

/-- The text of any bytes. -/
def decode (bs : List UInt8) : String := String.ofList (Pending.idle.decode bs)

/-- The text that `bs` is the encoding of, if there is one. -/
def decode? (bs : List UInt8) : Option String :=
  if encode (decode bs) = bs then some (decode bs) else none

end SpirvModule.Text
