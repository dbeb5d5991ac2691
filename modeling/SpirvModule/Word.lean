/-!
# Words

A module is a list of 32-bit words. A word is read from four bytes, least
significant first, and the first word of an instruction packs its length and
its opcode number.

* `Word.lead`: the first word of an instruction.
* `Word.count`, `Word.number`: its two halves.
-/
namespace SpirvModule

/-- The unit of a module. -/
abbrev Word := UInt32

namespace Word

/-- The word with the bytes `a b c d`, least significant first. -/
def ofBytes (a b c d : UInt8) : Word :=
  UInt32.ofNat (a.toNat + 256 * b.toNat + 65536 * c.toNat + 16777216 * d.toNat)

/-- The four bytes of a word, least significant first. -/
def bytes (w : Word) : List UInt8 :=
  [UInt8.ofNat w.toNat, UInt8.ofNat (w.toNat / 256), UInt8.ofNat (w.toNat / 65536),
    UInt8.ofNat (w.toNat / 16777216)]

/-- The word with the bytes of `w` in the opposite order. -/
def swap (w : Word) : Word :=
  UInt32.ofNat (w.toNat / 16777216 % 256 + 256 * (w.toNat / 65536 % 256) +
    65536 * (w.toNat / 256 % 256) + 16777216 * (w.toNat % 256))

/-- The words whose bytes, least significant first, are `bs`; a last group of
fewer than four bytes is left out. -/
def ofByteList : List UInt8 → List Word
  | a :: b :: c :: d :: r => ofBytes a b c d :: ofByteList r
  | _ => []

/-- The bytes of `ws`, each word least significant byte first. -/
def littleEndian (ws : List Word) : List UInt8 := ws.flatMap bytes

/-- The bytes of `ws`, each word most significant byte first. -/
def bigEndian (ws : List Word) : List UInt8 := ws.flatMap fun w => (bytes w).reverse

/-- The first word of an instruction of `count` words, header included. Both
numbers have sixteen bits; what exceeds them is cut off. -/
def lead (count number : Nat) : Word :=
  UInt32.ofNat (count % 65536 * 65536 + number % 65536)

/-- Length in words that the first word `w` of an instruction claims. -/
def count (w : Word) : Nat := w.toNat / 65536

/-- Opcode number in the first word `w` of an instruction. -/
def number (w : Word) : Nat := w.toNat % 65536

end Word

end SpirvModule
