import SpirvModule.Word
import SpirvModule.Text.Utf8

/-!
# Literal strings

An operand string is UTF-8, ended by a zero byte, four bytes to a word with the
first byte lowest, and filled up with zero bytes. Reading stops at the first
zero byte, or where the words end.

* `pack`: the words of a string.
* `unpack`: the string at the front of some words, and how many words it took.
-/
namespace SpirvModule.Literal

/-- The words of some bytes with the zero byte that ends them. -/
def packBytes : List UInt8 → List Word
  | a :: b :: c :: d :: r => Word.ofBytes a b c d :: packBytes r
  | [a, b, c] => [Word.ofBytes a b c 0]
  | [a, b] => [Word.ofBytes a b 0 0]
  | [a] => [Word.ofBytes a 0 0 0]
  | [] => [0]

/-- The words of a string. -/
def pack (s : String) : List Word := packBytes (Text.encode s)

/-- The bytes before the first zero byte of `ws`, and the number of words up to and with it. -/
def unpackBytes : List Word → List UInt8 × Nat
  | [] => ([], 0)
  | w :: ws =>
    if 0 ∈ Word.bytes w then ((Word.bytes w).takeWhile (· ≠ 0), 1)
    else (Word.bytes w ++ (unpackBytes ws).1, (unpackBytes ws).2 + 1)

/-- The string at the front of `ws` and the number of words it takes. -/
def unpack (ws : List Word) : String × Nat :=
  (Text.decode (unpackBytes ws).1, (unpackBytes ws).2)

end SpirvModule.Literal
