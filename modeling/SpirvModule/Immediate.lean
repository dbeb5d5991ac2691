import SpirvModule.Types.Key

/-!
# Immediate values

An immediate is a number that a constant holds. Its words are its bits, least
significant word first; a number narrower than a word fills one, a signed number
with copies of its sign and every other one with zeros.
-/
namespace SpirvModule

/-- A number of one of the types that constants are made of; floats are given by their bits. -/
inductive Immediate where
  | u8 (v : UInt8)
  | i8 (v : Int8)
  | u16 (v : UInt16)
  | i16 (v : Int16)
  | u32 (v : UInt32)
  | i32 (v : Int32)
  | u64 (v : UInt64)
  | i64 (v : Int64)
  | f32 (bits : UInt32)
  | f64 (bits : UInt64)
  deriving DecidableEq

/-- The types of immediates. -/
inductive ImmediateType where
  | u8
  | i8
  | u16
  | i16
  | u32
  | i32
  | u64
  | i64
  | f32
  | f64
  deriving DecidableEq

namespace ImmediateType

/-- The scalar type that constants of an immediate type have. -/
def scalar : ImmediateType → Scalar
  | u8 => .int 8 false
  | i8 => .int 8 true
  | u16 => .int 16 false
  | i16 => .int 16 true
  | u32 => .int 32 false
  | i32 => .int 32 true
  | u64 => .int 64 false
  | i64 => .int 64 true
  | f32 => .float 32
  | f64 => .float 64

/-- Number of bits. -/
def width : ImmediateType → Nat
  | u8 | i8 => 8
  | u16 | i16 => 16
  | u32 | i32 | f32 => 32
  | u64 | i64 | f64 => 64

def isSigned : ImmediateType → Bool
  | i8 | i16 | i32 | i64 => true
  | _ => false

/-- The smallest and the largest number of a type; for a float, of its bits. -/
def range (t : ImmediateType) : Int × Int :=
  let numbers : Nat := 1 <<< t.width
  if t.isSigned then (-(numbers / 2 : Nat), (numbers / 2 : Nat) - 1) else (0, numbers - 1)

end ImmediateType

namespace Immediate

/-- The type of an immediate. -/
def type : Immediate → ImmediateType
  | u8 _ => .u8
  | i8 _ => .i8
  | u16 _ => .u16
  | i16 _ => .i16
  | u32 _ => .u32
  | i32 _ => .i32
  | u64 _ => .u64
  | i64 _ => .i64
  | f32 _ => .f32
  | f64 _ => .f64

/-- The number an immediate stands for; for a float, its bits. -/
def toInt : Immediate → Int
  | u8 v => v.toNat
  | i8 v => v.toInt
  | u16 v => v.toNat
  | i16 v => v.toInt
  | u32 v => v.toNat
  | i32 v => v.toInt
  | u64 v => v.toNat
  | i64 v => v.toInt
  | f32 b => b.toNat
  | f64 b => b.toNat

/-- The immediate of type `t` that stands for `n`, if `n` is in the range of `t`. -/
def ofInt? (t : ImmediateType) (n : Int) : Option Immediate :=
  if t.range.1 ≤ n ∧ n ≤ t.range.2 then
    match t with
    | .u8 => some (u8 (UInt8.ofNat n.toNat))
    | .i8 => some (i8 (Int8.ofInt n))
    | .u16 => some (u16 (UInt16.ofNat n.toNat))
    | .i16 => some (i16 (Int16.ofInt n))
    | .u32 => some (u32 (UInt32.ofNat n.toNat))
    | .i32 => some (i32 (Int32.ofInt n))
    | .u64 => some (u64 (UInt64.ofNat n.toNat))
    | .i64 => some (i64 (Int64.ofInt n))
    | .f32 => some (f32 (UInt32.ofNat n.toNat))
    | .f64 => some (f64 (UInt64.ofNat n.toNat))
  else none

/-- Both words of 64 bits, the lower first. -/
def halves (v : UInt64) : List Word := [v.toUInt32, (v >>> 32).toUInt32]

/-- The words of an immediate. -/
def words : Immediate → List Word
  | u8 v => [v.toUInt32]
  | i8 v => [v.toInt32.toUInt32]
  | u16 v => [v.toUInt32]
  | i16 v => [v.toInt32.toUInt32]
  | u32 v => [v]
  | i32 v => [v.toUInt32]
  | u64 v => halves v
  | i64 v => halves v.toUInt64
  | f32 b => [b]
  | f64 b => halves b

end Immediate

end SpirvModule
