import Mathlib.Data.Nat.Digits.Lemmas
import SpirvModule.Immediate
import SpirvModule.Proofs.Literals

/-!
# The words of immediates

The words of an immediate are digits, the least significant first, and its bytes are digits of the
same number. The sign of a number narrower than a word is spread over its word, so that this holds
the same number, modulo the size of a word. There are at least as many words as numbers of a type,
and no two of these have the same words.

* `Word.total`: the number that words write.
* `Immediate.packed`: the bytes of an immediate, packed into words.

Results:
* `Word.total_fill`, `Word.toNat_spreadSign`: what packing and spreading the sign do to a number.
* `Immediate.total_words`, `Immediate.words_eq_packed`: the number that the words of an immediate
  write, and that they are its bytes, packed.
* `Immediate.words_injective`: no two immediates of one type have the same words.
* `Immediate.words_faithful`: all of it.
-/
namespace SpirvModule

open Nat (ofDigits)

namespace Word

/-! ## Numbers that words and bytes write -/

/-- The number that words write, the least significant word first. -/
def total (ws : List Word) : Nat := ofDigits (2 ^ 32) (ws.map UInt32.toNat)

theorem total_cons (w : Word) (ws : List Word) :
    total (w :: ws) = w.toNat + 2 ^ 32 * total ws := Nat.ofDigits_cons

@[simp] theorem total_singleton (w : Word) : total [w] = w.toNat := Nat.ofDigits_singleton

theorem total_eq_sum (ws : List Word) :
    total ws = (ws.mapIdx fun k w => w.toNat * 2 ^ (32 * k)).sum := by
  rw [total, Nat.ofDigits_eq_sum_mapIdx, List.mapIdx_eq_zipIdx_map, List.zipIdx_map, List.map_map,
    List.mapIdx_eq_zipIdx_map]
  congr 2
  funext e
  exact congrArg (e.1.toNat * ·) (pow_mul 2 32 e.2).symm

/-- Words are determined by the number they write and by how many they are. -/
theorem total_injective {vs ws : List Word} (hlen : vs.length = ws.length)
    (h : total vs = total ws) : vs = ws := by
  have hlt (us : List Word) : ∀ n ∈ us.map UInt32.toNat, n < 2 ^ 32 := by
    intro n hn
    obtain ⟨u, -, rfl⟩ := List.mem_map.mp hn
    exact u.toNat_lt
  have hdigits := Nat.ofDigits_inj_of_len_eq (by decide) (by simpa using hlen) (hlt vs) (hlt ws) h
  exact List.map_injective_iff.mpr (fun _ _ => UInt32.toNat_inj.mp) hdigits

/-- The last `count` bytes of `n`, the least significant first. -/
def bytesOf : (count n : Nat) → List UInt8
  | 0, _ => []
  | count + 1, n => UInt8.ofNat n :: bytesOf count (n / 256)

/-- Bytes as words, of which the last is filled up with zeros. -/
def fill : List UInt8 → List Word
  | a :: b :: c :: d :: r => ofBytes a b c d :: fill r
  | [a, b, c] => [ofBytes a b c 0]
  | [a, b] => [ofBytes a b 0 0]
  | [a] => [ofBytes a 0 0 0]
  | [] => []

@[simp] theorem length_bytesOf (count n : Nat) : (bytesOf count n).length = count := by
  induction count generalizing n with
  | zero => rfl
  | succ count ih => rw [bytesOf, List.length_cons, ih]

theorem ofDigits_bytesOf (count n : Nat) :
    ofDigits 256 ((bytesOf count n).map UInt8.toNat) = n % 256 ^ count := by
  induction count generalizing n with
  | zero => rw [Nat.pow_zero, Nat.mod_one]; rfl
  | succ count ih =>
    rw [bytesOf, List.map_cons, Nat.ofDigits_cons, ih, UInt8.toNat_ofNat', pow_succ' 256,
      Nat.mod_mul]

/-- Words write the number that their bytes write. -/
theorem total_fill (bs : List UInt8) : total (fill bs) = ofDigits 256 (bs.map UInt8.toNat) := by
  fun_induction fill bs with
  | case1 a b c d r ih =>
    simp only [total_cons, ih, toNat_ofBytes, List.map_cons, Nat.ofDigits_cons]
    omega
  | case2 a b c | case3 a b =>
    simp only [total_singleton, toNat_ofBytes, List.map_cons, List.map_nil, Nat.ofDigits_cons,
      Nat.ofDigits_nil, UInt8.toNat_zero]
    omega
  | case4 a => simp [toNat_ofBytes]
  | case5 => rfl

theorem length_fill (bs : List UInt8) : (fill bs).length = (bs.length + 3) / 4 := by
  fun_induction fill bs with
  | case1 a b c d r ih =>
    simp only [List.length_cons, ih]
    omega
  | case5 => rfl
  | _ => simp only [List.length_cons, List.length_nil]

/-! ## Signs -/

/-- Moves the bits of a word up by `unused` places, and back with copies of its highest bit. -/
def spreadSign (unused : Nat) (w : Word) : Word :=
  ⟨(w.toBitVec <<< unused).sshiftRight unused⟩

theorem toNat_eq_toInt_emod {width : Nat} (x : BitVec width) :
    (x.toNat : Int) = x.toInt % (2 ^ width : Nat) := by
  rw [BitVec.toInt_eq_toNat_bmod, Int.bmod_emod,
    Int.emod_eq_of_lt (Int.natCast_nonneg _) (Int.ofNat_lt.mpr x.isLt)]

/-- The word that holds a number of `width` bits becomes the one that holds the same number in all
its bits: moved up, the number keeps its sign. -/
theorem toNat_spreadSign {width : Nat} {w : Word} {n : Int} (hpos : 0 < width)
    (hwidth : width ≤ 32) (hlow : -2 ^ (width - 1) ≤ n) (hhigh : n < 2 ^ (width - 1))
    (hw : (w.toNat : Int) = n % 2 ^ width) :
    ((spreadSign (32 - width) w).toNat : Int) = n % 2 ^ 32 := by
  obtain ⟨low, rfl⟩ : ∃ low, width = low + 1 := ⟨width - 1, by omega⟩
  obtain ⟨u, hu⟩ : ∃ u, low + 1 + u = 32 := ⟨31 - low, by omega⟩
  have hsub : 32 - (low + 1) = u := by omega
  rw [Nat.add_sub_cancel] at hlow hhigh
  have hpow : (0 : Int) < 2 ^ u := by positivity
  have hhalf : (2 : Int) ^ low * 2 ^ u = 2 ^ 31 := by
    rw [← pow_add]
    congr 1
    omega
  have hsize : (2 : Int) ^ (low + 1) * 2 ^ u = (2 ^ 32 : Nat) := by
    rw [← pow_add, hu]
    rfl
  have hmod : n % 2 ^ (low + 1) * 2 ^ u = n * 2 ^ u % (2 ^ 32 : Nat) := by
    rw [← hsize, mul_comm, mul_comm n, mul_comm (2 ^ (low + 1)), Int.mul_emod_mul_of_pos _ _ hpow]
  have hup : (w.toBitVec <<< u).toInt = n * 2 ^ u := by
    rw [BitVec.toInt_shiftLeft, Nat.shiftLeft_eq, UInt32.toNat_toBitVec, Nat.cast_mul, Nat.cast_pow,
      Nat.cast_two, hw, hmod, Int.emod_bmod]
    refine Int.bmod_eq_of_le ?_ ?_
    · have hle := mul_le_mul_of_nonneg_right hlow hpow.le
      rw [neg_mul, hhalf] at hle
      exact hle
    · have hlt := mul_lt_mul_of_pos_right hhigh hpow
      rw [hhalf] at hlt
      exact hlt
  have hdown : ((w.toBitVec <<< u).sshiftRight u).toInt = n := by
    rw [BitVec.toInt_sshiftRight, hup, Int.shiftRight_eq_div_pow, Nat.cast_pow, Nat.cast_two]
    exact Int.mul_ediv_cancel _ hpow.ne'
  rw [hsub, spreadSign, UInt32.toNat_ofBitVec, toNat_eq_toInt_emod, hdown]
  rfl

end Word

namespace ImmediateType

theorem width_pos (t : ImmediateType) : 0 < t.width := by cases t <;> decide

/-- Numbers fill whole bytes. -/
theorem width_bytes (t : ImmediateType) : 8 * (t.width / 8) = t.width := by cases t <;> decide

theorem width_le (t : ImmediateType) : t.width ≤ 32 * max 1 (t.width / 32) := by
  cases t <;> decide

theorem pow_width_le (t : ImmediateType) :
    (2 : Int) ^ t.width ≤ 2 ^ (32 * max 1 (t.width / 32)) :=
  pow_le_pow_right₀ (by decide) t.width_le

/-- Numbers that are not narrower than a word fill whole words. -/
theorem width_words {t : ImmediateType} (h : ¬ t.width < 32) :
    32 * max 1 (t.width / 32) = t.width := by
  revert h
  cases t <;> decide

end ImmediateType

namespace Immediate

open Word

/-- The bytes of an immediate, the least significant first. -/
def bytes (v : Immediate) : List UInt8 :=
  bytesOf (v.type.width / 8) (v.toInt % 2 ^ v.type.width).toNat

/-- The bytes of an immediate in words. The sign of a narrow number fills its word. -/
def packed (v : Immediate) : List Word :=
  if v.type.isSigned ∧ v.type.width < 32 then
    (fill v.bytes).map (spreadSign (32 - v.type.width))
  else fill v.bytes

/-! ## The numbers of a type -/

/-- A signed number takes one bit for its sign. -/
theorem bounds_signed {v : Immediate} (h : v.type.isSigned = true) :
    -2 ^ (v.type.width - 1) ≤ v.toInt ∧ v.toInt < 2 ^ (v.type.width - 1) := by
  cases v with
  | i8 v | i16 v | i32 v | i64 v => exact ⟨v.le_toInt, v.toInt_lt⟩
  | _ => cases h

theorem bounds_unsigned {v : Immediate} (h : v.type.isSigned = false) :
    0 ≤ v.toInt ∧ v.toInt < 2 ^ v.type.width := by
  cases v with
  | u8 v | u16 v | u32 v | u64 v | f32 v | f64 v =>
    refine ⟨Int.natCast_nonneg _, ?_⟩
    simp only [toInt, type, ImmediateType.width]
    exact_mod_cast v.toNat_lt
  | _ => cases h

/-- An unsigned number is not changed by the size of its words. -/
theorem emod_unsigned {v : Immediate} (h : v.type.isSigned = false) :
    v.toInt % 2 ^ (32 * max 1 (v.type.width / 32)) = v.toInt := by
  obtain ⟨hnonneg, hlt⟩ := bounds_unsigned h
  exact Int.emod_eq_of_lt hnonneg (lt_of_lt_of_le hlt v.type.pow_width_le)

/-- The numbers of a type are not further apart than there are of them. -/
theorem sub_lt {u v : Immediate} (ht : u.type = v.type) : u.toInt - v.toInt < 2 ^ v.type.width := by
  cases hs : v.type.isSigned with
  | false =>
    have hu := bounds_unsigned (ht ▸ hs)
    have hv := bounds_unsigned hs
    rw [ht] at hu
    omega
  | true =>
    have hu := bounds_signed (ht ▸ hs)
    have hv := bounds_signed hs
    have htwice : (2 : Int) ^ v.type.width = 2 * 2 ^ (v.type.width - 1) := by
      rw [← pow_succ', Nat.sub_add_cancel v.type.width_pos]
    rw [ht] at hu
    omega

theorem toInt_injective {u v : Immediate} (ht : u.type = v.type) (h : u.toInt = v.toInt) :
    u = v := by
  cases u <;> cases v <;> cases ht <;>
    simpa [toInt, UInt8.toNat_inj, UInt16.toNat_inj, UInt32.toNat_inj, UInt64.toNat_inj,
      Int8.toInt_inj, Int16.toInt_inj, Int32.toInt_inj, Int64.toInt_inj] using h

/-! ## The words that are written -/

theorem length_words (v : Immediate) : v.words.length = max 1 (v.type.width / 32) := by
  cases v <;> simp [words, halves, type, ImmediateType.width]

theorem total_halves (v : UInt64) : total (halves v) = v.toNat := by
  have hlt : v.toNat < 2 ^ 64 := v.toNat_lt
  have hhigh : (v >>> 32).toNat = v.toNat / 2 ^ 32 := by
    rw [UInt64.toNat_shiftRight, Nat.shiftRight_eq_div_pow]
    rfl
  rw [halves, total_cons, total_singleton, UInt64.toNat_toUInt32, UInt64.toNat_toUInt32, hhigh]
  omega

/-- The words of an immediate write its number, modulo what they can write. -/
theorem total_words (v : Immediate) :
    (total v.words : Int) = v.toInt % 2 ^ (32 * max 1 (v.type.width / 32)) := by
  cases v with
  | u8 v | u16 v | u32 v | f32 v =>
    rw [emod_unsigned rfl]
    simp [words, toInt]
  | u64 v | f64 v =>
    rw [emod_unsigned rfl, words, total_halves, toInt]
  | i8 v | i16 v | i32 v =>
    rw [words, total_singleton, ← Int32.toNat_toBitVec, toNat_eq_toInt_emod, Int32.toInt_toBitVec]
    simp [type, toInt, ImmediateType.width]
  | i64 v =>
    rw [words, total_halves, ← Int64.toNat_toBitVec, toNat_eq_toInt_emod, Int64.toInt_toBitVec]
    simp [type, toInt, ImmediateType.width]

/-! ## Packed bytes -/

theorem total_fill_bytes (v : Immediate) :
    (total (fill v.bytes) : Int) = v.toInt % 2 ^ v.type.width := by
  have hsize : 256 ^ (v.type.width / 8) = 2 ^ v.type.width := by
    rw [← v.type.width_bytes, Nat.mul_div_cancel_left _ (by decide), pow_mul]
    rfl
  have hpos : (0 : Int) < 2 ^ v.type.width := by positivity
  have hnonneg := Int.emod_nonneg v.toInt hpos.ne'
  have hlt : (v.toInt % 2 ^ v.type.width).toNat < 2 ^ v.type.width := by
    rw [Int.toNat_lt hnonneg]
    exact_mod_cast Int.emod_lt_of_pos v.toInt hpos
  rw [bytes, total_fill, ofDigits_bytesOf, hsize, Nat.mod_eq_of_lt hlt, Int.toNat_of_nonneg hnonneg]

theorem length_packed (v : Immediate) : v.packed.length = max 1 (v.type.width / 32) := by
  have hfill : (fill v.bytes).length = max 1 (v.type.width / 32) := by
    rw [length_fill, bytes, length_bytesOf]
    cases v <;> simp [type, ImmediateType.width]
  rw [packed]
  split
  · rw [List.length_map, hfill]
  · exact hfill

theorem total_packed (v : Immediate) :
    (total v.packed : Int) = v.toInt % 2 ^ (32 * max 1 (v.type.width / 32)) := by
  have hlen := v.length_packed
  have hfill := v.total_fill_bytes
  unfold packed at hlen ⊢
  split
  · rename_i hnarrow
    obtain ⟨hs, hw⟩ := hnarrow
    have hone : max 1 (v.type.width / 32) = 1 := by omega
    rw [if_pos ⟨hs, hw⟩, hone, List.length_map] at hlen
    obtain ⟨w, hword⟩ := List.length_eq_one_iff.mp hlen
    rw [hword, total_singleton] at hfill
    obtain ⟨hlow, hhigh⟩ := bounds_signed hs
    rw [hword, hone, List.map_singleton, total_singleton,
      toNat_spreadSign v.type.width_pos hw.le hlow hhigh hfill]
  · rename_i hnarrow
    rw [hfill]
    cases hs : v.type.isSigned with
    | false =>
      obtain ⟨hnonneg, hlt⟩ := bounds_unsigned hs
      rw [Int.emod_eq_of_lt hnonneg hlt, emod_unsigned hs]
    | true => rw [ImmediateType.width_words fun hw => hnarrow ⟨hs, hw⟩]

/-- The words of an immediate are its bytes, packed: both write the same number. -/
theorem words_eq_packed (v : Immediate) : v.words = v.packed := by
  refine total_injective (v.length_words.trans v.length_packed.symm) ?_
  exact_mod_cast v.total_words.trans v.total_packed.symm

theorem words_injective {u v : Immediate} (ht : u.type = v.type) (h : u.words = v.words) :
    u = v := by
  have hmod := v.total_words
  rw [← h, u.total_words, ht] at hmod
  have hdvd := Int.modEq_iff_dvd.mp (show v.toInt ≡ u.toInt [ZMOD _] from hmod.symm)
  have hle := v.type.pow_width_le
  have hsub := sub_lt ht
  have hsub' := sub_lt ht.symm
  rw [ht] at hsub'
  have hzero := Int.eq_zero_of_abs_lt_dvd hdvd (by rw [abs_lt]; omega)
  exact toInt_injective ht (by omega)

/-- The words of an immediate are its bytes, packed least significant first with the sign of a
narrow number spread. They are as many as its bits fill, but at least one, and write its number,
modulo what they can write. So no two immediates of one type have the same words. -/
theorem words_faithful (v : Immediate) :
    v.words = v.packed ∧ v.words.length = max 1 (v.type.width / 32) ∧
    (((v.words.mapIdx fun k w => w.toNat * 2 ^ (32 * k)).sum : Nat) : Int) =
      v.toInt % 2 ^ (32 * max 1 (v.type.width / 32)) ∧
    ∀ u : Immediate, u.type = v.type → u.words = v.words → u = v := by
  refine ⟨v.words_eq_packed, v.length_words, ?_, fun u => words_injective⟩
  rw [← total_eq_sum, v.total_words]

/-- The lowest number of sixteen bits, which is also the one that follows the highest. -/
theorem words_faithful_lowest :
    (i16 (-32768)).words.length = 1 ∧
    ((((i16 (-32768)).words.mapIdx fun k w => w.toNat * 2 ^ (32 * k)).sum : Nat) : Int) =
      -32768 % 2 ^ 32 ∧
    i16 (Int16.ofInt 32768) = i16 (-32768) := by
  obtain ⟨-, hlen, hsum, hinj⟩ := words_faithful (i16 (-32768))
  exact ⟨hlen, hsum, hinj (i16 (Int16.ofInt 32768)) rfl (by decide +kernel)⟩

end Immediate

end SpirvModule
