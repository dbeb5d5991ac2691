import Mathlib.Data.List.TakeWhile
import SpirvModule.Proofs.Utf8
import SpirvModule.Text.Literal

/-!
# Strings that are read back

A string is written with nothing to tell its length but the zero byte that ends it, and the one
character with a zero byte is NUL. So a string is read back up to its first NUL, and no string that
is read has one.

* `Literal.upToNul`: what a reader finds of a string.
* `Pending.Legible`: whether a character other than NUL comes of the bytes that are awaited.

Results:
* `littleEndian_packBytes`, `unpackBytes_fst`: the bytes that are written, and those that are read.
* `unpack_pack`: a string is read back up to its first NUL, whatever words follow.
* `nul_not_mem_unpack`: no string that is read has a NUL.
-/
namespace SpirvModule

/-! ## Bytes -/

namespace Word

theorem toNat_ofBytes (a b c d : UInt8) : (ofBytes a b c d).toNat =
    a.toNat + 256 * b.toNat + 65536 * c.toNat + 16777216 * d.toNat := by
  have ha := a.toNat_lt
  have hb := b.toNat_lt
  have hc := c.toNat_lt
  have hd := d.toNat_lt
  exact UInt32.toNat_ofNat_of_lt' (by omega : _ < 4294967296)

theorem bytes_ofBytes (a b c d : UInt8) : bytes (ofBytes a b c d) = [a, b, c, d] := by
  have ha := a.toNat_lt
  have hb := b.toNat_lt
  have hc := c.toNat_lt
  have hd := d.toNat_lt
  have hw := toNat_ofBytes a b c d
  simp only [bytes, hw, List.cons.injEq, ← UInt8.toNat_inj, UInt8.toNat_ofNat', and_true]
  omega

end Word

namespace Literal

/-- The bytes are followed by zero bytes, of which there is at least one. -/
theorem littleEndian_packBytes (bs : List UInt8) :
    Word.littleEndian (packBytes bs) = bs ++ List.replicate (4 - bs.length % 4) 0 := by
  fun_induction packBytes bs with
  | case1 a b c d r ih =>
    have hmod : (r.length + 1 + 1 + 1 + 1) % 4 = r.length % 4 := by omega
    rw [Word.littleEndian] at ih ⊢
    rw [List.flatMap_cons, ih, Word.bytes_ofBytes]
    simp only [List.length_cons, hmod, List.cons_append, List.nil_append]
  | case5 => rfl
  | _ => simp [Word.littleEndian, Word.bytes_ofBytes]

/-- Reading stops at the first zero byte, or at the end of the words. -/
theorem unpackBytes_fst (ws : List Word) :
    (unpackBytes ws).1 = (Word.littleEndian ws).takeWhile (· ≠ 0) := by
  induction ws with
  | nil => rfl
  | cons w ws ih =>
    rw [Word.littleEndian, List.flatMap_cons, ← Word.littleEndian, unpackBytes]
    split
    · rename_i hzero
      have hshort : ((Word.bytes w).takeWhile (· ≠ 0)).length ≠ (Word.bytes w).length := by
        intro hlen
        rw [← (List.takeWhile_prefix _).eq_of_length hlen] at hzero
        simpa using List.mem_takeWhile_imp hzero
      rw [List.takeWhile_append, if_neg hshort]
    · rename_i hzero
      rw [List.takeWhile_append_of_pos, ih]
      intro b hb
      simpa using fun h : b = 0 => hzero (h ▸ hb)

/-- What is read of bytes that were written ends at their first zero byte. -/
theorem unpackBytes_packBytes (bs : List UInt8) (r : List Word) :
    (unpackBytes (packBytes bs ++ r)).1 = bs.takeWhile (· ≠ 0) := by
  obtain ⟨k, hk⟩ : ∃ k, 4 - bs.length % 4 = k + 1 := ⟨3 - bs.length % 4, by omega⟩
  have hall : Word.littleEndian (packBytes bs ++ r) =
      bs ++ 0 :: (List.replicate k 0 ++ Word.littleEndian r) := by
    rw [Word.littleEndian, List.flatMap_append, ← Word.littleEndian, littleEndian_packBytes, hk]
    simp [List.replicate_succ, Word.littleEndian]
  rw [unpackBytes_fst, hall, List.takeWhile_append, List.takeWhile_cons_of_neg (by simp)]
  split
  · rename_i hlen
    rw [List.append_nil, (List.takeWhile_prefix _).eq_of_length hlen]
  · rfl

theorem zero_not_mem_unpackBytes (ws : List Word) : 0 ∉ (unpackBytes ws).1 := by
  rw [unpackBytes_fst]
  intro h
  simpa using List.mem_takeWhile_imp h

end Literal

/-! ## NUL -/

namespace Text

/-- Only NUL is written with a zero byte. -/
theorem zero_mem_utf8EncodeChar (c : Char) : 0 ∈ String.utf8EncodeChar c ↔ c = '\x00' := by
  obtain ⟨v, hv⟩ : ∃ v, c.val.toNat = v := ⟨_, rfl⟩
  have hvalid : v < 0xD800 ∨ 0xDFFF < v ∧ v < 0x110000 := hv ▸ c.valid
  have hc : c = '\x00' ↔ v = 0 := by
    rw [← hv, ← Char.toNat_inj]
    rfl
  rw [hc]
  simp only [String.utf8EncodeChar, hv]
  split
  · rw [List.mem_singleton, ← UInt8.toNat_inj, UInt8.toNat_ofNat']
    simp
    omega
  split
  · simp [← UInt8.toNat_inj]
    omega
  split
  · simp [← UInt8.toNat_inj]
    omega
  · simp [← UInt8.toNat_inj]
    omega

namespace Pending

/-- Whether a character other than NUL comes of some bits, whatever the awaited bytes are. -/
def Legible (bits : Nat) : List (UInt8 × UInt8) → Prop
  | [] => bits ≠ 0 ∧ bits.isValidChar
  | (lo, hi) :: more => ∀ b : UInt8, lo ≤ b → b ≤ hi → Legible (bits * 64 + b.toNat % 64) more

/-- A byte that is awaited without a restriction ends a character that is not NUL. -/
theorem legible_last {bits : Nat} (h : 0 < bits)
    (hvalid : bits * 64 + 63 < 0xD800 ∨ 0xDFFF < bits * 64 ∧ bits * 64 + 63 < 0x110000) :
    Legible bits [(0x80, 0xBF)] := by
  intro b _ _
  exact ⟨by omega, hvalid.imp (by omega) fun _ => ⟨by omega, by omega⟩⟩

/-- A first byte that is not zero does not begin NUL. -/
theorem legible_of_ofFirst? {b : UInt8} {bits : Nat} {awaited : List (UInt8 × UInt8)}
    (hp : ofFirst? b = some ⟨bits, awaited⟩) (hb : b ≠ 0) : Legible bits awaited := by
  obtain ⟨n, hn, rfl⟩ : ∃ n < 256, b = UInt8.ofNat n := ⟨b.toNat, b.toNat_lt, by simp⟩
  have hpos : n ≠ 0 := fun h => hb (h ▸ rfl)
  rw [ofFirst?_ofNat hn] at hp
  split at hp
  · cases hp
    exact ⟨hpos, .inl (by omega)⟩
  split at hp
  · cases hp
  split at hp
  · cases hp
    exact legible_last (by omega) (.inl (by omega))
  split at hp
  · cases hp
    intro c hlo hhi
    simp only [UInt8.le_iff_toNat_le, apply_ite UInt8.toNat, UInt8.reduceToNat] at hlo hhi
    split at hlo <;> split at hhi <;> exact legible_last (by omega) (by omega)
  split at hp
  · cases hp
    intro c hlo hhi d hlo' hhi'
    simp only [UInt8.le_iff_toNat_le, apply_ite UInt8.toNat, UInt8.reduceToNat] at hlo hhi
    split at hlo <;> split at hhi <;> exact legible_last (by omega) (by omega)
  · cases hp

variable {p : Pending} {b : UInt8}

/-- Whether no NUL comes of what has begun, if something has. -/
def Begun (p : Pending) : Prop := p.awaited = [] ∨ Legible p.bits p.awaited

theorem Begun.settle (h : Legible p.bits p.awaited) :
    '\x00' ∉ p.settle.1 ∧ p.settle.2.Begun := by
  unfold Pending.settle
  split
  · rename_i ha
    rw [ha] at h
    refine ⟨fun hmem => ?_, .inl rfl⟩
    have hnul : Char.ofNat p.bits = '\x00' := (List.mem_singleton.mp hmem).symm
    rw [Char.ofNat, dif_pos h.2] at hnul
    exact h.1 (congrArg Char.toNat hnul)
  · exact ⟨List.not_mem_nil, .inr h⟩

theorem Begun.first (hb : b ≠ 0) : '\x00' ∉ (Pending.first b).1 ∧ (Pending.first b).2.Begun := by
  unfold Pending.first
  split
  · exact ⟨by decide, .inl rfl⟩
  · rename_i p hp
    exact Begun.settle (legible_of_ofFirst? hp hb)

/-- No byte but zero completes NUL. -/
theorem Begun.next (h : p.Begun) (hb : b ≠ 0) : '\x00' ∉ (p.next b).1 ∧ (p.next b).2.Begun := by
  unfold Pending.next
  split
  · exact Begun.first hb
  · rename_i lo hi more ha
    split
    · rename_i hrange
      rcases h with h | h
      · cases ha.symm.trans h
      · rw [ha] at h
        exact Begun.settle (h b hrange.1 hrange.2)
    · obtain ⟨hfirst, hbegun⟩ := Begun.first hb
      refine ⟨fun hmem => ?_, hbegun⟩
      rcases List.mem_cons.mp hmem with hnul | hmem
      · exact absurd hnul (by decide)
      · exact hfirst hmem

/-- What is read of bytes that are not zero has no NUL. -/
theorem Begun.decode (h : p.Begun) {bs : List UInt8} (hbs : 0 ∉ bs) : '\x00' ∉ p.decode bs := by
  induction bs generalizing p with
  | nil =>
    rw [Pending.decode]
    split
    · exact List.not_mem_nil
    · decide
  | cons b r ih =>
    rw [List.mem_cons, not_or] at hbs
    obtain ⟨hnext, hbegun⟩ := h.next (Ne.symm hbs.1)
    rw [Pending.decode, List.mem_append, not_or]
    exact ⟨hnext, ih hbegun hbs.2⟩

end Pending

end Text

/-! ## Strings -/

namespace Literal

/-- What a reader finds of a string: all in front of its first NUL. -/
def upToNul (s : String) : String := String.ofList (s.toList.takeWhile (· ≠ '\x00'))

theorem upToNul_eq_self {s : String} : upToNul s = s ↔ '\x00' ∉ s.toList := by
  rw [upToNul, ← String.toList_inj, String.toList_ofList, List.takeWhile_eq_self_iff]
  constructor
  · exact fun h hmem => by simpa using h _ hmem
  · exact fun h c hc => by simpa using fun hnul : c = '\x00' => h (hnul ▸ hc)

/-- The bytes in front of the first that is zero are those of the characters in front of NUL. -/
theorem takeWhile_encode (s : String) :
    (Text.encode s).takeWhile (· ≠ 0) = Text.encode (upToNul s) := by
  rw [upToNul, Text.encode, Text.encode, String.toList_ofList]
  induction s.toList with
  | nil => rfl
  | cons c cs ih =>
    by_cases hc : c = '\x00'
    · subst hc
      rfl
    · have hzero := mt (Text.zero_mem_utf8EncodeChar c).mp hc
      rw [List.takeWhile_cons_of_pos (by simpa using hc), List.flatMap_cons, List.flatMap_cons,
        List.takeWhile_append_of_pos, ih]
      intro b hb
      simpa using fun h : b = 0 => hzero (h ▸ hb)

/-- A string is read back up to its first NUL, whatever words follow. -/
theorem unpack_pack (s : String) (r : List Word) : (unpack (pack s ++ r)).1 = upToNul s := by
  rw [unpack, pack, unpackBytes_packBytes, takeWhile_encode, Text.decode_encode]

/-- No string that is read has a NUL. -/
theorem nul_not_mem_unpack (ws : List Word) : '\x00' ∉ (unpack ws).1.toList := by
  rw [unpack, Text.decode, String.toList_ofList]
  exact Text.Pending.Begun.decode (.inl rfl) (zero_not_mem_unpackBytes ws)

end Literal

end SpirvModule
