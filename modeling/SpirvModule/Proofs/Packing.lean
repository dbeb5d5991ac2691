import SpirvModule.Proofs.Literals

/-!
# Strings and the words they fill

A string fills whole words, and its end is the first zero byte, so the number of words it takes
follows from the number of its bytes. Words are the same if their bytes are: what was read is
written back as the words it was read from, unless they hold something behind the end of the string
or bytes that are no text.

Results:
* `length_packBytes`, `unpackBytes_snd`: the number of words that are written, and of those read.
* `packBytes_unpackBytes`: the words that bytes were read from.
* `strings_round_trip`: what is left of a string that is written and read, and of words that are
  read and written.
-/
namespace SpirvModule

/-! ## Words and their bytes -/

namespace Word

@[simp] theorem length_bytes (w : Word) : (bytes w).length = 4 := rfl

/-- A word is determined by its bytes. -/
theorem bytes_injective {v w : Word} (h : bytes v = bytes w) : v = w := by
  have hv : v.toNat < 4294967296 := v.toNat_lt
  have hw : w.toNat < 4294967296 := w.toNat_lt
  simp only [bytes, List.cons.injEq, ← UInt8.toNat_inj, UInt8.toNat_ofNat', and_true] at h
  rw [← UInt32.toNat_inj]
  omega

theorem littleEndian_cons (w : Word) (ws : List Word) :
    littleEndian (w :: ws) = bytes w ++ littleEndian ws := List.flatMap_cons

theorem littleEndian_append (vs ws : List Word) :
    littleEndian (vs ++ ws) = littleEndian vs ++ littleEndian ws := List.flatMap_append

@[simp] theorem length_littleEndian (ws : List Word) : (littleEndian ws).length = 4 * ws.length := by
  induction ws with
  | nil => rfl
  | cons w ws ih =>
    rw [littleEndian_cons, List.length_append, ih, length_bytes, List.length_cons]
    omega

theorem littleEndian_take (n : Nat) (ws : List Word) :
    littleEndian (ws.take n) = (littleEndian ws).take (4 * n) := by
  induction n generalizing ws with
  | zero => simp [littleEndian]
  | succ n ih =>
    cases ws with
    | nil => simp [littleEndian]
    | cons w ws =>
      have hlen : 4 * (n + 1) = (bytes w).length + 4 * n := by
        rw [length_bytes]
        omega
      rw [List.take_succ_cons, littleEndian_cons, littleEndian_cons, ih, hlen,
        List.take_length_add_append]

/-- Words are determined by their bytes. -/
theorem littleEndian_injective {vs ws : List Word} (h : littleEndian vs = littleEndian ws) :
    vs = ws := by
  have hlen : vs.length = ws.length := by
    have := congrArg List.length h
    rw [length_littleEndian, length_littleEndian] at this
    omega
  induction vs generalizing ws with
  | nil => exact (List.length_eq_zero_iff.mp hlen.symm).symm
  | cons v vs ih =>
    cases ws with
    | nil => cases hlen
    | cons w ws =>
      rw [littleEndian_cons, littleEndian_cons] at h
      obtain ⟨hhead, htail⟩ := List.append_inj h rfl
      rw [bytes_injective hhead, ih htail (Nat.succ.inj hlen)]

end Word

/-! ## Texts -/

namespace Text

theorem encode_eq (s : String) : (encode s).toByteArray = s.toByteArray := by
  rw [encode, ← String.utf8Encode_toList]
  rfl

theorem length_encode (s : String) : (encode s).length = s.utf8ByteSize := by
  rw [← String.size_toByteArray, ← encode_eq, List.size_toByteArray]

/-- Bytes that are valid UTF-8 are those of what is read of them. -/
theorem encode_decode {bs : List UInt8} (h : bs.toByteArray.IsValidUTF8) :
    encode (decode bs) = bs := by
  obtain ⟨cs, hcs⟩ := h
  have hbs : bs = encode (String.ofList cs) := by
    rw [encode, String.toList_ofList]
    have := congrArg (fun b : ByteArray => b.data.toList) hcs
    simpa [List.utf8Encode] using this
  rw [hbs, decode_encode]

end Text

namespace Literal

/-! ## Words that are written, words that are read -/

/-- The zero byte at the end needs a word of its own behind a full one. -/
theorem length_packBytes (bs : List UInt8) : (packBytes bs).length = bs.length / 4 + 1 := by
  fun_induction packBytes bs with
  | case1 a b c d r ih =>
    rw [List.length_cons, ih]
    simp only [List.length_cons]
    omega
  | _ => simp

/-- Reading takes all words up to and with the one that holds the first zero byte, or all there
are. -/
theorem unpackBytes_snd (ws : List Word) :
    (unpackBytes ws).2 =
      if 0 ∈ Word.littleEndian ws then (unpackBytes ws).1.length / 4 + 1 else ws.length := by
  induction ws with
  | nil => rfl
  | cons w ws ih =>
    rw [Word.littleEndian_cons, unpackBytes]
    by_cases hzero : 0 ∈ Word.bytes w
    · have hshort : ((Word.bytes w).takeWhile (· ≠ 0)).length < 4 := by
        refine Nat.lt_of_le_of_ne (List.takeWhile_prefix _).length_le fun hlen => ?_
        rw [← (List.takeWhile_prefix _).eq_of_length hlen] at hzero
        simpa using List.mem_takeWhile_imp hzero
      rw [if_pos hzero, if_pos (List.mem_append_left _ hzero), Nat.div_eq_of_lt hshort]
    · rw [if_neg hzero, ih]
      by_cases hrest : 0 ∈ Word.littleEndian ws
      · rw [if_pos hrest, if_pos (List.mem_append_right _ hrest), List.length_append,
          Word.length_bytes]
        omega
      · rw [if_neg hrest, if_neg (by simp [hzero, hrest]), List.length_cons]

/-- Reading takes no more words than there are. -/
theorem unpackBytes_snd_le (ws : List Word) : (unpackBytes ws).2 ≤ ws.length := by
  induction ws with
  | nil => exact Nat.le_refl 0
  | cons w ws ih =>
    rw [unpackBytes]
    split
    · exact Nat.le_add_left ..
    · exact Nat.succ_le_succ ih

/-- As many words are read of a string that was written as those that its end lies in. -/
theorem unpackBytes_packBytes_snd (bs : List UInt8) (r : List Word) :
    (unpackBytes (packBytes bs ++ r)).2 = (bs.takeWhile (· ≠ 0)).length / 4 + 1 := by
  have hzero : 0 ∈ Word.littleEndian (packBytes bs ++ r) := by
    rw [Word.littleEndian_append, littleEndian_packBytes]
    refine List.mem_append_left _ (List.mem_append_right _ (List.mem_replicate.mpr ⟨?_, rfl⟩))
    omega
  rw [unpackBytes_snd, if_pos hzero, unpackBytes_packBytes]

/-- Words that hold only zero bytes behind the end of a string are those that are written for it. -/
theorem packBytes_unpackBytes {ws : List Word} {bs pad : List UInt8}
    (h : Word.littleEndian ws = bs ++ 0 :: pad) (hbs : 0 ∉ bs)
    (hpad : ∀ b ∈ pad.take (3 - bs.length % 4), b = 0) :
    (unpackBytes ws).1 = bs ∧ packBytes bs = ws.take (unpackBytes ws).2 := by
  have hread : (unpackBytes ws).1 = bs := by
    have hall : ∀ b ∈ bs, decide (b ≠ 0) := fun b hb => by
      simpa using fun hb0 : b = 0 => hbs (hb0 ▸ hb)
    rw [unpackBytes_fst, h, List.takeWhile_append_of_pos hall, List.takeWhile_cons_of_neg (by simp),
      List.append_nil]
  have htaken : (unpackBytes ws).2 = bs.length / 4 + 1 := by
    rw [unpackBytes_snd, if_pos (by simp [h]), hread]
  have hlen : bs.length + (pad.length + 1) = 4 * ws.length := by
    rw [← Word.length_littleEndian, h, List.length_append, List.length_cons]
  have hzeros : pad.take (3 - bs.length % 4) = List.replicate (3 - bs.length % 4) 0 := by
    refine List.eq_replicate_iff.mpr ⟨?_, hpad⟩
    rw [List.length_take]
    omega
  refine ⟨hread, Word.littleEndian_injective ?_⟩
  -- both sides end with the word that the zero byte lies in
  rw [littleEndian_packBytes, Word.littleEndian_take, htaken, h, List.take_append,
    List.take_of_length_le (by omega),
    show 4 * (bs.length / 4 + 1) - bs.length = 3 - bs.length % 4 + 1 by omega,
    List.take_succ_cons, hzeros, show 4 - bs.length % 4 = 3 - bs.length % 4 + 1 by omega,
    List.replicate_succ]

/-! ## Strings -/

/-- A string takes a word for every four bytes and one for its end; it is read back up to its first
NUL, from as many words as that part takes. No more words are read than there are, no NUL comes of
them, and what is read of them is read again once it is written. If they end a valid string and are
zero behind it, then writing what is read gives them back. -/
theorem strings_round_trip (s : String) (r w : List Word) :
    (pack s).length = s.utf8ByteSize / 4 + 1 ∧
    unpack (pack s ++ r) = (upToNul s, (upToNul s).utf8ByteSize / 4 + 1) ∧
    (unpack w).2 ≤ w.length ∧
    '\x00' ∉ (unpack w).1.toList ∧
    (unpack (pack (unpack w).1)).1 = (unpack w).1 ∧
    ∀ bs pad : List UInt8, Word.littleEndian w = bs ++ 0 :: pad → 0 ∉ bs →
      bs.toByteArray.IsValidUTF8 → (∀ b ∈ pad.take (3 - bs.length % 4), b = 0) →
        pack (unpack w).1 = w.take (unpack w).2 := by
  have hnul : '\x00' ∉ (unpack w).1.toList := nul_not_mem_unpack w
  refine ⟨?_, Prod.ext (unpack_pack s r) ?_, unpackBytes_snd_le w, hnul, ?_, ?_⟩
  · rw [pack, length_packBytes, Text.length_encode]
  · rw [← Text.length_encode, ← takeWhile_encode]
    exact unpackBytes_packBytes_snd (Text.encode s) r
  · calc (unpack (pack (unpack w).1)).1
      _ = (unpack (pack (unpack w).1 ++ [])).1 := by rw [List.append_nil]
      _ = upToNul (unpack w).1 := unpack_pack _ _
      _ = (unpack w).1 := upToNul_eq_self.mpr hnul
  · intro bs pad h hbs hvalid hpad
    obtain ⟨hread, hwords⟩ := packBytes_unpackBytes h hbs hpad
    rw [unpack, hread, pack, Text.encode_decode hvalid, hwords]

/-- Of two words the first ends a string of three bytes, so it is given back and the second is
left. -/
theorem strings_round_trip_umlaut :
    Word.littleEndian [0x00B6C361, 5] = [0x61, 0xC3, 0xB6] ++ 0 :: [5, 0, 0, 0] ∧
    unpack (pack "a\x00b" ++ [7]) = (upToNul "a\x00b", (upToNul "a\x00b").utf8ByteSize / 4 + 1) ∧
    pack (unpack [0x00B6C361, 5]).1 = [0x00B6C361, 5].take (unpack [0x00B6C361, 5]).2 := by
  have h := strings_round_trip "a\x00b" [7] [0x00B6C361, 5]
  have hbytes : Word.littleEndian [0x00B6C361, 5] = [0x61, 0xC3, 0xB6] ++ 0 :: [5, 0, 0, 0] := by
    decide +kernel
  have hvalid : [0x61, 0xC3, 0xB6].toByteArray.IsValidUTF8 := .intro ['a', '\u00F6'] rfl
  exact ⟨hbytes, h.2.1,
    h.2.2.2.2.2 [0x61, 0xC3, 0xB6] [5, 0, 0, 0] hbytes (by decide +kernel) hvalid
      (by decide +kernel)⟩

end Literal

end SpirvModule
