import SpirvModule.ModuleView
import SpirvModule.Proofs.Packing

/-!
# Binaries of either byte order

Bytes that fill whole words are the bytes of exactly one list of words, least significant byte
first. In a module of the other byte order the bytes of every word are reversed, those of the first
one included, so that the first word tells how all of them are to be read.

* `Unreadable`: which binaries are refused, and with which error.

Results:
* `Word.littleEndian_ofByteList`, `Word.ofByteList_littleEndian`: words and their bytes.
* `Word.bigEndian_eq`: the bytes of words in the other order.
* `wordsOfBytes_eq_ok`, `wordsOfBytes_eq_error`: what a binary is read as, and why it is refused.
* `binaries_read_exactly`: all of it, for both byte orders.
-/
namespace SpirvModule

namespace Word

/-! ## Words and their bytes in either order -/

/-- Every word is made of four bytes. -/
theorem exists_ofBytes (w : Word) : ∃ a b c d, w = ofBytes a b c d :=
  ⟨UInt8.ofNat w.toNat, UInt8.ofNat (w.toNat / 256), UInt8.ofNat (w.toNat / 65536),
    UInt8.ofNat (w.toNat / 16777216), bytes_injective (bytes_ofBytes ..).symm⟩

theorem swap_ofBytes (a b c d : UInt8) : swap (ofBytes a b c d) = ofBytes d c b a := by
  have ha := a.toNat_lt
  have hb := b.toNat_lt
  have hc := c.toNat_lt
  have hd := d.toNat_lt
  have hw := toNat_ofBytes a b c d
  have h3 : (ofBytes a b c d).toNat / 16777216 % 256 = d.toNat := by omega
  have h2 : (ofBytes a b c d).toNat / 65536 % 256 = c.toNat := by omega
  have h1 : (ofBytes a b c d).toNat / 256 % 256 = b.toNat := by omega
  have h0 : (ofBytes a b c d).toNat % 256 = a.toNat := by omega
  rw [swap, h0, h1, h2, h3, ofBytes]

theorem bytes_swap (w : Word) : bytes (swap w) = (bytes w).reverse := by
  obtain ⟨a, b, c, d, rfl⟩ := exists_ofBytes w
  rw [swap_ofBytes, bytes_ofBytes, bytes_ofBytes]
  rfl

@[simp] theorem swap_swap (w : Word) : swap (swap w) = w := by
  apply bytes_injective
  rw [bytes_swap, bytes_swap, List.reverse_reverse]

theorem map_swap_swap (ws : List Word) : (ws.map swap).map swap = ws := by
  rw [List.map_map, show swap ∘ swap = id from funext swap_swap, List.map_id]

/-- What is written in the other byte order are the words with their bytes reversed. -/
theorem bigEndian_eq (ws : List Word) : bigEndian ws = littleEndian (ws.map swap) := by
  rw [bigEndian, littleEndian, List.flatMap_map]
  simp only [bytes_swap]

@[simp] theorem length_bigEndian (ws : List Word) : (bigEndian ws).length = 4 * ws.length := by
  rw [bigEndian_eq, length_littleEndian, List.length_map]

/-- The first four bytes are those of the first word. -/
theorem take_littleEndian (w : Word) (ws : List Word) :
    (littleEndian (w :: ws)).take 4 = bytes w := by
  rw [littleEndian_cons]
  exact List.take_left' (length_bytes w)

theorem take_bigEndian (w : Word) (ws : List Word) :
    (bigEndian (w :: ws)).take 4 = (bytes w).reverse := by
  rw [bigEndian_eq, List.map_cons, take_littleEndian, bytes_swap]

/-- Bytes that fill whole words are those of the words that are read of them. -/
theorem littleEndian_ofByteList {bs : List UInt8} (h : bs.length % 4 = 0) :
    littleEndian (ofByteList bs) = bs := by
  fun_induction ofByteList bs with
  | case1 a b c d r ih =>
    have hr : r.length % 4 = 0 := by
      simp only [List.length_cons] at h
      omega
    rw [littleEndian_cons, bytes_ofBytes, ih hr]
    rfl
  | case2 bs hshort =>
    match bs with
    | [] => rfl
    | [_] | [_, _] | [_, _, _] => cases h
    | a :: b :: c :: d :: r => exact (hshort a b c d r rfl).elim

theorem ofByteList_littleEndian (ws : List Word) : ofByteList (littleEndian ws) = ws := by
  apply littleEndian_injective
  apply littleEndian_ofByteList
  rw [length_littleEndian]
  omega

/-- Bytes that fill whole words are the bytes of some. -/
theorem exists_littleEndian {bs : List UInt8} (h : bs.length % 4 = 0) :
    ∃ ws, bs = littleEndian ws :=
  ⟨ofByteList bs, (littleEndian_ofByteList h).symm⟩

end Word

open Word

/-! ## Reading a binary -/

/-- Why a binary is refused. Its length comes first, and its first word counts as it is read with
the least significant byte first. -/
inductive Unreadable (bs : List UInt8) : LoadError → Prop
  | unaligned (h : bs.length % 4 ≠ 0) : Unreadable bs (.unalignedLength bs.length)
  | empty (h : bs = []) : Unreadable bs (.truncatedHeader 0)
  | foreign {w : Word} (h : bs.length % 4 = 0) (hw : bs.take 4 = bytes w)
      (hlittle : bs.take 4 ≠ bytes magic) (hbig : bs.take 4 ≠ (bytes magic).reverse) :
      Unreadable bs (.badMagic w)

section
variable {bs : List UInt8} {ws : List Word} {e : LoadError}

/-- Words that are not none are read as they are, or with their bytes reversed, whichever begin with
the magic number. -/
theorem wordsOfBytes_littleEndian (w : Word) (r : List Word) :
    wordsOfBytes (littleEndian (w :: r)) =
      if w = magic then .ok (w :: r)
      else if swap w = magic then .ok ((w :: r).map swap)
      else .error (.badMagic w) := by
  have haligned : (littleEndian (w :: r)).length % 4 = 0 := by
    rw [length_littleEndian]
    omega
  rw [wordsOfBytes, if_neg (not_not.mpr haligned), ofByteList_littleEndian]

theorem exists_cons_of_magic (hmagic : ws[0]? = some magic) : ∃ r, ws = magic :: r :=
  List.head?_eq_some_iff.mp (List.head?_eq_getElem?.trans hmagic)

/-- The magic number tells its bytes from their reverse. -/
theorem swap_magic_ne : swap magic ≠ magic := by decide +kernel

theorem reverse_bytes_magic_ne : (bytes magic).reverse ≠ bytes magic := by
  rw [← bytes_swap]
  exact fun h => swap_magic_ne (bytes_injective h)

/-- The magic number in front tells the order of the bytes. -/
theorem wordsOfBytes_of_magic (hmagic : ws[0]? = some magic) :
    wordsOfBytes (littleEndian ws) = .ok ws ∧ wordsOfBytes (bigEndian ws) = .ok ws := by
  obtain ⟨r, rfl⟩ := exists_cons_of_magic hmagic
  constructor
  · rw [wordsOfBytes_littleEndian, if_pos rfl]
  · rw [bigEndian_eq, List.map_cons, wordsOfBytes_littleEndian, if_neg swap_magic_ne,
      if_pos (swap_swap magic), ← List.map_cons, map_swap_swap]

theorem Unreadable.wordsOfBytes_eq (h : Unreadable bs e) : wordsOfBytes bs = .error e := by
  cases h with
  | unaligned h => rw [wordsOfBytes, if_pos h]
  | empty h =>
    subst h
    rfl
  | @foreign w h hw hlittle hbig =>
    obtain ⟨us, rfl⟩ := exists_littleEndian h
    cases us with
    | nil => cases hw
    | cons v r =>
      rw [take_littleEndian] at hw hlittle hbig
      obtain rfl := bytes_injective hw
      have hv : v ≠ magic := fun hv => hlittle (congrArg bytes hv)
      have hswap : swap v ≠ magic := by
        intro hv
        rw [← hv, bytes_swap, List.reverse_reverse] at hbig
        exact hbig rfl
      rw [wordsOfBytes_littleEndian, if_neg hv, if_neg hswap]

/-- A binary is refused for a reason, or read as words that begin with the magic number and that it
holds in one order or the other. -/
theorem wordsOfBytes_ends (bs : List UInt8) :
    (∃ e, wordsOfBytes bs = .error e ∧ Unreadable bs e) ∨
      ∃ ws, wordsOfBytes bs = .ok ws ∧ ws[0]? = some magic ∧
        (bs = littleEndian ws ∨ bs = bigEndian ws) := by
  by_cases haligned : bs.length % 4 = 0
  · obtain ⟨us, rfl⟩ := exists_littleEndian haligned
    cases us with
    | nil => exact .inl ⟨_, rfl, .empty rfl⟩
    | cons w r =>
      by_cases hw : w = magic
      · subst hw
        exact .inr ⟨_, (wordsOfBytes_of_magic rfl).1, rfl, .inl rfl⟩
      by_cases hswap : swap w = magic
      · obtain rfl : w = swap magic := by rw [← hswap, swap_swap]
        have hbig : littleEndian (swap magic :: r) = bigEndian (magic :: r.map swap) := by
          rw [bigEndian_eq, List.map_cons, map_swap_swap]
        rw [hbig]
        exact .inr ⟨_, (wordsOfBytes_of_magic rfl).2, rfl, .inr rfl⟩
      · have hforeign : Unreadable (littleEndian (w :: r)) (.badMagic w) := by
          refine .foreign haligned (take_littleEndian w r) ?_ ?_
          · rw [take_littleEndian]
            exact fun h => hw (bytes_injective h)
          · rw [take_littleEndian, ← bytes_swap]
            intro h
            rw [bytes_injective h, swap_swap] at hswap
            exact hswap rfl
        exact .inl ⟨_, hforeign.wordsOfBytes_eq, hforeign⟩
  · exact .inl ⟨_, Unreadable.wordsOfBytes_eq (.unaligned haligned), .unaligned haligned⟩

/-- A binary is read as the words that it holds in one order or the other, if the first of them is
the magic number. -/
theorem wordsOfBytes_eq_ok :
    wordsOfBytes bs = .ok ws ↔
      ws[0]? = some magic ∧ (bs = littleEndian ws ∨ bs = bigEndian ws) := by
  constructor
  · intro h
    rcases wordsOfBytes_ends bs with ⟨e, he, -⟩ | ⟨us, hus, hread⟩
    · cases h.symm.trans he
    · cases h.symm.trans hus
      exact hread
  · rintro ⟨hmagic, rfl | rfl⟩
    · exact (wordsOfBytes_of_magic hmagic).1
    · exact (wordsOfBytes_of_magic hmagic).2

theorem wordsOfBytes_eq_error : wordsOfBytes bs = .error e ↔ Unreadable bs e := by
  refine ⟨fun h => ?_, Unreadable.wordsOfBytes_eq⟩
  rcases wordsOfBytes_ends bs with ⟨e', he, hread⟩ | ⟨us, hus, -⟩
  · cases h.symm.trans he
    exact hread
  · cases h.symm.trans hus

/-- A binary is read if it fills whole words and its first four bytes are those of the magic number
in one order or the other. -/
theorem exists_wordsOfBytes_iff :
    (∃ ws, wordsOfBytes bs = .ok ws) ↔ bs.length % 4 = 0 ∧
      (bs.take 4 = bytes magic ∨ bs.take 4 = (bytes magic).reverse) := by
  constructor
  · rintro ⟨ws, hws⟩
    obtain ⟨hmagic, hbytes⟩ := wordsOfBytes_eq_ok.mp hws
    obtain ⟨r, rfl⟩ := exists_cons_of_magic hmagic
    rcases hbytes with rfl | rfl
    · refine ⟨?_, .inl (take_littleEndian magic r)⟩
      rw [length_littleEndian]
      omega
    · refine ⟨?_, .inr (take_bigEndian magic r)⟩
      rw [length_bigEndian]
      omega
  · rintro ⟨haligned, hfirst⟩
    rcases wordsOfBytes_ends bs with ⟨e, -, hread⟩ | ⟨ws, hws, -⟩
    · -- none of the reasons applies
      cases hread with
      | unaligned h => exact (h haligned).elim
      | empty h =>
        subst h
        rcases hfirst with h | h <;> cases h
      | foreign _ _ hlittle hbig => exact (hfirst.elim hlittle hbig).elim
    · exact ⟨ws, hws⟩

/-- A binary is the words that are read of it, in the order of its first four bytes. -/
theorem bytes_of_wordsOfBytes (h : wordsOfBytes bs = .ok ws) :
    ws.length = bs.length / 4 ∧ (bs.take 4 = bytes magic → bs = littleEndian ws) ∧
      (bs.take 4 = (bytes magic).reverse → bs = bigEndian ws) := by
  obtain ⟨hmagic, hbytes⟩ := wordsOfBytes_eq_ok.mp h
  obtain ⟨r, rfl⟩ := exists_cons_of_magic hmagic
  rcases hbytes with rfl | rfl
  · rw [take_littleEndian, length_littleEndian]
    exact ⟨by omega, fun _ => rfl, fun hother => (reverse_bytes_magic_ne hother.symm).elim⟩
  · rw [take_bigEndian, length_bigEndian]
    exact ⟨by omega, fun hother => (reverse_bytes_magic_ne hother).elim, fun _ => rfl⟩

end

/-- A binary is read exactly if it fills whole words and begins with the magic number in either
order of bytes, and then as the words that it holds in that order, all of them. Words that begin
with the magic number are read back from their bytes in either order. Any other binary is refused,
for its length, for being empty, or for its first word. -/
theorem binaries_read_exactly (bs : List UInt8) :
    ((∃ ws, wordsOfBytes bs = .ok ws) ↔ bs.length % 4 = 0 ∧
      (bs.take 4 = bytes magic ∨ bs.take 4 = (bytes magic).reverse)) ∧
    (∀ ws, wordsOfBytes bs = .ok ws → ws[0]? = some magic ∧ ws.length = bs.length / 4 ∧
      (bs.take 4 = bytes magic → bs = littleEndian ws) ∧
      (bs.take 4 = (bytes magic).reverse → bs = bigEndian ws)) ∧
    (∀ ws : List Word, ws[0]? = some magic →
      wordsOfBytes (littleEndian ws) = .ok ws ∧ wordsOfBytes (bigEndian ws) = .ok ws) ∧
    ∀ e, wordsOfBytes bs = .error e ↔ Unreadable bs e := by
  refine ⟨exists_wordsOfBytes_iff, fun ws hws => ?_, fun ws => wordsOfBytes_of_magic,
    fun e => wordsOfBytes_eq_error⟩
  exact ⟨(wordsOfBytes_eq_ok.mp hws).1, bytes_of_wordsOfBytes hws⟩

/-- A binary in the other order of bytes, and one whose magic number has two bytes exchanged. -/
theorem binaries_read_exactly_reversed :
    wordsOfBytes [0x07, 0x23, 0x02, 0x03, 0x00, 0x01, 0x03, 0x00] = .ok [magic, 0x00010300] ∧
    [0x07, 0x23, 0x02, 0x03, 0x00, 0x01, 0x03, 0x00] = bigEndian [magic, 0x00010300] ∧
    wordsOfBytes [0x02, 0x03, 0x23, 0x07] = .error (.badMagic 0x07230302) := by
  have hread := binaries_read_exactly [0x07, 0x23, 0x02, 0x03, 0x00, 0x01, 0x03, 0x00]
  have hbytes : bigEndian [magic, 0x00010300] =
      [0x07, 0x23, 0x02, 0x03, 0x00, 0x01, 0x03, 0x00] := by decide +kernel
  have hws := (hread.2.2.1 [magic, 0x00010300] rfl).2
  rw [hbytes] at hws
  refine ⟨hws, (hread.2.1 _ hws).2.2.2 (by decide +kernel), ?_⟩
  exact ((binaries_read_exactly [0x02, 0x03, 0x23, 0x07]).2.2.2 _).mpr
    (.foreign rfl (by decide +kernel) (by decide +kernel) (by decide +kernel))

end SpirvModule
