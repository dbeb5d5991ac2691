import SpirvModule.Text.Utf8

/-!
# Text that is read back

What is written of a text is read as that text: the first byte of a character tells how many are
awaited, and each of these lies in the range it is awaited in.

Results:
* `decode_utf8EncodeChar`: the bytes of a character are read as that character.
* `decode_encode`, `decode?_encode`: the bytes of a text are read as that text.
-/
namespace SpirvModule.Text

namespace Pending

/-- What the first byte leaves to be read, by its number. -/
theorem ofFirst?_ofNat {n : Nat} (hn : n < 256) : ofFirst? (UInt8.ofNat n) =
    if n < 0x80 then some ⟨n, []⟩
    else if n < 0xC2 then none
    else if n < 0xE0 then some ⟨n % 32, [(0x80, 0xBF)]⟩
    else if n < 0xF0 then
      some ⟨n % 16, [(if n = 0xE0 then 0xA0 else 0x80, if n = 0xED then 0x9F else 0xBF),
        (0x80, 0xBF)]⟩
    else if n < 0xF5 then
      some ⟨n % 8, [(if n = 0xF0 then 0x90 else 0x80, if n = 0xF4 then 0x8F else 0xBF),
        (0x80, 0xBF), (0x80, 0xBF)]⟩
    else none := by
  simp only [ofFirst?, UInt8.lt_iff_toNat_lt, ← UInt8.toNat_inj, UInt8.toNat_ofNat_of_lt' hn,
    UInt8.reduceToNat]

/-- A first byte after which more are awaited. -/
theorem decode_first {b : UInt8} {p : Pending} (hp : ofFirst? b = some p) (ha : p.awaited ≠ [])
    (r : List UInt8) : idle.decode (b :: r) = p.decode r := by
  show (first b).1 ++ (first b).2.decode r = _
  rw [first, hp]
  show p.settle.1 ++ p.settle.2.decode r = _
  rw [settle, if_neg ha]
  rfl

variable {bits n : Nat} {lo hi : UInt8} {e : UInt8 × UInt8} {more : List (UInt8 × UInt8)}

/-- A byte in the range in which one is awaited adds six bits. -/
theorem next_tail (hlo : lo.toNat ≤ n % 64 + 0x80) (hhi : n % 64 + 0x80 ≤ hi.toNat) :
    (Pending.mk bits ((lo, hi) :: more)).next (UInt8.ofNat (n % 64 + 0x80)) =
      settle ⟨bits * 64 + n % 64, more⟩ := by
  have hb : (UInt8.ofNat (n % 64 + 0x80)).toNat = n % 64 + 0x80 :=
    UInt8.toNat_ofNat_of_lt' (by omega : _ < 256)
  have hrange : lo ≤ UInt8.ofNat (n % 64 + 0x80) ∧ UInt8.ofNat (n % 64 + 0x80) ≤ hi := by
    rw [UInt8.le_iff_toNat_le, UInt8.le_iff_toNat_le, hb]
    exact ⟨hlo, hhi⟩
  rw [next]
  simp only [hb, if_pos hrange]
  rw [show (n % 64 + 0x80) % 64 = n % 64 by omega]

theorem decode_tail (hlo : lo.toNat ≤ n % 64 + 0x80) (hhi : n % 64 + 0x80 ≤ hi.toNat)
    (r : List UInt8) :
    (Pending.mk bits ((lo, hi) :: e :: more)).decode (UInt8.ofNat (n % 64 + 0x80) :: r) =
      (Pending.mk (bits * 64 + n % 64) (e :: more)).decode r := by
  rw [decode, next_tail hlo hhi, settle, if_neg (List.cons_ne_nil e more)]
  rfl

/-- The last byte of a character. -/
theorem decode_last (r : List UInt8) :
    (Pending.mk bits [(0x80, 0xBF)]).decode (UInt8.ofNat (n % 64 + 0x80) :: r) =
      Char.ofNat (bits * 64 + n % 64) :: idle.decode r := by
  have hlo : 0x80 ≤ n % 64 + 0x80 := by omega
  have hhi : n % 64 + 0x80 ≤ 0xBF := by omega
  rw [decode, next_tail hlo hhi, settle, if_pos rfl]
  rfl

/-! ### Characters by their length -/

variable {v : Nat}

theorem decode_one (h : v ≤ 0x7F) (r : List UInt8) :
    idle.decode (UInt8.ofNat v :: r) = Char.ofNat v :: idle.decode r := by
  show (first (UInt8.ofNat v)).1 ++ (first (UInt8.ofNat v)).2.decode r = _
  rw [first, ofFirst?_ofNat (by omega), if_pos (by omega)]
  rfl

theorem decode_two (h : 0x7F < v) (h' : v ≤ 0x7FF) (r : List UInt8) :
    idle.decode (UInt8.ofNat (v / 64 % 32 + 0xC0) :: UInt8.ofNat (v % 64 + 0x80) :: r) =
      Char.ofNat v :: idle.decode r := by
  have hp : ofFirst? (UInt8.ofNat (v / 64 % 32 + 0xC0)) = some ⟨v / 64, [(0x80, 0xBF)]⟩ := by
    rw [ofFirst?_ofNat (by omega), if_neg (by omega), if_neg (by omega), if_pos (by omega),
      show (v / 64 % 32 + 0xC0) % 32 = v / 64 by omega]
  rw [decode_first hp nofun, decode_last, show v / 64 * 64 + v % 64 = v by omega]

/-- The range of the second byte leaves out numbers that two bytes are enough for, and those that
belong to no character. -/
theorem decode_three (h : 0x7FF < v) (h' : v ≤ 0xFFFF) (hvalid : v < 0xD800 ∨ 0xDFFF < v)
    (r : List UInt8) :
    idle.decode (UInt8.ofNat (v / 4096 % 16 + 0xE0) :: UInt8.ofNat (v / 64 % 64 + 0x80) ::
      UInt8.ofNat (v % 64 + 0x80) :: r) = Char.ofNat v :: idle.decode r := by
  have hp : ofFirst? (UInt8.ofNat (v / 4096 % 16 + 0xE0)) =
      some ⟨v / 4096, [(if v / 4096 = 0 then 0xA0 else 0x80,
        if v / 4096 = 13 then 0x9F else 0xBF), (0x80, 0xBF)]⟩ := by
    have h0 : v / 4096 % 16 + 0xE0 = 0xE0 ↔ v / 4096 = 0 := by omega
    have h13 : v / 4096 % 16 + 0xE0 = 0xED ↔ v / 4096 = 13 := by omega
    rw [ofFirst?_ofNat (by omega), if_neg (by omega), if_neg (by omega), if_neg (by omega),
      if_pos (by omega), show (v / 4096 % 16 + 0xE0) % 16 = v / 4096 by omega]
    simp only [h0, h13]
  rw [decode_first hp nofun, decode_tail, decode_last,
    show (v / 4096 * 64 + v / 64 % 64) * 64 + v % 64 = v by omega]
  · split
    · exact (by omega : 0xA0 ≤ v / 64 % 64 + 0x80)
    · exact Nat.le_add_left ..
  · split
    · exact (by omega : v / 64 % 64 + 0x80 ≤ 0x9F)
    · exact (by omega : v / 64 % 64 + 0x80 ≤ 0xBF)

/-- Here it leaves out numbers that three bytes are enough for, and those above all characters. -/
theorem decode_four (h : 0xFFFF < v) (h' : v < 0x110000) (r : List UInt8) :
    idle.decode (UInt8.ofNat (v / 262144 % 8 + 0xF0) :: UInt8.ofNat (v / 4096 % 64 + 0x80) ::
      UInt8.ofNat (v / 64 % 64 + 0x80) :: UInt8.ofNat (v % 64 + 0x80) :: r) =
        Char.ofNat v :: idle.decode r := by
  have hp : ofFirst? (UInt8.ofNat (v / 262144 % 8 + 0xF0)) =
      some ⟨v / 262144, [(if v / 262144 = 0 then 0x90 else 0x80,
        if v / 262144 = 4 then 0x8F else 0xBF), (0x80, 0xBF), (0x80, 0xBF)]⟩ := by
    have h0 : v / 262144 % 8 + 0xF0 = 0xF0 ↔ v / 262144 = 0 := by omega
    have h4 : v / 262144 % 8 + 0xF0 = 0xF4 ↔ v / 262144 = 4 := by omega
    rw [ofFirst?_ofNat (by omega), if_neg (by omega), if_neg (by omega), if_neg (by omega),
      if_neg (by omega), if_pos (by omega),
      show (v / 262144 % 8 + 0xF0) % 8 = v / 262144 by omega]
    simp only [h0, h4]
  rw [decode_first hp nofun, decode_tail, decode_tail (Nat.le_add_left ..), decode_last,
    show ((v / 262144 * 64 + v / 4096 % 64) * 64 + v / 64 % 64) * 64 + v % 64 = v by omega]
  · exact (by omega : v / 64 % 64 + 0x80 ≤ 0xBF)
  · split
    · exact (by omega : 0x90 ≤ v / 4096 % 64 + 0x80)
    · exact Nat.le_add_left ..
  · split
    · exact (by omega : v / 4096 % 64 + 0x80 ≤ 0x8F)
    · exact (by omega : v / 4096 % 64 + 0x80 ≤ 0xBF)

end Pending

/-! ## Texts -/

/-- The bytes of a character are read as that character. -/
theorem decode_utf8EncodeChar (c : Char) (r : List UInt8) :
    Pending.idle.decode (String.utf8EncodeChar c ++ r) = c :: Pending.idle.decode r := by
  obtain ⟨v, hv⟩ : ∃ v, c.val.toNat = v := ⟨_, rfl⟩
  have hvalid : v < 0xD800 ∨ 0xDFFF < v ∧ v < 0x110000 := hv ▸ c.valid
  have hc : Char.ofNat v = c := hv ▸ Char.ofNat_toNat c
  simp only [String.utf8EncodeChar, hv]
  rw [← hc]
  split
  · exact Pending.decode_one (by omega) r
  split
  · exact Pending.decode_two (by omega) (by omega) r
  split
  · exact Pending.decode_three (by omega) (by omega) (by omega) r
  · exact Pending.decode_four (by omega) (by omega) r

/-- The bytes of a text are read as that text. -/
theorem decode_encode (s : String) : decode (encode s) = s := by
  have hall (cs : List Char) : Pending.idle.decode (cs.flatMap String.utf8EncodeChar) = cs := by
    induction cs with
    | nil => rfl
    | cons c cs ih => rw [List.flatMap_cons, decode_utf8EncodeChar, ih]
  rw [decode, encode, hall, String.ofList_toList]

theorem decode?_encode (s : String) : decode? (encode s) = some s := by
  rw [decode?, decode_encode, if_pos rfl]

end SpirvModule.Text
