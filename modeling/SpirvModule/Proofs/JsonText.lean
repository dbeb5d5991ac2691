import SpirvModule.Proofs.Utf8
import SpirvModule.Text.Json

/-!
# JSON that is read back

Reading goes byte by byte, writing character by character. What is written of a value is read as
that value, wherever it stands: a number ends where its digits end, and all else ends by itself.

* `signs`, `spelled`: the bytes of a text, as they are read.
* `Writes`: that some bytes are read as a value.

Results:
* `string?_quoted`: a string is read back, whatever characters it holds.
* `Writes.bool`, `Writes.digits`, `Writes.array`, `Writes.object`: so are other values.
* `Writes.parse?`: the bytes of a file that writes a value.
-/
namespace SpirvModule.JsonValue

/-! ## Bytes as characters -/

/-- A byte as the character with its number. -/
def sign (b : UInt8) : Char := Char.ofNat b.toNat

/-- The bytes of a character. -/
def signs (c : Char) : List Char := (String.utf8EncodeChar c).map sign

/-- The bytes of a text. -/
def spelled (s : String) : List Char := (Text.encode s).map sign

theorem toNat_sign (b : UInt8) : (sign b).toNat = b.toNat := by
  have hvalid : b.toNat.isValidChar := .inl (Nat.lt_trans b.toNat_lt (by decide))
  rw [sign, Char.ofNat, dif_pos hvalid]
  rfl

theorem ofNat_toNat_sign (b : UInt8) : UInt8.ofNat (sign b).toNat = b := by
  rw [toNat_sign, UInt8.ofNat_toNat]

theorem spelled_eq (s : String) : spelled s = s.toList.flatMap signs := List.map_flatMap ..

theorem spelled_append (s t : String) : spelled (s ++ t) = spelled s ++ spelled t := by
  simp only [spelled_eq, String.toList_append, List.flatMap_append]

theorem utf8EncodeChar_ascii {c : Char} (h : c.toNat < 0x80) :
    String.utf8EncodeChar c = [UInt8.ofNat c.toNat] := by
  have hle : c.val.toNat ≤ 0x7F := Nat.le_of_lt_succ h
  simp only [String.utf8EncodeChar, hle, if_true]
  rfl

theorem signs_ascii {c : Char} (h : c.toNat < 0x80) : signs c = [c] := by
  rw [signs, utf8EncodeChar_ascii h, List.map_singleton, sign,
    UInt8.toNat_ofNat_of_lt' (Nat.lt_trans h (by decide)), Char.ofNat_toNat]

theorem flatMap_signs_ascii {cs : List Char} (h : ∀ c ∈ cs, c.toNat < 0x80) :
    cs.flatMap signs = cs := by
  induction cs with
  | nil => rfl
  | cons c cs ih =>
    obtain ⟨hc, hcs⟩ := List.forall_mem_cons.mp h
    rw [List.flatMap_cons, signs_ascii hc, ih hcs, List.singleton_append]

/-- The bytes of all other characters are above those. -/
theorem le_toNat_signs {c : Char} (h : 0x80 ≤ c.toNat) : ∀ d ∈ signs c, 0x80 ≤ d.toNat := by
  have habove : ∀ b ∈ String.utf8EncodeChar c, 0x80 ≤ b.toNat := by
    have hnot : ¬ c.val.toNat ≤ 0x7F := Nat.not_le.mpr h
    simp only [String.utf8EncodeChar, hnot, if_false]
    repeat' split
    all_goals simp only [List.forall_mem_cons, List.not_mem_nil, false_implies, implies_true,
      and_true, UInt8.toNat_ofNat']
    all_goals omega
  intro d hd
  obtain ⟨b, hb, rfl⟩ := List.mem_map.mp hd
  rw [toNat_sign]
  exact habove b hb

/-! ## Strings -/

/-- Whether units of a string stand for some bytes, whatever follows them. -/
def Encodes (us : List (Char ⊕ Nat)) (bs : List UInt8) : Prop :=
  ∀ vs, joinUnits (us ++ vs) = (joinUnits vs).map (bs ++ ·)

theorem Encodes.append {us vs : List (Char ⊕ Nat)} {as bs : List UInt8} (h : Encodes us as)
    (h' : Encodes vs bs) : Encodes (us ++ vs) (as ++ bs) := by
  intro ws
  rw [List.append_assoc, h, h', Option.map_map]
  congr 1
  funext cs
  exact (List.append_assoc ..).symm

theorem encodes_nil : Encodes [] [] := fun vs => by simp

theorem encodes_inl (c : Char) : Encodes [.inl c] [UInt8.ofNat c.toNat] := fun _ => rfl

theorem encodes_signs (bs : List UInt8) : Encodes (bs.map fun b => .inl (sign b)) bs := by
  induction bs with
  | nil => exact encodes_nil
  | cons b bs ih =>
    have hb := encodes_inl (sign b)
    rw [ofNat_toNat_sign] at hb
    exact hb.append ih

/-- A number that is written by its digits stands for a character. -/
theorem encodes_inr {u : Nat} (hu : u < 0xD800) :
    Encodes [.inr u] (String.utf8EncodeChar (Char.ofNat u)) := by
  intro vs
  rw [List.singleton_append, joinUnits.eq_def]
  exact if_pos (by simp [hu])

/-- A sign that is no quote, no backslash and no control character stands for itself. -/
theorem stringBody_sign {d : Char} (hquote : d ≠ '"') (hback : d ≠ '\\') (hctrl : 32 ≤ d.toNat)
    (r : List Char) :
    stringBody (d :: r) = (stringBody r).map fun p => (.inl d :: p.1, p.2) := by
  rw [stringBody]
  · rw [if_neg (by simp [hback, Nat.not_lt.mpr hctrl]), Option.map_eq_bind]
    rfl
  all_goals simp_all

theorem stringBody_signs {ds : List Char}
    (h : ∀ d ∈ ds, d ≠ '"' ∧ d ≠ '\\' ∧ 32 ≤ d.toNat) (r : List Char) :
    stringBody (ds ++ r) = (stringBody r).map fun p => (ds.map .inl ++ p.1, p.2) := by
  induction ds with
  | nil => simp
  | cons d ds ih =>
    obtain ⟨⟨hquote, hback, hctrl⟩, hds⟩ := List.forall_mem_cons.mp h
    rw [List.cons_append, stringBody_sign hquote hback hctrl, ih hds, Option.map_map]
    rfl

/-- An escaped sign. -/
theorem stringBody_escape {c e : Char} (hu : c ≠ 'u') (he : escape? c = some e) (r : List Char) :
    stringBody ('\\' :: c :: r) = (stringBody r).map fun p => (.inl e :: p.1, p.2) := by
  rw [stringBody]
  · rw [he, Option.map_eq_bind]
    rfl
  all_goals simp_all

theorem stringBody_unit {a b c d : Char} {u : Nat} (hu : unit? a b c d = some u) (r : List Char) :
    stringBody ('\\' :: 'u' :: a :: b :: c :: d :: r) =
      (stringBody r).map fun p => (.inr u :: p.1, p.2) := by
  rw [stringBody, hu, Option.map_eq_bind]
  rfl

theorem encodes_ascii {c : Char} (h : c.toNat < 0x80) :
    Encodes [.inl c] (String.utf8EncodeChar c) := by
  rw [utf8EncodeChar_ascii h]
  exact encodes_inl c

/-- A control character is escaped by a letter, or by its number. -/
theorem controlEscape_cases : ∀ n < 32,
    (∃ d ∈ ['b', 'f', 'n', 'r', 't'], escape? d = some (Char.ofNat n) ∧
      controlEscape (Char.ofNat n) = ['\\', d]) ∨
    ∃ a b, unit? '0' '0' a b = some n ∧
      controlEscape (Char.ofNat n) = ['\\', 'u', '0', '0', a, b] := by
  have hall : ∀ n < 32,
      (['b', 'f', 'n', 'r', 't'].any fun d => escape? d = some (Char.ofNat n) &&
        controlEscape (Char.ofNat n) = ['\\', d]) ∨
      unit? '0' '0' (Nat.digitChar (n / 16)) (Nat.digitChar (n % 16)) = some n ∧
        controlEscape (Char.ofNat n) =
          ['\\', 'u', '0', '0', Nat.digitChar (n / 16), Nat.digitChar (n % 16)] := by decide
  intro n hn
  refine (hall n hn).imp (fun h => ?_) fun h => ⟨_, _, h⟩
  simpa only [List.any_eq_true, Bool.and_eq_true, decide_eq_true_eq] using h

theorem controlEscape_ascii : ∀ n < 32, ∀ d ∈ controlEscape (Char.ofNat n), d.toNat < 0x80 := by
  have hall : ∀ n < 32, (controlEscape (Char.ofNat n)).all (·.toNat < 0x80) := by decide
  intro n hn d hd
  simpa using List.all_eq_true.mp (hall n hn) d hd

/-- What is written of a character is read as units that stand for its bytes. -/
theorem stringBody_charText (c : Char) (r : List Char) :
    ∃ us, Encodes us (String.utf8EncodeChar c) ∧
      stringBody ((charText c).flatMap signs ++ r) =
        (stringBody r).map fun p => (us ++ p.1, p.2) := by
  unfold charText
  split
  · -- a quote or a backslash
    rename_i h
    have hc : c = '"' ∨ c = '\\' := by simpa using h
    have hascii : c.toNat < 0x80 := by rcases hc with rfl | rfl <;> decide
    have hu : c ≠ 'u' := by rcases hc with rfl | rfl <;> decide
    have he : escape? c = some c := by rcases hc with rfl | rfl <;> rfl
    rw [flatMap_signs_ascii (by simpa using hascii)]
    exact ⟨[.inl c], encodes_ascii hascii, stringBody_escape hu he r⟩
  split
  · rename_i hctrl
    obtain ⟨n, hn, rfl⟩ : ∃ n < 32, Char.ofNat n = c := ⟨c.toNat, hctrl, Char.ofNat_toNat c⟩
    rw [flatMap_signs_ascii (controlEscape_ascii n hn)]
    obtain ⟨d, hd, he, htext⟩ | ⟨a, b, hunit, htext⟩ := controlEscape_cases n hn
    · have hu : d ≠ 'u' := by
        rintro rfl
        revert hd
        decide
      rw [htext]
      exact ⟨_, encodes_ascii (Nat.lt_trans hctrl (by decide)), stringBody_escape hu he r⟩
    · rw [htext]
      exact ⟨_, encodes_inr (Nat.lt_trans hn (by decide)), stringBody_unit hunit r⟩
  · rename_i hplain hctrl
    refine ⟨(String.utf8EncodeChar c).map fun b => .inl (sign b), encodes_signs _, ?_⟩
    have hsigns : ∀ d ∈ signs c, d ≠ '"' ∧ d ≠ '\\' ∧ 32 ≤ d.toNat := by
      by_cases hascii : c.toNat < 0x80
      · rw [signs_ascii hascii]
        simpa [and_assoc] using And.intro hplain hctrl
      · intro d hd
        have hle := le_toNat_signs (Nat.le_of_not_lt hascii) d hd
        refine ⟨?_, ?_, Nat.le_trans (by decide) hle⟩
        · rintro rfl
          exact absurd hle (by decide)
        · rintro rfl
          exact absurd hle (by decide)
    rw [List.flatMap_singleton, stringBody_signs hsigns, signs, List.map_map]
    rfl

/-- What is written of some characters is read as their bytes. -/
theorem stringBody_chars (cs r : List Char) :
    ∃ us, Encodes us (cs.flatMap String.utf8EncodeChar) ∧
      stringBody ((cs.flatMap charText).flatMap signs ++ '"' :: r) = some (us, r) := by
  induction cs with
  | nil => exact ⟨[], encodes_nil, rfl⟩
  | cons c cs ih =>
    obtain ⟨us, hus, hrest⟩ := ih
    obtain ⟨vs, hvs, hchar⟩ :=
      stringBody_charText c ((cs.flatMap charText).flatMap signs ++ '"' :: r)
    refine ⟨vs ++ us, ?_, ?_⟩
    · rw [List.flatMap_cons]
      exact hvs.append hus
    · rw [List.flatMap_cons, List.flatMap_append, List.append_assoc, hchar, hrest]
      rfl

/-- The bytes of a string as it is written, behind the first quote. -/
def quoted (s : String) : List Char := (s.toList.flatMap charText).flatMap signs ++ ['"']

theorem spelled_quote (s : String) : spelled (quote s) = '"' :: quoted s := by
  have hquote : signs '"' = ['"'] := signs_ascii (by decide)
  rw [spelled_eq, quote, String.toList_ofList, List.cons_append, List.flatMap_cons,
    List.flatMap_append, List.flatMap_singleton, hquote]
  rfl

/-- A string is read back, whatever characters it holds. -/
theorem string?_quoted (s : String) (r : List Char) :
    string? (quoted s ++ r) = some (some s, r) := by
  obtain ⟨us, hus, hbody⟩ := stringBody_chars s.toList r
  have hjoin : joinUnits us = some (Text.encode s) := by
    have h := hus []
    rw [List.append_nil] at h
    rw [h]
    simp [joinUnits, Text.encode]
  rw [quoted, List.append_assoc, List.singleton_append, string?, hbody, Option.map_some, hjoin,
    Option.bind_some, Text.decode?_encode]

/-! ## Values -/

/-- Whether a text is over, or goes on with a sign that ends a value. -/
def Ended (r : List Char) : Prop := ∀ c ∈ r.head?, c ∈ [',', ']', '\x7d']

theorem Ended.nil : Ended [] := nofun

theorem Ended.cons {c : Char} (h : c ∈ [',', ']', '\x7d']) (r : List Char) : Ended (c :: r) := by
  intro d hd
  cases hd
  exact h

/-- Whether some bytes are read as `v`, in more steps than they are, whatever ends them. Neither a
blank nor the end of an array or an object is in front. -/
structure Writes (t : List Char) (v : JsonValue) : Prop where
  starts : ∃ c s, t = c :: s ∧ isBlank c = false ∧ c ≠ ']' ∧ c ≠ '\x7d'
  reads : ∀ fuel r, t.length < fuel → Ended r → value? fuel (t ++ r) = some (v, r)

theorem skipBlanks_cons {c : Char} (h : isBlank c = false) (s : List Char) :
    skipBlanks (c :: s) = c :: s := by
  rw [skipBlanks, List.dropWhile_cons, h]
  rfl

theorem Ended.head {r : List Char} (h : Ended r) {c : Char} (hc : c ∈ r.head?) :
    c = ',' ∨ c = ']' ∨ c = '\x7d' := by
  simpa using h c hc

/-! ### Numbers -/

theorem isDigit_of_isDigit {c : Char} (h : c.isDigit) : isDigit c := by
  simpa [isDigit, Char.isDigit, Char.le_def] using h

theorem isDigit_toDigits {n : Nat} : ∀ d ∈ Nat.toDigits 10 n, isDigit d := fun _ hd =>
  isDigit_of_isDigit (Nat.isDigit_of_mem_toDigits (by decide) (by decide) hd)

theorem toDigits_cons (n : Nat) : ∃ d ds, Nat.toDigits 10 n = d :: ds ∧ isDigit d := by
  obtain ⟨d, ds, hds⟩ := List.exists_cons_of_ne_nil (Nat.toDigits_ne_nil (n := n) (b := 10))
  exact ⟨d, ds, hds, isDigit_toDigits (n := n) d (hds ▸ List.mem_cons_self)⟩

/-- No zero leads other digits. -/
theorem toDigits_head {n : Nat} (hn : n ≠ 0) :
    ∃ d ds, Nat.toDigits 10 n = d :: ds ∧ d ≠ '0' := by
  induction n using Nat.strongRecOn with
  | ind n ih =>
    by_cases hlt : n < 10
    · have hall : ∀ n < 10, n ≠ 0 → n.digitChar ≠ '0' := by decide
      exact ⟨_, [], Nat.toDigits_of_lt_base hlt, hall n hlt hn⟩
    · obtain ⟨d, ds, hds, hd⟩ := ih (n / 10) (by omega) (by omega)
      refine ⟨d, ds ++ [(n % 10).digitChar], ?_, hd⟩
      rw [Nat.toDigits_of_base_le (by decide) (Nat.le_of_not_lt hlt), hds, List.cons_append]

theorem Ended.head_not_digit {r : List Char} (h : Ended r) : ∀ c ∈ r.head?, isDigit c = false := by
  intro c hc
  rcases h.head hc with rfl | rfl | rfl <;> rfl

theorem digits?_append {ds r : List Char} (hne : ds ≠ []) (hd : ∀ d ∈ ds, isDigit d)
    (hr : ∀ c ∈ r.head?, isDigit c = false) : digits? (ds ++ r) = some (ds, r) := by
  have htake : r.takeWhile isDigit = [] := by
    cases r with
    | nil => rfl
    | cons c r => rw [List.takeWhile_cons_of_neg (by rw [hr c rfl]; decide)]
  have hdrop : r.dropWhile isDigit = r := by
    cases r with
    | nil => rfl
    | cons c r => rw [List.dropWhile_cons_of_neg (by rw [hr c rfl]; decide)]
  rw [digits?, List.takeWhile_append_of_pos hd, List.dropWhile_append_of_pos hd, htake, hdrop,
    List.append_nil]
  cases ds with
  | nil => exact absurd rfl hne
  | cons d ds => rfl

theorem whole?_toDigits (n : Nat) {r : List Char} (hr : ∀ c ∈ r.head?, isDigit c = false) :
    whole? (Nat.toDigits 10 n ++ r) = some (Nat.toDigits 10 n, r) := by
  by_cases hn : n = 0
  · subst hn
    have hhead : (r.head?.map isDigit).getD false = false := by
      cases r with
      | nil => rfl
      | cons c r => exact hr c rfl
    rw [Nat.toDigits_zero, List.singleton_append, whole?, hhead]
    rfl
  · have hdigits := digits?_append Nat.toDigits_ne_nil (isDigit_toDigits (n := n)) hr
    obtain ⟨d, ds, hds, hd⟩ := toDigits_head hn
    rw [hds, List.cons_append] at hdigits ⊢
    rw [whole?, hdigits]
    simpa using hd

/-- Digits in front of the end of a value are a number. -/
theorem number?_toDigits (n : Nat) {r : List Char} (hr : Ended r) :
    number? (Nat.toDigits 10 n ++ r) = some (.number (Nat.toDigits 10 n), r) := by
  have hwhole := whole?_toDigits n hr.head_not_digit
  have hfraction : fraction? r = some ([], r) := by
    cases r with
    | nil => rfl
    | cons c r =>
      have hc : c ≠ '.' := by
        rintro rfl
        exact absurd (hr _ rfl) (by decide)
      rw [fraction?]
      simpa using hc
  have hexponent : exponent? r = some ([], r) := by
    cases r with
    | nil => rfl
    | cons c r =>
      have hc : ¬ (c = 'e' || c = 'E') := by
        rcases hr.head rfl with rfl | rfl | rfl <;> decide
      rw [exponent?.eq_def]
      exact if_neg hc
  have hminus : ∀ r', Nat.toDigits 10 n ++ r ≠ '-' :: r' := by
    intro r' heq
    obtain ⟨d, ds, hds, hd⟩ := toDigits_cons n
    rw [hds, List.cons_append, List.cons.injEq] at heq
    exact absurd (heq.1 ▸ hd) (by decide)
  rw [number?]
  · simp [hwhole, hfraction, hexponent]
  · exact hminus

theorem ne_of_isDigit {c d : Char} (hc : isDigit c) (hd : isDigit d = false) : c ≠ d := by
  rintro rfl
  cases hd.symm.trans hc

theorem isBlank_digit {c : Char} (hc : isDigit c) : isBlank c = false := by
  have h (d : Char) (hd : isDigit d = false) : decide (c = d) = false :=
    decide_eq_false (ne_of_isDigit hc hd)
  rw [isBlank, h ' ' rfl, h '\n' rfl, h '\t' rfl, h '\r' rfl]
  rfl

/-- What starts with a digit is a number. -/
theorem value?_digit {c : Char} (hc : isDigit c) (fuel : Nat) (s : List Char) :
    value? (fuel + 1) (c :: s) = number? (c :: s) := by
  rw [value?, skipBlanks_cons (isBlank_digit hc)]
  split
  case h_7 => rfl
  all_goals
    rename_i heq
    exact absurd (List.cons.inj heq).1 (ne_of_isDigit hc rfl)

namespace Writes

theorem bool (b : Bool) : Writes (if b then "true" else "false").toList (.bool b) := by
  cases b with
  | true =>
    refine ⟨⟨'t', _, rfl, rfl, by decide, by decide⟩, fun fuel r hfuel _ => ?_⟩
    cases fuel with
    | zero => exact absurd hfuel (Nat.not_lt_zero _)
    | succ fuel => rfl
  | false =>
    refine ⟨⟨'f', _, rfl, rfl, by decide, by decide⟩, fun fuel r hfuel _ => ?_⟩
    cases fuel with
    | zero => exact absurd hfuel (Nat.not_lt_zero _)
    | succ fuel => rfl

/-- Digits are read as a number. -/
theorem digits (n : Nat) : Writes (Nat.toDigits 10 n) (.number (Nat.toDigits 10 n)) := by
  obtain ⟨d, ds, hds, hd⟩ := toDigits_cons n
  refine ⟨⟨d, ds, hds, isBlank_digit hd, ne_of_isDigit hd rfl, ne_of_isDigit hd rfl⟩, ?_⟩
  intro fuel r hfuel hr
  cases fuel with
  | zero => exact absurd hfuel (Nat.not_lt_zero _)
  | succ fuel =>
    have hnumber := number?_toDigits n hr
    rw [hds, List.cons_append] at hnumber ⊢
    rw [value?_digit hd, hnumber]

end Writes

/-! ### Arrays -/

section
variable {t : List Char} {v : JsonValue} (h : Writes t v) {fuel : Nat} (hfuel : t.length < fuel)
  (r : List Char)
include h hfuel

theorem items?_comma :
    items? (fuel + 1) (t ++ ',' :: r) = (items? fuel r).map fun p => (v :: p.1, p.2) := by
  rw [items?, h.reads fuel _ hfuel (.cons (by decide) r)]
  rfl

theorem items?_last : items? (fuel + 1) (t ++ ']' :: r) = some ([v], r) := by
  rw [items?, h.reads fuel _ hfuel (.cons (by decide) r)]
  rfl

end

/-- Items with commas between them are read one after the other. -/
theorem items?_reads {t : List Char} {v : JsonValue} {l : List (List Char × JsonValue)}
    (h : ∀ p ∈ (t, v) :: l, Writes p.1 p.2) (fuel : Nat) (r : List Char)
    (hfuel : ([','].intercalate (((t, v) :: l).map Prod.fst)).length + 1 < fuel) :
    items? fuel ([','].intercalate (((t, v) :: l).map Prod.fst) ++ ']' :: r) =
      some (((t, v) :: l).map Prod.snd, r) := by
  induction l generalizing t v fuel with
  | nil =>
    have ht : Writes t v := (List.forall_mem_cons.mp h).1
    cases fuel with
    | zero => exact absurd hfuel (Nat.not_lt_zero _)
    | succ fuel =>
      rw [List.map_singleton, List.intercalate_singleton] at hfuel ⊢
      exact items?_last ht (Nat.lt_of_succ_lt_succ hfuel) r
  | cons p l ih =>
    have ht : Writes t v := (List.forall_mem_cons.mp h).1
    cases fuel with
    | zero => exact absurd hfuel (Nat.not_lt_zero _)
    | succ fuel =>
      simp only [List.map_cons, List.intercalate_cons_cons, List.append_assoc, List.cons_append,
        List.nil_append, List.length_append, List.length_cons] at hfuel ih ⊢
      rw [items?_comma ht (by omega), ih (List.forall_mem_cons.mp h).2 fuel (by omega)]
      rfl

theorem value?_bracket {c : Char} (hc : isBlank c = false) (hne : c ≠ ']') (fuel : Nat)
    (s : List Char) :
    value? (fuel + 1) ('[' :: c :: s) =
      (items? fuel (c :: s)).map fun p => (.array p.1, p.2) := by
  have hbracket : skipBlanks ('[' :: c :: s) = '[' :: c :: s := skipBlanks_cons rfl _
  rw [value?, hbracket]
  simp only [↓Char.isValue, skipBlanks_cons hc]
  split
  · exact absurd (List.cons.inj ‹_›).1 hne
  · rfl

/-- Items in brackets are an array. -/
theorem Writes.array {l : List (List Char × JsonValue)} (h : ∀ p ∈ l, Writes p.1 p.2) :
    Writes ('[' :: ([','].intercalate (l.map Prod.fst) ++ [']'])) (.array (l.map Prod.snd)) := by
  refine ⟨⟨'[', _, rfl, rfl, by decide, by decide⟩, fun fuel r hfuel hr => ?_⟩
  cases fuel with
  | zero => exact absurd hfuel (Nat.not_lt_zero _)
  | succ fuel =>
    rw [List.length_cons, List.length_append, List.length_singleton] at hfuel
    cases l with
    | nil => rfl
    | cons p l =>
      obtain ⟨t, v⟩ := p
      have hitems := items?_reads h fuel r (by omega)
      obtain ⟨c, s, rfl, hc, hclose, -⟩ := (List.forall_mem_cons.mp h).1.starts
      rw [List.map_cons, List.intercalate_cons_cons_left, List.cons_append] at hitems ⊢
      rw [List.cons_append, List.cons_append, List.append_assoc, value?_bracket hc hclose,
        List.singleton_append, hitems]
      rfl

/-! ### Objects -/

/-- The bytes of a member with name `k` and value `t`. -/
def memberText (k : String) (t : List Char) : List Char := '"' :: (quoted k ++ ':' :: t)

/-- A member is read up to the comma or the brace behind it. -/
theorem members?_member {k : String} {t : List Char} {v : JsonValue} (h : Writes t v) {fuel : Nat}
    (hfuel : t.length < fuel) (r : List Char) :
    members? (fuel + 1) (memberText k t ++ ',' :: r) =
      (members? fuel r).map (fun p => ((some k, v) :: p.1, p.2)) ∧
    members? (fuel + 1) (memberText k t ++ '\x7d' :: r) = some ([(some k, v)], r) := by
  have hname (r : List Char) :
      string? (quoted k ++ (':' :: t ++ r)) = some (some k, ':' :: t ++ r) := string?_quoted k _
  have hquote (s : List Char) : skipBlanks ('"' :: s) = '"' :: s := skipBlanks_cons rfl s
  have hcolon (s : List Char) : skipBlanks (':' :: s) = ':' :: s := skipBlanks_cons rfl s
  constructor
  · have hvalue := h.reads fuel _ hfuel (.cons (c := ',') (by decide) r)
    rw [members?, memberText, List.cons_append, hquote]
    simp only [List.append_assoc, hname, Option.bind_eq_bind, Option.bind_some]
    simp only [List.cons_append, hcolon, hvalue, Option.bind_some]
    rfl
  · have hvalue := h.reads fuel _ hfuel (.cons (c := '\x7d') (by decide) r)
    rw [members?, memberText, List.cons_append, hquote]
    simp only [List.append_assoc, hname, Option.bind_eq_bind, Option.bind_some]
    simp only [List.cons_append, hcolon, hvalue, Option.bind_some]
    rfl

/-- A member of an object: its name, and its value with the bytes that write it. -/
abbrev Member := String × List Char × JsonValue

theorem length_memberText (k : String) (t : List Char) :
    t.length + 2 ≤ (memberText k t).length := by
  rw [memberText, List.length_cons, List.length_append, List.length_cons]
  omega

/-- Members with commas between them are read one after the other. -/
theorem members?_reads {m : Member} {l : List Member} (h : ∀ n ∈ m :: l, Writes n.2.1 n.2.2)
    (fuel : Nat) (r : List Char)
    (hfuel : ([','].intercalate ((m :: l).map fun m => memberText m.1 m.2.1)).length + 1 < fuel) :
    members? fuel ([','].intercalate ((m :: l).map fun m => memberText m.1 m.2.1) ++ '\x7d' :: r) =
      some ((m :: l).map fun m => (some m.1, m.2.2), r) := by
  induction l generalizing m fuel with
  | nil =>
    obtain ⟨hm, -⟩ := List.forall_mem_cons.mp h
    cases fuel with
    | zero => exact absurd hfuel (Nat.not_lt_zero _)
    | succ fuel =>
      rw [List.map_singleton, List.intercalate_singleton] at hfuel ⊢
      have hlen := length_memberText m.1 m.2.1
      exact (members?_member hm (by omega) r).2
  | cons n l ih =>
    obtain ⟨hm, hl⟩ := List.forall_mem_cons.mp h
    cases fuel with
    | zero => exact absurd hfuel (Nat.not_lt_zero _)
    | succ fuel =>
      simp only [List.map_cons, List.intercalate_cons_cons, List.append_assoc, List.cons_append,
        List.nil_append, List.length_append, List.length_cons] at hfuel ih ⊢
      have hlen := length_memberText m.1 m.2.1
      rw [(members?_member hm (by omega) _).1, ih hl fuel (by omega)]
      rfl

theorem value?_brace {c : Char} (hc : isBlank c = false) (hne : c ≠ '\x7d') (fuel : Nat)
    (s : List Char) :
    value? (fuel + 1) ('\x7b' :: c :: s) =
      (members? fuel (c :: s)).map fun p => (.object p.1, p.2) := by
  have hbrace : skipBlanks ('\x7b' :: c :: s) = '\x7b' :: c :: s := skipBlanks_cons rfl _
  rw [value?, hbrace]
  simp only [↓Char.isValue, skipBlanks_cons hc]
  split
  · exact absurd (List.cons.inj ‹_›).1 hne
  · rfl

/-- Members in braces are an object. -/
theorem Writes.object {l : List Member} (h : ∀ m ∈ l, Writes m.2.1 m.2.2) :
    Writes ('\x7b' :: ([','].intercalate (l.map fun m => memberText m.1 m.2.1) ++ ['\x7d']))
      (.object (l.map fun m => (some m.1, m.2.2))) := by
  refine ⟨⟨'\x7b', _, rfl, rfl, by decide, by decide⟩, fun fuel r hfuel hr => ?_⟩
  cases fuel with
  | zero => exact absurd hfuel (Nat.not_lt_zero _)
  | succ fuel =>
    rw [List.length_cons, List.length_append, List.length_singleton] at hfuel
    cases l with
    | nil => rfl
    | cons m l =>
      have hmembers := members?_reads h fuel r (by omega)
      rw [List.map_cons, memberText, List.intercalate_cons_cons_left, List.cons_append]
        at hmembers ⊢
      rw [List.cons_append, List.cons_append, List.append_assoc, value?_brace rfl (by decide),
        List.singleton_append, hmembers]
      rfl

/-- The bytes of a file that writes a value, and nothing else, are read as that value. -/
theorem Writes.parse? {s : String} {v : JsonValue} (h : Writes (spelled s) v) :
    parse? (Text.encode s) = some v := by
  have hlen : (spelled s).length < 2 * (Text.encode s).length + 2 := by
    rw [spelled, List.length_map]
    omega
  have hread := h.reads _ [] hlen .nil
  rw [List.append_nil] at hread
  have hmap : ((Text.encode s).map fun b => Char.ofNat b.toNat) = spelled s := rfl
  rw [JsonValue.parse?, hmap, hread]
  rfl

end SpirvModule.JsonValue
