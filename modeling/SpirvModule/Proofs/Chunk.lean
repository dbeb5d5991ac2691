import Mathlib.Data.List.Basic
import SpirvModule.Section
import SpirvModule.Session.Edit

/-!
# Chunks

A chunk is the words of one instruction: its leading word claims exactly their
number. Chunks that stand one behind the other are read back one by one,
wherever they stand, and an offset between two of them is a prefix of chunks.

Results:
* `scan_flatten`: scanning chunks yields them as instructions, each in its place.
* `at?_append`: reading at the end of a prefix yields the chunk that stands there.
* `prefix_of_length_le`: the shorter of two prefixes is a prefix of the longer one.
* `Operation.isChunk_words`: an operation that is not too long is written as a chunk.
-/
namespace SpirvModule

/-- Whether some words are one instruction. -/
def IsChunk : List Word → Prop
  | [] => False
  | w :: ops => Word.count w = ops.length + 1

instance (c : List Word) : Decidable (IsChunk c) :=
  match c with
  | [] => instDecidableFalse
  | _ :: _ => inferInstanceAs (Decidable (_ = _))

theorem IsChunk.pos {c : List Word} (h : IsChunk c) : 0 < c.length := by
  cases c with
  | nil => exact h.elim
  | cons w ops => simp

/-- The instruction with the words `c` that stands at `offset`. -/
def Instruction.ofChunk (offset : Nat) (c : List Word) : Instruction := ⟨offset, c.headD 0, c.tail⟩

namespace Instruction

@[simp] theorem ofChunk_offset (p : Nat) (c : List Word) : (ofChunk p c).offset = p := rfl

theorem ofChunk_words {c : List Word} (p : Nat) (h : IsChunk c) : (ofChunk p c).words = c := by
  cases c with
  | nil => exact h.elim
  | cons w ops => rfl

theorem ofChunk_wordCount {c : List Word} (p : Nat) (h : IsChunk c) :
    (ofChunk p c).wordCount = c.length := by
  cases c with
  | nil => exact h.elim
  | cons w ops => rfl

theorem ofChunk_stop {c : List Word} (p : Nat) (h : IsChunk c) :
    (ofChunk p c).stop = p + c.length := by
  rw [stop, ofChunk_wordCount p h, ofChunk_offset]

end Instruction

/-- The instructions with the words `cs`, one behind the other from `offset` on. -/
def place (offset : Nat) : List (List Word) → List Instruction
  | [] => []
  | c :: r => .ofChunk offset c :: place (offset + c.length) r

@[simp] theorem place_nil (p : Nat) : place p [] = [] := rfl

@[simp] theorem place_cons (p : Nat) (c : List Word) (r : List (List Word)) :
    place p (c :: r) = .ofChunk p c :: place (p + c.length) r := rfl

@[simp] theorem place_append (p : Nat) (cs ds : List (List Word)) :
    place p (cs ++ ds) = place p cs ++ place (p + cs.flatten.length) ds := by
  induction cs generalizing p with
  | nil => simp
  | cons c r ih =>
    simp only [List.cons_append, place_cons, ih, List.flatten_cons, List.length_append,
      Nat.add_assoc]

@[simp] theorem length_place (p : Nat) (cs : List (List Word)) :
    (place p cs).length = cs.length := by
  induction cs generalizing p with
  | nil => rfl
  | cons c r ih => simp [ih]

theorem map_words_place {cs : List (List Word)} (p : Nat) (h : ∀ c ∈ cs, IsChunk c) :
    (place p cs).map Instruction.words = cs := by
  induction cs generalizing p with
  | nil => rfl
  | cons c r ih =>
    rw [List.forall_mem_cons] at h
    rw [place_cons, List.map_cons, Instruction.ofChunk_words p h.1, ih _ h.2]

/-- Every placed instruction lies inside the words that its chunks take. -/
theorem mem_place {cs : List (List Word)} {p : Nat} {i : Instruction} (h : ∀ c ∈ cs, IsChunk c)
    (hi : i ∈ place p cs) : p ≤ i.offset ∧ i.offset < i.stop ∧ i.stop ≤ p + cs.flatten.length := by
  induction cs generalizing p with
  | nil => cases hi
  | cons c r ih =>
    rw [List.forall_mem_cons] at h
    rw [place_cons, List.mem_cons] at hi
    have hc := h.1.pos
    rcases hi with rfl | hi
    · rw [Instruction.ofChunk_stop p h.1]
      simp only [Instruction.ofChunk_offset, List.flatten_cons, List.length_append]
      omega
    · obtain ⟨h1, h2, h3⟩ := ih h.2 hi
      simp only [List.flatten_cons, List.length_append]
      omega

/-- A placed instruction splits its chunks in front of it and behind it. -/
theorem place_split {cs : List (List Word)} {p : Nat} {i : Instruction} (hi : i ∈ place p cs) :
    ∃ front c back, cs = front ++ c :: back ∧ i = .ofChunk (p + front.flatten.length) c := by
  induction cs generalizing p with
  | nil => cases hi
  | cons d r ih =>
    rw [place_cons, List.mem_cons] at hi
    rcases hi with rfl | hi
    · exact ⟨[], d, r, rfl, by simp⟩
    · obtain ⟨front, c, back, rfl, rfl⟩ := ih hi
      exact ⟨d :: front, c, back, rfl, by simp [Nat.add_assoc]⟩

/-! ## Reading chunks back -/

/-- The instructions that stand in the words of a module, read from the header on. -/
def moduleInstructions (ws : List Word) : List Instruction := scan headerWords (ws.drop headerWords)

/-- Words that are passed over are as if they were not there. -/
theorem scanFrom_eq_scan (k p : Nat) (ws : List Word) :
    scanFrom k p ws = scan (p + k) (ws.drop k) := by
  induction ws generalizing k p with
  | nil => simp [scan, scanFrom]
  | cons w r ih =>
    cases k with
    | zero => rfl
    | succ k => rw [scanFrom, ih, List.drop_succ_cons]; congr 1; omega

theorem scan_append {c : List Word} (p : Nat) (r : List Word) (h : IsChunk c) :
    scan p (c ++ r) = .ofChunk p c :: scan (p + c.length) r := by
  cases c with
  | nil => exact h.elim
  | cons w ops =>
    have hw : Word.count w = ops.length + 1 := h
    have ht : (ops ++ r).take (Word.count w - 1) = ops := by simp [hw]
    rw [List.cons_append, scan, scanFrom, ht, if_neg (by omega), scanFrom_eq_scan, hw]
    simp only [Nat.add_sub_cancel, List.drop_left, Instruction.ofChunk, List.headD_cons,
      List.tail_cons, List.length_cons]
    congr 2
    omega

/-- Chunks are scanned one by one. -/
theorem scan_flatten {cs : List (List Word)} (p : Nat) (h : ∀ c ∈ cs, IsChunk c) :
    scan p cs.flatten = place p cs := by
  induction cs generalizing p with
  | nil => rfl
  | cons c r ih =>
    rw [List.forall_mem_cons] at h
    rw [List.flatten_cons, scan_append p _ h.1, ih _ h.2, place_cons]

/-- The chunk behind some words is the instruction that stands there. -/
theorem at?_append {pre c : List Word} (r : List Word) (hp : headerWords ≤ pre.length)
    (h : IsChunk c) :
    Instruction.at? (pre ++ (c ++ r)) pre.length = some (.ofChunk pre.length c) := by
  cases c with
  | nil => exact h.elim
  | cons w ops =>
    have hw : Word.count w = ops.length + 1 := h
    have ht : (ops ++ r).take (Word.count w - 1) = ops := by simp [hw]
    rw [Instruction.at?, if_neg (by omega), List.drop_left, List.cons_append]
    simp only [ht]
    rw [if_neg (by omega)]
    rfl

/-- An instruction is read behind the header, where a word claims a length that the words have. -/
theorem at?_eq_some {ws : List Word} {p : Nat} {i : Instruction} :
    Instruction.at? ws p = some i ↔ headerWords ≤ p ∧ ∃ w, ws[p]? = some w ∧ Word.count w ≠ 0 ∧
      p + Word.count w ≤ ws.length ∧ i = ⟨p, w, (ws.drop (p + 1)).take (Word.count w - 1)⟩ := by
  unfold Instruction.at?
  rw [← List.head?_drop]
  have hlen := List.length_drop (i := p) (l := ws)
  cases hd : ws.drop p with
  | nil => simp
  | cons w r =>
    have hr : ws.drop (p + 1) = r := by rw [← List.drop_drop, hd]; rfl
    rw [hd, List.length_cons] at hlen
    simp only [hr, List.length_take, List.head?_cons, Option.some.injEq, exists_eq_left']
    split
    · simp; omega
    · split
      · simp; omega
      · simp only [Option.some.injEq]
        constructor
        · rintro rfl
          exact ⟨by omega, by omega, by omega, rfl⟩
        · rintro ⟨-, -, -, rfl⟩
          rfl

/-- What is read at an offset stands there. -/
theorem at?_offset {ws : List Word} {p : Nat} {i : Instruction}
    (h : Instruction.at? ws p = some i) : i.offset = p := by
  obtain ⟨-, w, -, -, -, rfl⟩ := at?_eq_some.mp h
  rfl

/-- What is read stands behind the header and ends with the words at the latest. -/
theorem at?_bounds {ws : List Word} {p : Nat} {i : Instruction}
    (h : Instruction.at? ws p = some i) : headerWords ≤ p ∧ p + i.wordCount ≤ ws.length := by
  obtain ⟨hp, w, -, hpos, hlen, rfl⟩ := at?_eq_some.mp h
  refine ⟨hp, ?_⟩
  have htake := List.length_take_le (Word.count w - 1) (ws.drop (p + 1))
  rw [Instruction.wordCount]
  dsimp only
  omega

/-- An instruction stays where its leading word does. -/
theorem at?_of_leading {ws us : List Word} {p : Nat} {i : Instruction}
    (h : Instruction.at? ws p = some i) (hw : us[p]? = ws[p]?) (hl : us.length = ws.length) :
    ∃ j, Instruction.at? us p = some j ∧ j.wordCount = i.wordCount := by
  obtain ⟨hp, w, hws, hpos, hlen, rfl⟩ := at?_eq_some.mp h
  refine ⟨_, at?_eq_some.mpr ⟨hp, w, hw.trans hws, hpos, hl ▸ hlen, rfl⟩, ?_⟩
  simp only [Instruction.wordCount, List.length_take, List.length_drop, hl]

/-- Nothing stands behind the last word. -/
theorem at?_length (ws : List Word) : Instruction.at? ws ws.length = none := by
  simp [Instruction.at?]

/-! ## Prefixes of chunks -/

theorem flatten_length_lt (front : List (List Word)) {back : List (List Word)}
    (h : ∀ c ∈ back, IsChunk c) (hb : back ≠ []) :
    front.flatten.length < (front ++ back).flatten.length := by
  cases back with
  | nil => exact absurd rfl hb
  | cons c r =>
    have hc := (h c (by simp)).pos
    simp only [List.flatten_append, List.flatten_cons, List.length_append]
    omega

/-- Of two prefixes of some chunks, the one with fewer words is a prefix of the other. -/
theorem prefix_of_length_le {cs xs ys : List (List Word)} (h : ∀ c ∈ cs, IsChunk c)
    (hx : xs <+: cs) (hy : ys <+: cs) (hl : xs.flatten.length ≤ ys.flatten.length) : xs <+: ys := by
  rcases List.prefix_or_prefix_of_prefix hx hy with hxy | ⟨zs, rfl⟩
  · exact hxy
  · by_cases hz : zs = []
    · subst hz
      simp
    · have hc : ∀ c ∈ zs, IsChunk c := fun c hc => h c (hx.subset (by simp [hc]))
      have := flatten_length_lt ys hc hz
      omega

/-! ## Operations as chunks -/

namespace Word

theorem toNat_lead (n k : Nat) : (lead n k).toNat = n % 65536 * 65536 + k % 65536 := by
  rw [lead, UInt32.toNat_ofNat']
  omega

theorem count_lead {n : Nat} (k : Nat) (h : n < 65536) : count (lead n k) = n := by
  rw [count, toNat_lead]
  omega

theorem number_lead {k : Nat} (n : Nat) (h : k < 65536) : number (lead n k) = k := by
  rw [number, toNat_lead]
  omega

end Word

/-- Opcode numbers fill half a word. -/
theorem Opcode.number_lt (op : Opcode) : op.number < 65536 := by
  have hall : Grammar.instructions.all (·.number < 65536) = true := by decide +kernel
  obtain ⟨e, he⟩ := Option.isSome_iff_exists.mp op.listed
  have hn : e.number = op.number := by simpa using List.find?_some he
  have hlt := List.all_eq_true.mp hall e (List.mem_of_find?_eq_some he)
  rw [← hn]
  exact of_decide_eq_true hlt

namespace Operation

variable {op : Operation}

theorem isChunk_words (h : op.wordCount ≤ Edit.maxWords) : IsChunk op.words :=
  Word.count_lead _ (Nat.lt_succ_of_le h)

theorem opcode?_words (op : Operation) :
    Opcode.ofNumber? (Word.number (op.words.headD 0)) = some op.opcode := by
  rw [words, List.headD_cons, Word.number_lead _ op.opcode.number_lt, Opcode.ofNumber?_number]

end Operation

theorem count_nopWord : Word.count Edit.nopWord = 1 := Word.count_lead _ (by decide)

theorem opcode?_nopWord : Opcode.ofNumber? (Word.number Edit.nopWord) = some .opNop := by
  rw [Edit.nopWord, Word.number_lead _ Opcode.opNop.number_lt, Opcode.ofNumber?_number]

end SpirvModule
