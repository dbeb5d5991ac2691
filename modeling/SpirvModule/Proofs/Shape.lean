import Mathlib.Data.List.Infix
import SpirvModule.Proofs.Outline
import SpirvModule.Proofs.Run

/-!
# The shape of a session

A session shows an outline when its words behind the header are the outline's chunks
and its layout has their lengths. Bounds, instructions and places are then read off
the outline, and the outline is the only one shown.

A joint is an offset between two chunks. Every place is a joint, and a place that a
section accepts lies between two chunks of that section.

Results:
* `Shows.instructions_eq`: the instructions of a section are its chunks, in place.
* `Shows.split_of_accepts`, `Shows.split_of_contains`: what a place splits a section into.
* `Shows.instruction?_eq`: the instruction read at a joint is the chunk behind it.
* `Shows.update`: words that give way between two joints of a section, with the layout
  shifted there, change the list of that section and no other.
-/
namespace SpirvModule

/-- Whether some chunks end at `p`. -/
def Outline.Joint (m : Outline) (p : Nat) : Prop :=
  ∃ xs ys, m.contents.chunks = xs ++ ys ∧ p = headerWords + xs.flatten.length

namespace Session

/-- The header of a module. -/
def header (s : Session) : List Word := s.words.take headerWords

/-- The words of the instructions of each section. -/
def contents (s : Session) : Contents := fun sec => (s.instructions sec).map Instruction.words

/-- Whether `m` is what stands behind the header of the module. -/
structure Shows (s : Session) (m : Outline) : Prop where
  header : headerWords ≤ s.words.length
  body : s.words.drop headerWords = m.contents.chunks.flatten
  starts : ∀ sec, s.layout.start sec = m.contents.start sec
  stops : ∀ sec, s.layout.stop sec = m.contents.stop sec

namespace Shows

variable {s t : Session} {m : Outline}

theorem length_header (h : s.Shows m) : s.header.length = headerWords := by
  rw [Session.header, List.length_take]
  exact Nat.min_eq_left h.header

theorem words_eq (h : s.Shows m) : s.words = s.header ++ m.contents.chunks.flatten := by
  rw [← h.body, Session.header, List.take_append_drop]

theorem length_words (h : s.Shows m) :
    s.words.length = headerWords + m.contents.chunks.flatten.length := by
  rw [h.words_eq, List.length_append, h.length_header]

/-- The words around a section. -/
theorem words_around (h : s.Shows m) (sec : Section) :
    s.words = (s.header ++ (m.contents.front sec).flatten) ++
      ((m.contents sec).flatten ++ (m.contents.back sec).flatten) := by
  rw [h.words_eq, m.contents.chunks_eq sec]
  simp only [List.flatten_append, List.append_assoc]

theorem length_front (h : s.Shows m) (sec : Section) :
    (s.header ++ (m.contents.front sec).flatten).length = m.contents.start sec := by
  rw [List.length_append, h.length_header, Contents.start]

theorem span_eq (h : s.Shows m) (sec : Section) :
    s.layout.span sec = ⟨m.contents.start sec, m.contents.stop sec⟩ := by
  rw [Layout.span, h.starts, h.stops]
  rfl

theorem sectionStart_eq (h : s.Shows m) (sec : Section) :
    s.sectionStart sec = m.contents.start sec := by rw [sectionStart, h.span_eq]

theorem sectionStop_eq (h : s.Shows m) (sec : Section) :
    s.sectionStop sec = m.contents.stop sec := by rw [sectionStop, h.span_eq]

/-- The instructions of a section are its chunks, one behind the other. -/
theorem instructions_eq (h : s.Shows m) (sec : Section) :
    s.instructions sec = place (m.contents.start sec) (m.contents sec) := by
  have hw : (s.words.take (m.contents.stop sec)).drop (m.contents.start sec) =
      (m.contents sec).flatten := by
    rw [h.words_around sec, Contents.stop, ← h.length_front sec, ← List.append_assoc,
      ← List.length_append, List.take_left, List.drop_left]
  rw [instructions, h.span_eq, instructionsIn, hw]
  exact scan_flatten _ fun c hc => m.isChunk hc

theorem contents_eq (h : s.Shows m) : s.contents = m.contents := by
  funext sec
  rw [contents, h.instructions_eq]
  exact map_words_place _ fun c hc => m.isChunk hc

theorem flatMap_take (h : s.Shows m) (n : Nat) :
    (Section.all.take n).flatMap s.instructions =
      place headerWords ((Section.all.take n).flatMap m.contents) := by
  induction n with
  | zero => rfl
  | succ n ih =>
    by_cases hn : n < Section.all.length
    · rw [List.take_succ_eq_append_getElem hn, List.flatMap_append, List.flatMap_append, ih,
        List.flatMap_singleton, List.flatMap_singleton, h.instructions_eq, place_append,
        Contents.start, Contents.front, Section.before_getElem hn]
    · rw [List.take_of_length_le (by omega)] at ih ⊢
      exact ih

/-- All instructions are all chunks, one behind the other from the header on. -/
theorem listing_eq (h : s.Shows m) : s.listing = place headerWords m.contents.chunks :=
  h.flatMap_take Section.all.length

/-! ## Places and joints -/

theorem joint_of_isPlace (h : s.Shows m) {p : Nat} (hp : s.IsPlace p) : m.Joint p := by
  obtain ⟨sec, -, hp⟩ := hp
  rcases hp with hp | hp | ⟨i, hi, hp⟩
  · refine ⟨_, _, m.contents.chunks_eq sec, ?_⟩
    rw [hp, h.sectionStart_eq, Contents.start]
  · refine ⟨m.contents.front sec ++ m.contents sec, m.contents.back sec, ?_, ?_⟩
    · rw [m.contents.chunks_eq sec, List.append_assoc]
    · rw [hp, h.sectionStop_eq, Contents.stop, Contents.start, List.flatten_append,
        List.length_append, Nat.add_assoc]
  · rw [h.instructions_eq] at hi
    obtain ⟨xs, c, ys, hm, rfl⟩ := place_split hi
    refine ⟨m.contents.front sec ++ xs, c :: ys ++ m.contents.back sec, ?_, ?_⟩
    · rw [m.contents.chunks_eq sec, hm]
      simp only [List.append_assoc]
    · rw [← hp, Instruction.ofChunk_offset, Contents.start, List.flatten_append,
        List.length_append, Nat.add_assoc]

/-- A place that a section accepts lies between two of its chunks. -/
theorem split_of_accepts (h : s.Shows m) {p : Nat} {sec : Section} (hp : s.IsPlace p)
    (ha : (s.layout.span sec).accepts p) :
    ∃ xs zs, m.Splits sec p xs [] zs := by
  simp only [h.span_eq, Span.accepts, Bool.and_eq_true, decide_eq_true_eq, Contents.stop] at ha
  obtain ⟨us, vs, hc, rfl⟩ := h.joint_of_isPlace hp
  have hall := m.contents.chunks_eq sec
  have hu : us <+: m.contents.chunks := ⟨vs, hc.symm⟩
  have hf : m.contents.front sec <+: m.contents.chunks := ⟨_, hall.symm⟩
  have hs : m.contents.front sec ++ m.contents sec <+: m.contents.chunks :=
    ⟨m.contents.back sec, by rw [hall, List.append_assoc]⟩
  have chunk := fun c => m.isChunk_of_mem_chunks (c := c)
  obtain ⟨xs, rfl⟩ := prefix_of_length_le chunk hf hu (by simp only [Contents.start] at ha; omega)
  obtain ⟨ys, hy⟩ := prefix_of_length_le chunk hu hs (by
    simp only [Contents.start, List.flatten_append, List.length_append] at ha ⊢
    omega)
  rw [List.append_assoc, List.append_cancel_left_eq] at hy
  refine ⟨xs, ys, hy.symm, ?_⟩
  rw [List.flatten_append, List.length_append, Contents.start, Nat.add_assoc]

/-- The instruction that is read between two chunks is the second one. -/
theorem instruction?_eq (h : s.Shows m) {xs ys : List (List Word)}
    (hm : m.contents.chunks = xs ++ ys) :
    s.instruction? (headerWords + xs.flatten.length) =
      ys.head?.map (.ofChunk (headerWords + xs.flatten.length)) := by
  have hl : (s.header ++ xs.flatten).length = headerWords + xs.flatten.length := by
    rw [List.length_append, h.length_header]
  have hw : s.words = (s.header ++ xs.flatten) ++ ys.flatten := by
    rw [h.words_eq, hm, List.flatten_append, List.append_assoc]
  rw [instruction?, hw, ← hl]
  cases ys with
  | nil =>
    rw [List.flatten_nil, List.append_nil, at?_length]
    rfl
  | cons c r =>
    have hc : IsChunk c := m.isChunk_of_mem_chunks (by simp [hm])
    rw [List.flatten_cons, at?_append _ (by omega) hc]
    rfl

theorem instruction?_of_splits (h : s.Shows m) {sec : Section} {p : Nat} {c : List Word}
    {xs ys zs : List (List Word)} (hm : m.Splits sec p xs (c :: ys) zs) :
    s.instruction? p = some (.ofChunk p c) := by
  rw [← hm.headerWords_add, h.instruction?_eq hm.chunks_eq]
  rfl

/-- What is read at a place inside a section is one of its chunks. -/
theorem split_of_contains (h : s.Shows m) {p : Nat} {sec : Section} {i : Instruction}
    (hp : s.IsPlace p) (hc : (s.layout.span sec).contains p) (hi : s.instruction? p = some i) :
    ∃ xs c zs, m.Splits sec p xs [c] zs ∧ i = .ofChunk p c := by
  have ha : (s.layout.span sec).accepts p := by
    simp only [Span.contains, Span.accepts, Bool.and_eq_true, decide_eq_true_eq] at hc ⊢
    omega
  obtain ⟨xs, zs, hm⟩ := h.split_of_accepts hp ha
  cases zs with
  | nil =>
    have hx : m.contents sec = xs := by simpa using hm.contents_eq
    simp only [h.span_eq, Span.contains, Bool.and_eq_true, decide_eq_true_eq, Contents.stop, hx,
      ← hm.offset_eq] at hc
    omega
  | cons c r =>
    have hm : m.Splits sec p xs [c] r := ⟨hm.contents_eq, hm.offset_eq⟩
    rw [h.instruction?_of_splits hm] at hi
    exact ⟨xs, c, r, hm, (Option.some.inj hi).symm⟩

/-- What is read at a place is a chunk of some section. -/
theorem split_of_instruction? (h : s.Shows m) {p : Nat} {i : Instruction} (hp : s.IsPlace p)
    (hi : s.instruction? p = some i) :
    ∃ sec xs c zs, m.Splits sec p xs [c] zs ∧ i = .ofChunk p c := by
  obtain ⟨us, vs, hc, rfl⟩ := h.joint_of_isPlace hp
  rw [h.instruction?_eq hc] at hi
  cases vs with
  | nil => cases hi
  | cons c r =>
    obtain ⟨sec, xs, zs, hm, rfl⟩ := m.contents.exists_split hc
    refine ⟨sec, xs, c, zs, ⟨hm, ?_⟩, (Option.some.inj hi).symm⟩
    rw [Contents.start, List.flatten_append, List.length_append, Nat.add_assoc]

/-- Every instruction of a section is one of its chunks. -/
theorem split_of_mem (h : s.Shows m) {sec : Section} {i : Instruction}
    (hi : i ∈ s.instructions sec) : ∃ xs c zs, m.Splits sec i.offset xs [c] zs ∧
      i = .ofChunk i.offset c := by
  rw [h.instructions_eq] at hi
  obtain ⟨xs, c, zs, hm, rfl⟩ := place_split hi
  exact ⟨xs, c, zs, ⟨hm, rfl⟩, rfl⟩

theorem split_of_mem_listing (h : s.Shows m) {i : Instruction} (hi : i ∈ s.listing) :
    ∃ sec xs c zs, m.Splits sec i.offset xs [c] zs ∧ i = .ofChunk i.offset c := by
  obtain ⟨sec, -, hi⟩ := List.mem_flatMap.mp hi
  exact ⟨sec, h.split_of_mem hi⟩

/-- Where an instruction stands is a place. -/
theorem isPlace_of_mem {i : Instruction} (hi : i ∈ s.listing) : s.IsPlace i.offset := by
  obtain ⟨sec, hsec, hi⟩ := List.mem_flatMap.mp hi
  exact ⟨sec, hsec, .inr (.inr ⟨i, hi, rfl⟩)⟩

/-! ## Changes -/

variable {sec : Section} {p : Nat} {xs ys zs new : List (List Word)}

theorem length_until (h : s.Shows m) (hm : m.Splits sec p xs ys zs) :
    (s.header ++ (m.contents.front sec).flatten ++ xs.flatten).length = p := by
  rw [List.length_append, h.length_front, hm.offset_eq]

/-- The words around the chunks at an offset. -/
theorem words_of_splits (h : s.Shows m) (hm : m.Splits sec p xs ys zs) :
    s.words = (s.header ++ (m.contents.front sec).flatten ++ xs.flatten) ++
      (ys.flatten ++ (zs.flatten ++ (m.contents.back sec).flatten)) := by
  rw [h.words_around sec, hm.contents_eq]
  simp only [List.flatten_append, List.append_assoc]

/-- The words from an offset between chunks on. -/
theorem drop_offset (h : s.Shows m) (hm : m.Splits sec p xs ys zs) :
    s.words.drop p = ys.flatten ++ (zs.flatten ++ (m.contents.back sec).flatten) := by
  rw [h.words_of_splits hm, ← h.length_until hm, List.drop_left]

/-- Chunks of a section give way to others, in the words and in the layout. -/
theorem update (h : s.Shows m) (hm : m.Splits sec p xs ys zs) (hn : ∀ c ∈ new, Fits sec c)
    (hw : t.words = replaceWords s.words p ys.flatten.length new.flatten)
    (hl : t.layout = s.layout.shift sec (new.flatten.length - ys.flatten.length : Int)) :
    t.Shows (hm.exchange hn) := by
  have ht : t.words = s.header ++ ((m.contents.front sec).flatten ++ (xs.flatten ++
      (new.flatten ++ (zs.flatten ++ (m.contents.back sec).flatten)))) := by
    rw [hw, ← h.length_until hm, h.words_of_splits hm, replaceWords_append]
    simp only [List.append_assoc]
  -- the bounds behind those of `sec` move by the difference of lengths, in outline and layout alike
  refine ⟨?_, ?_, fun u => ?_, fun u => ?_⟩
  · rw [ht, List.length_append, h.length_header]
    exact Nat.le_add_right ..
  · rw [ht, ← h.length_header, List.drop_left, hm.exchange_contents, Contents.chunks_update]
    simp only [List.flatten_append, List.append_assoc]
  · have hu := m.contents.start_update sec (xs ++ (new ++ zs)) u
    rw [hl, Layout.start_shift, h.starts, hm.exchange_contents]
    simp only [hm.contents_eq, List.flatten_append, List.length_append] at hu
    split at hu
    · rename_i hlt
      rw [if_pos hlt]
      omega
    · rename_i hlt
      rw [if_neg hlt]
      omega
  · have hu := m.contents.stop_update sec (xs ++ (new ++ zs)) u
    rw [hl, Layout.stop_shift, h.stops, hm.exchange_contents]
    simp only [hm.contents_eq, List.flatten_append, List.length_append] at hu
    split at hu
    · rename_i hle
      rw [if_pos hle]
      omega
    · rename_i hle
      rw [if_neg hle]
      omega

/-- Chunks of a section give way to as many words, and the layout stays. -/
theorem overwrite (h : s.Shows m) (hm : m.Splits sec p xs ys zs) (hn : ∀ c ∈ new, Fits sec c)
    (hw : t.words = replaceWords s.words p ys.flatten.length new.flatten)
    (he : new.flatten.length = ys.flatten.length) (hl : t.layout = s.layout) :
    t.Shows (hm.exchange hn) := by
  refine h.update hm hn hw ?_
  rw [hl, he, Int.sub_self, Layout.shift_zero]

end Shows

end Session

end SpirvModule
