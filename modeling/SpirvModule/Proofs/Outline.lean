import Mathlib.Logic.Function.Basic
import SpirvModule.Proofs.Chunk

/-!
# Outlines

Behind its header a module is ten lists of chunks, one for each section. Where a
section starts and stops, and what a change of one list does to the others, can be
told from the lists alone.

Results:
* `Contents.exists_split`: every chunk of a module is a chunk of some section.
* `Contents.chunks_update`: what a change of one section's list does to all chunks.
* `Contents.start_update`, `Contents.stop_update`: what it does to the bounds.
* `Layout.start_shift`, `Layout.stop_shift`: what a shift does to the bounds of a layout.
-/
namespace SpirvModule

namespace Section

/-- The sections before `sec`. -/
def before (sec : Section) : List Section := all.take sec.index

/-- The sections behind `sec`. -/
def after (sec : Section) : List Section := all.drop (sec.index + 1)

theorem all_eq (sec : Section) : all = sec.before ++ sec :: sec.after := by cases sec <;> rfl

theorem mem_all (sec : Section) : sec ∈ all := by cases sec <;> decide

theorem before_get : ∀ k : Fin all.length, (all.get k).before = all.take k := by decide

theorem before_getElem {n : Nat} (h : n < all.length) : (all[n]).before = all.take n :=
  before_get ⟨n, h⟩

theorem not_mem_before (sec : Section) : sec ∉ sec.before := by cases sec <;> decide

theorem not_mem_after (sec : Section) : sec ∉ sec.after := by cases sec <;> decide

theorem eq_getElem_iff {n : Nat} (h : n < all.length) (sec : Section) :
    sec = all[n] ↔ sec.index.val = n := by
  have hall : ∀ k : Fin all.length, ∀ s ∈ all, s = all.get k ↔ s.index.val = k.val := by decide
  exact hall ⟨n, h⟩ sec sec.mem_all

theorem upTo_eq_take (sec : Section) : sec.before ++ [sec] = all.take (sec.index + 1) := by
  cases sec <;> rfl

/-- The sections up to `sec`, itself included, are those whose place is not behind that of `sec`. -/
theorem mem_upTo (s t : Section) : s ∈ t.before ++ [t] ↔ s.index ≤ t.index := by
  cases t <;> cases s <;> decide

theorem length_before (sec : Section) : sec.before.length = sec.index := by cases sec <;> rfl

theorem mem_before (s t : Section) : s ∈ t.before ↔ s.index < t.index := by
  cases t <;> cases s <;> decide

theorem nodup_before (sec : Section) : sec.before.Nodup := by cases sec <;> decide

theorem nodup_upTo (sec : Section) : (sec.before ++ [sec]).Nodup := by cases sec <;> decide

theorem upTo_prefix {s t : Section} (h : s ∈ t.before) : s.before ++ [s] <+: t.before := by
  revert h
  cases t <;> cases s <;> decide

/-- What stands in front of a section among all of them. -/
theorem before_eq {sec : Section} {xs ys : List Section} (h : all = xs ++ sec :: ys) :
    sec.before = xs :=
  ((List.append_cons_inj_of_notMem sec.not_mem_before sec.not_mem_after).mp
    (sec.all_eq.symm.trans h)).1

end Section

/-- The chunks of the ten sections. -/
abbrev Contents := Section → List (List Word)

namespace Contents

variable (m : Contents)

/-- All chunks, in the order of sections. -/
def chunks : List (List Word) := Section.all.flatMap m

/-- The chunks in front of a section. -/
def front (sec : Section) : List (List Word) := sec.before.flatMap m

/-- The chunks behind a section. -/
def back (sec : Section) : List (List Word) := sec.after.flatMap m

/-- Offset where the chunks of a section start. -/
def start (sec : Section) : Nat := headerWords + (m.front sec).flatten.length

/-- Offset where the chunks of a section stop. -/
def stop (sec : Section) : Nat := m.start sec + (m sec).flatten.length

/-- The contents in which `removed` chunks of section `sec` from the one with index `n` on give way
to `new`. -/
def splice (sec : Section) (n removed : Nat) (new : List (List Word)) : Contents :=
  Function.update m sec ((m sec).take n ++ new ++ (m sec).drop (n + removed))

/-- The contents with `new` at the end of section `sec`. -/
def append (sec : Section) (new : List (List Word)) : Contents :=
  Function.update m sec (m sec ++ new)

theorem chunks_eq (sec : Section) : m.chunks = m.front sec ++ (m sec ++ m.back sec) := by
  rw [chunks, Section.all_eq sec, List.flatMap_append, List.flatMap_cons, front, back]

/-- A section starts where the one before it stops. -/
theorem start_next {s t : Section} (h : t.before = s.before ++ [s]) : m.start t = m.stop s := by
  simp only [start, stop, front, h, List.flatMap_append, List.flatMap_singleton,
    List.flatten_append, List.length_append, Nat.add_assoc]

theorem stop_eq (sec : Section) :
    m.stop sec = headerWords + ((sec.before ++ [sec]).flatMap m).flatten.length := by
  simp only [start, stop, front, List.flatMap_append, List.flatMap_singleton,
    List.flatten_append, List.length_append, Nat.add_assoc]

theorem stop_functions : m.stop .functions = headerWords + m.chunks.flatten.length := by
  rw [stop_eq]; rfl

theorem start_le_stop (sec : Section) : m.start sec ≤ m.stop sec := Nat.le_add_right ..

theorem stop_le_start {s t : Section} (h : s ∈ t.before) : m.stop s ≤ m.start t := by
  obtain ⟨r, hr⟩ := Section.upTo_prefix h
  rw [stop_eq, start, front, ← hr]
  simp only [List.flatMap_append, List.flatten_append, List.length_append]
  omega

/-- A chunk of the first `n` sections is a chunk of one of them. -/
theorem exists_split_take {us vs : List (List Word)} {c : List Word} (n : Nat)
    (h : (Section.all.take n).flatMap m = us ++ c :: vs) :
    ∃ sec xs ys, m sec = xs ++ c :: ys ∧ us = m.front sec ++ xs := by
  -- the last of the sections is cut off: `c` is one of its chunks, or of those before it
  induction n generalizing us vs with
  | zero => simp at h
  | succ n ih =>
    by_cases hn : n < Section.all.length
    · rw [List.take_succ_eq_append_getElem hn, List.flatMap_append, List.flatMap_singleton,
        List.append_eq_append_iff] at h
      have hf : m.front Section.all[n] = (Section.all.take n).flatMap m := by
        rw [front, Section.before_getElem hn]
      rcases h with ⟨xs, hu, hx⟩ | ⟨xs, hu, hx⟩
      · exact ⟨_, xs, vs, hx, by rw [hf, hu]⟩
      · cases xs with
        | nil => exact ⟨_, [], vs, hx.symm, by simp [hf, hu]⟩
        | cons d r =>
          obtain ⟨rfl, -⟩ := List.cons.inj hx
          exact ih hu
    · rw [List.take_of_length_le (by omega)] at ih h
      exact ih h

/-- A chunk is a chunk of some section. -/
theorem exists_split {us vs : List (List Word)} {c : List Word} (h : m.chunks = us ++ c :: vs) :
    ∃ sec xs ys, m sec = xs ++ c :: ys ∧ us = m.front sec ++ xs :=
  m.exists_split_take Section.all.length h

/-- All chunks around some of one section. -/
theorem chunks_around {sec : Section} {xs ys zs : List (List Word)}
    (h : m sec = xs ++ (ys ++ zs)) :
    m.chunks = (m.front sec ++ xs) ++ (ys ++ (zs ++ m.back sec)) := by
  rw [m.chunks_eq sec, h]
  simp only [List.append_assoc]

theorem front_update (sec : Section) (x : List (List Word)) :
    front (Function.update m sec x) sec = m.front sec := by
  refine List.flatMap_congr fun s hs => Function.update_of_ne ?_ ..
  rintro rfl
  exact Section.not_mem_before _ hs

theorem back_update (sec : Section) (x : List (List Word)) :
    back (Function.update m sec x) sec = m.back sec := by
  refine List.flatMap_congr fun s hs => Function.update_of_ne ?_ ..
  rintro rfl
  exact Section.not_mem_after _ hs

/-- All chunks after the list of one section is replaced. -/
theorem chunks_update (sec : Section) (xs new zs : List (List Word)) :
    chunks (Function.update m sec (xs ++ (new ++ zs))) =
      (m.front sec ++ xs) ++ (new ++ (zs ++ m.back sec)) := by
  rw [chunks_around _ (Function.update_self ..), front_update, back_update]

/-- Number of words of some sections after the list of one section is replaced. -/
theorem length_flatMap_update (sec : Section) (x : List (List Word)) {l : List Section}
    (hl : l.Nodup) :
    (l.flatMap (Function.update m sec x)).flatten.length +
        (if sec ∈ l then (m sec).flatten.length else 0) =
      (l.flatMap m).flatten.length + (if sec ∈ l then x.flatten.length else 0) := by
  induction l with
  | nil => simp
  | cons s r ih =>
    rw [List.nodup_cons] at hl
    have ih := ih hl.2
    simp only [List.flatMap_cons, List.flatten_append, List.length_append, List.mem_cons]
    by_cases hs : sec = s
    · subst hs
      simp only [hl.1, if_false] at ih
      simp only [Function.update_self, true_or, if_true]
      omega
    · simp only [hs, false_or, Function.update_of_ne (Ne.symm hs)]
      omega

/-- Only the starts of sections behind `sec` depend on the list of `sec`. -/
theorem start_update (sec : Section) (x : List (List Word)) (s : Section) :
    start (Function.update m sec x) s +
        (if sec.index < s.index then (m sec).flatten.length else 0) =
      m.start s + (if sec.index < s.index then x.flatten.length else 0) := by
  have h := m.length_flatMap_update sec x (Section.nodup_before s)
  simp only [Section.mem_before] at h
  rw [start, start, front, front]
  omega

/-- Only the stops from `sec` on depend on the list of `sec`. -/
theorem stop_update (sec : Section) (x : List (List Word)) (s : Section) :
    stop (Function.update m sec x) s + (if sec.index ≤ s.index then (m sec).flatten.length else 0) =
      m.stop s + (if sec.index ≤ s.index then x.flatten.length else 0) := by
  have h := m.length_flatMap_update sec x (Section.nodup_upTo s)
  simp only [Section.mem_upTo] at h
  rw [stop_eq, stop_eq]
  omega

theorem splice_eq {sec : Section} {xs ys zs : List (List Word)} (h : m sec = xs ++ (ys ++ zs))
    (new : List (List Word)) :
    m.splice sec xs.length ys.length new = Function.update m sec (xs ++ (new ++ zs)) := by
  have hd : (xs ++ (ys ++ zs)).drop (xs.length + ys.length) = zs := by
    rw [← List.append_assoc, ← List.length_append, List.drop_left]
  rw [splice, h, List.take_left, hd, List.append_assoc]

end Contents

/-- Whether the words `c` may stand in section `sec`: they are one instruction, and an opcode that
has a home is at home there. -/
def Fits (sec : Section) (c : List Word) : Prop :=
  IsChunk c ∧ ∀ op, Opcode.ofNumber? (Word.number (c.headD 0)) = some op → op.home?.all (· = sec)

/-- An opcode that may stand in a section is at home in no other one. -/
theorem Opcode.home?_ne {o : Opcode} {sec u : Section} (h : o.home?.all (· = sec)) (hu : sec ≠ u) :
    o.home? ≠ some u := by
  intro heq
  rw [heq, Option.all_some, decide_eq_true_eq] at h
  exact hu h.symm

theorem fits_words {sec : Section} {op : Operation} (hh : op.opcode.home?.all (· = sec))
    (hl : op.wordCount ≤ Edit.maxWords) : Fits sec op.words := by
  refine ⟨Operation.isChunk_words hl, fun o ho => ?_⟩
  rw [Operation.opcode?_words, Option.some.injEq] at ho
  rwa [← ho]

theorem fits_nop (sec : Section) : Fits sec [Edit.nopWord] := by
  refine ⟨count_nopWord, fun o ho => ?_⟩
  rw [List.headD_cons, opcode?_nopWord, Option.some.injEq] at ho
  subst ho
  rfl

theorem fits_nops (sec : Section) (n : Nat) :
    ∀ c ∈ List.replicate n [Edit.nopWord], Fits sec c := by
  intro c hc
  rw [List.eq_of_mem_replicate hc]
  exact fits_nop sec

theorem fits_singleton {sec : Section} {c : List Word} (h : Fits sec c) :
    ∀ d ∈ [c], Fits sec d := by
  intro d hd
  rwa [List.mem_singleton.mp hd]

/-- Contents all of whose chunks may stand where they stand. -/
structure Outline where
  contents : Contents
  fits : ∀ sec, ∀ c ∈ contents sec, Fits sec c

namespace Outline

/-- The outline with the list `x` for section `sec`. -/
def update (m : Outline) (sec : Section) (x : List (List Word)) (h : ∀ c ∈ x, Fits sec c) :
    Outline where
  contents := Function.update m.contents sec x
  fits s := by
    by_cases hs : s = sec
    · subst hs
      rwa [Function.update_self]
    · rw [Function.update_of_ne hs]
      exact m.fits s

variable (m : Outline)

theorem isChunk {sec : Section} {c : List Word} (h : c ∈ m.contents sec) : IsChunk c :=
  (m.fits sec c h).1

theorem isChunk_of_mem_chunks {c : List Word} (h : c ∈ m.contents.chunks) : IsChunk c := by
  obtain ⟨sec, -, hc⟩ := List.mem_flatMap.mp h
  exact m.isChunk hc

/-- Whether section `sec` is `xs`, then `ys` from offset `p` on, then `zs`. -/
structure Splits (sec : Section) (p : Nat) (xs ys zs : List (List Word)) : Prop where
  contents_eq : m.contents sec = xs ++ (ys ++ zs)
  offset_eq : p = m.contents.start sec + xs.flatten.length

namespace Splits

variable {m} {sec : Section} {p : Nat} {c : List Word} {xs ys zs new : List (List Word)}

theorem chunks_eq (h : m.Splits sec p xs ys zs) :
    m.contents.chunks = (m.contents.front sec ++ xs) ++ (ys ++ (zs ++ m.contents.back sec)) :=
  m.contents.chunks_around h.contents_eq

theorem headerWords_add (h : m.Splits sec p xs ys zs) :
    headerWords + (m.contents.front sec ++ xs).flatten.length = p := by
  rw [h.offset_eq, Contents.start, List.flatten_append, List.length_append, Nat.add_assoc]

theorem isChunk (h : m.Splits sec p xs ys zs) (hc : c ∈ ys) : IsChunk c :=
  m.isChunk (show c ∈ m.contents sec by simp [h.contents_eq, hc])

theorem fits (h : m.Splits sec p xs ys zs) (hn : ∀ c ∈ new, Fits sec c) :
    ∀ c ∈ xs ++ (new ++ zs), Fits sec c := by
  intro c hc
  simp only [List.mem_append] at hc
  rcases hc with hc | hc | hc
  · exact m.fits sec c (by simp [h.contents_eq, hc])
  · exact hn c hc
  · exact m.fits sec c (by simp [h.contents_eq, hc])

/-- Operands may be exchanged for as many others. -/
theorem fits_operands {w : Word} {us vs : List Word} (h : m.Splits sec p xs [w :: us] zs)
    (hl : vs.length = us.length) : ∀ d ∈ [w :: vs], Fits sec d := by
  have hw : Fits sec (w :: us) := m.fits sec (w :: us) (by simp [h.contents_eq])
  exact fits_singleton ⟨hw.1.trans (by rw [hl]), hw.2⟩

/-- The outline with `new` for the chunks at `p`. -/
def exchange (h : m.Splits sec p xs ys zs) (hn : ∀ c ∈ new, Fits sec c) : Outline :=
  m.update sec (xs ++ (new ++ zs)) (h.fits hn)

theorem exchange_contents (h : m.Splits sec p xs ys zs) (hn : ∀ c ∈ new, Fits sec c) :
    (h.exchange hn).contents = Function.update m.contents sec (xs ++ (new ++ zs)) := rfl

theorem splits_exchange (h : m.Splits sec p xs ys zs) (hn : ∀ c ∈ new, Fits sec c) :
    (h.exchange hn).Splits sec p xs new zs := by
  refine ⟨Function.update_self .., ?_⟩
  rw [exchange_contents, Contents.start, Contents.front_update, h.offset_eq, Contents.start]

end Splits

end Outline

/-! ## Layouts -/

namespace Section

theorem index_injective {s t : Section} (h : s.index = t.index) : s = t := by
  revert h
  cases s <;> cases t <;> decide

theorem exists_index (i : Fin 10) : ∃ s : Section, s.index = i :=
  ⟨all[i], (eq_getElem_iff i.isLt _).mp rfl |> Fin.ext⟩

end Section

namespace Layout

variable (l : Layout) (target s : Section) (d : Int)

theorem start_shift :
    (l.shift target d).start s = l.start s + if target.index < s.index then d else 0 := by
  simp only [shift, start, Fin.getElem_fin, Vector.getElem_ofFn, Fin.eta]
  split
  · rename_i h
    rw [if_neg (by omega), Int.add_zero]
  · split
    · rfl
    · exact (Int.add_zero _).symm

theorem stop_shift :
    (l.shift target d).stop s = l.stop s + if target.index ≤ s.index then d else 0 := by
  simp only [shift, stop, Fin.getElem_fin, Vector.getElem_ofFn, Fin.eta]
  split
  · rename_i h
    rw [if_pos (by omega)]
  · split
    · rw [if_pos (by omega)]
    · rw [if_neg (by omega), Int.add_zero]

variable {l}

/-- The bounds of the sections make a layout. -/
theorem ext_bounds {l' : Layout} (hstart : ∀ sec, l.start sec = l'.start sec)
    (hstop : ∀ sec, l.stop sec = l'.stop sec) : l = l' := by
  obtain ⟨v⟩ := l
  obtain ⟨v'⟩ := l'
  congr 1
  refine Vector.ext fun i hi => ?_
  obtain ⟨sec, hsec⟩ := Section.exists_index ⟨i, hi⟩
  have h1 := hstart sec
  have h2 := hstop sec
  simp only [start, stop, hsec, Fin.getElem_fin] at h1 h2
  cases hb : v[i]
  cases hb' : v'[i]
  rw [hb, hb'] at h1 h2
  cases h1
  cases h2
  rfl

@[simp] theorem shift_zero (l : Layout) (target : Section) : l.shift target 0 = l :=
  ext_bounds (fun s => by rw [start_shift, ite_self, Int.add_zero])
    fun s => by rw [stop_shift, ite_self, Int.add_zero]

end Layout

/-- The words in the middle give way. -/
theorem replaceWords_append (xs ys zs new : List Word) :
    replaceWords (xs ++ (ys ++ zs)) xs.length ys.length new = xs ++ (new ++ zs) := by
  have hd : (xs ++ (ys ++ zs)).drop (xs.length + ys.length) = zs := by
    rw [← List.append_assoc, ← List.length_append, List.drop_left]
  rw [replaceWords, List.take_left, hd, List.append_assoc]

end SpirvModule
