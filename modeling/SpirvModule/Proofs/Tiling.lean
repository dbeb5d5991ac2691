import SpirvModule.Proofs.Course

/-!
# Sections tile a module

At every point of every run the sections follow one another from the header to the end
of the module, the instructions of a section cover it from its start to its stop, and an
instruction whose opcode has a home stands there.

Results:
* `Tiles.covers_iff`: of instructions without gaps exactly one covers a word.
* `Reached.sections_tile`: this holds of every session that a run leads to.
-/
namespace SpirvModule

/-- Whether instructions follow one another without a gap from `p` on, and the last stops at `q`. -/
def Tiles (p q : Nat) : List Instruction → Prop
  | [] => p = q
  | i :: r => i.offset = p ∧ Tiles i.stop q r

namespace Session

/-- Whether sections and instructions cover a module. -/
structure Tiled (s : Session) : Prop where
  /-- Sections follow one another, from the header to the end of the module. -/
  contiguous : s.layout.isContiguous s.words.length = true
  start : s.sectionStart .capabilities = headerWords
  /-- Instructions cover their section. -/
  tiles : ∀ sec, Tiles (s.sectionStart sec) (s.sectionStop sec) (s.instructions sec)
  /-- Every instruction of a section is the one that is read at its offset. -/
  reads : ∀ sec, ∀ i ∈ s.instructions sec, s.instruction? i.offset = some i
  /-- All instructions together are the words behind the header. -/
  words : s.listing.flatMap Instruction.words = s.words.drop headerWords
  /-- An instruction lies in the home of its opcode. -/
  homes : ∀ sec, ∀ i ∈ s.instructions sec, ∀ home, i.opcode? >>= Opcode.home? = some home →
    home = sec ∧ s.sectionStart home ≤ i.offset ∧ i.stop ≤ s.sectionStop home

end Session

theorem tiles_place {cs : List (List Word)} (h : ∀ c ∈ cs, IsChunk c) (p : Nat) :
    Tiles p (p + cs.flatten.length) (place p cs) := by
  induction cs generalizing p with
  | nil => rfl
  | cons c r ih =>
    obtain ⟨hc, hr⟩ := List.forall_mem_cons.mp h
    rw [place_cons, List.flatten_cons, List.length_append, ← Nat.add_assoc]
    refine ⟨rfl, ?_⟩
    rw [Instruction.ofChunk_stop p hc]
    exact ih hr _

theorem Instruction.offset_lt_stop (i : Instruction) : i.offset < i.stop :=
  Nat.lt_add_of_pos_right (Nat.succ_pos _)

namespace Tiles

variable {word p q : Nat} {l : List Instruction} {i : Instruction}

theorem le (h : Tiles p q l) : p ≤ q := by
  induction l generalizing p with
  | nil => exact Nat.le_of_eq h
  | cons i l ih =>
    have hlt := i.offset_lt_stop
    have hle := ih h.2
    have hp := h.1
    omega

theorem bounds (h : Tiles p q l) (hi : i ∈ l) : p ≤ i.offset ∧ i.stop ≤ q := by
  induction l generalizing p with
  | nil => cases hi
  | cons j l ih =>
    obtain ⟨hp, h⟩ := h
    rcases List.mem_cons.mp hi with rfl | hi
    · exact ⟨hp.ge, h.le⟩
    · have hlt := j.offset_lt_stop
      have hbounds := ih h hi
      omega

theorem countP_eq_zero (h : Tiles p q l) (hp : word ≤ p) : l.countP (·.stop ≤ word) = 0 := by
  rw [List.countP_eq_zero]
  intro i hi
  have hbounds := h.bounds hi
  have hlt := i.offset_lt_stop
  rw [decide_eq_true_eq]
  omega

theorem countP_eq_length (h : Tiles p q l) (hq : q ≤ word) :
    l.countP (·.stop ≤ word) = l.length := by
  rw [List.countP_eq_length]
  intro i hi
  have hbounds := h.bounds hi
  rw [decide_eq_true_eq]
  omega

/-- Of instructions without gaps exactly one covers a word, the one with as many in front of it as
end at the word or before. -/
theorem covers_iff (h : Tiles p q l) (hp : p ≤ word) (hq : word < q) (j : Nat) :
    (∃ i ∈ l[j]?, i.offset ≤ word ∧ word < i.stop) ↔ j = l.countP (·.stop ≤ word) := by
  induction l generalizing p j with
  | nil =>
    obtain rfl : p = q := h
    omega
  | cons i l ih =>
    obtain ⟨hoffset, h⟩ := h
    by_cases hstop : word < i.stop
    · rw [List.countP_cons, h.countP_eq_zero hstop.le, if_neg (by simpa using hstop)]
      cases j with
      | zero => simp [hoffset, hp, hstop]
      | succ j =>
        refine iff_of_false ?_ (by omega)
        rintro ⟨k, hk, hle, -⟩
        have := (h.bounds (List.mem_of_getElem? hk)).1
        omega
    · rw [List.countP_cons, if_pos (by simpa using hstop)]
      cases j with
      | zero => simp [hstop]
      | succ j =>
        rw [List.getElem?_cons_succ, ih h (by omega)]
        omega

end Tiles

/-- Each section stops before the next one starts. -/
theorem Section.before_of_zip :
    ∀ e ∈ List.zip Section.all Section.all.tail, e.2.before = e.1.before ++ [e.1] := by decide

namespace Session.Shows

variable {s : Session} {m : Outline}

theorem isContiguous (h : s.Shows m) : s.layout.isContiguous s.words.length = true := by
  simp only [Layout.isContiguous, h.span_eq, Bool.and_eq_true, List.all_eq_true,
    decide_eq_true_eq]
  refine ⟨⟨fun e he => ?_, fun sec _ => m.contents.start_le_stop sec⟩, ?_⟩
  · exact (m.contents.start_next (Section.before_of_zip e he)).symm
  · rw [m.contents.stop_functions, h.length_words]

theorem covers (h : s.Shows m) : s.Tiled where
  contiguous := h.isContiguous
  start := h.sectionStart_eq .capabilities
  tiles sec := by
    rw [h.sectionStart_eq, h.sectionStop_eq, h.instructions_eq]
    exact tiles_place (fun c hc => m.isChunk hc) _
  reads sec i hi := by
    obtain ⟨xs, c, zs, hm, heq⟩ := h.split_of_mem hi
    rw [h.instruction?_of_splits hm, ← heq]
  words := by
    rw [h.listing_eq, h.body, List.flatMap_def, map_words_place]
    exact fun c => m.isChunk_of_mem_chunks
  homes sec i hi home hhome := by
    obtain ⟨xs, c, zs, hm, heq⟩ := h.split_of_mem hi
    have hfits := m.fits sec c (by simp [hm.contents_eq])
    obtain ⟨op, hop, hhome⟩ := Option.bind_eq_some_iff.mp hhome
    rw [heq] at hop
    have hsec := hfits.2 op hop
    rw [hhome, Option.all_some, decide_eq_true_eq] at hsec
    subst hsec
    rw [h.instructions_eq] at hi
    have hlie := mem_place (fun c hc => m.isChunk hc) hi
    rw [h.sectionStart_eq, h.sectionStop_eq]
    exact ⟨rfl, hlie.1, hlie.2.2⟩

end Session.Shows

/-- Sections tile the module at every point of every run. -/
theorem Reached.sections_tile {s : Session} (h : Reachable s) : s.Tiled := by
  obtain ⟨m, hm⟩ := h.sound
  exact hm.shows.covers

/-- A type is declared and named, something is put in at the edge of two sections, and it grows. -/
def edgeRun : List Command :=
  [.declareType (.scalar .bool), .setName .one "b", .insert 5 ⟨.opNop, []⟩,
    .replace 5 ⟨.opName, [1, 0]⟩, .insert 5 (.capability .shader), .remove 7]

theorem sections_tile_edgeRun :
    Reachable ((Session.create .never ⟨1, 3⟩ 0).performAll edgeRun) ∧
      ((Session.create .never ⟨1, 3⟩ 0).performAll edgeRun).Tiled := by
  have h : Reachable ((Session.create .never ⟨1, 3⟩ 0).performAll edgeRun) :=
    Reached.performAll (.create _ _ _ trivial) (by decide +kernel)
  exact ⟨h, h.sections_tile⟩

end SpirvModule
