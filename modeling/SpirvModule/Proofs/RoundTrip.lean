import SpirvModule.Proofs.Parse

/-!
# Modules that are written and read

A module is written as its header and then, section by section, its operations. When the first
operation of each section is at home there and no other one is at home elsewhere, reading puts
every operation back where it was, whichever sections are empty. Only the types and the
functions may hold variables and undefined values.

Results:
* `Version.ofWord_word`: a version is read as it is written.
* `walk_sections`: there is a walk over what is written.
* `ModuleView.parse_moduleWords`: reading undoes writing.
-/
namespace SpirvModule

/-- The version in a header is the one that was written there. -/
theorem Version.ofWord_word (v : Version) : ofWord v.word = v := by
  have hmajor := v.major.toNat_lt
  have hminor := v.minor.toNat_lt
  have hn : v.word.toNat = v.major.toNat * 65536 + v.minor.toNat * 256 := by
    rw [word, UInt32.toNat_ofNat']
    omega
  have hhigh : UInt8.ofNat (v.word.toNat / 65536) = v.major := by
    apply UInt8.toNat_inj.mp
    rw [UInt8.toNat_ofNat', hn]
    omega
  have hlow : UInt8.ofNat (v.word.toNat / 256) = v.minor := by
    apply UInt8.toNat_inj.mp
    rw [UInt8.toNat_ofNat', hn]
    omega
  rw [ofWord, hhigh, hlow]

theorem Operation.toOperation?_words (op : Operation) (p : Nat) :
    (Instruction.ofChunk p op.words).toOperation? = some op := by
  have hop : (Instruction.ofChunk p op.words).opcode? = some op.opcode := op.opcode?_words
  rw [Instruction.toOperation?, hop]
  rfl

/-! ## What is written -/

/-- Whether `ops` may be all operations of section `sec`. The first one is at home there, so that it
is not taken for one of an earlier section. -/
structure Section.Holds (sec : Section) (ops : List Operation) : Prop where
  short : ∀ op ∈ ops, op.wordCount ≤ Edit.maxWords
  first : ∀ op ∈ ops.head?, op.opcode.home? = some sec
  homes : ∀ op ∈ ops, op.opcode.home?.all (· = sec)
  wanderers : ∀ op ∈ ops, op.opcode.Wanders → sec = .types ∨ sec = .functions

instance (sec : Section) (ops : List Operation) : Decidable (sec.Holds ops) :=
  decidable_of_iff ((∀ op ∈ ops, op.wordCount ≤ Edit.maxWords) ∧
      (∀ op ∈ ops.head?, op.opcode.home? = some sec) ∧
      (∀ op ∈ ops, op.opcode.home?.all (· = sec)) ∧
      ∀ op ∈ ops, op.opcode.Wanders → sec = .types ∨ sec = .functions)
    ⟨fun ⟨hs, hf, hh, hw⟩ => ⟨hs, hf, hh, hw⟩, fun ⟨hs, hf, hh, hw⟩ => ⟨hs, hf, hh, hw⟩⟩

/-- The operations of some sections, one section behind the other. -/
def written (ops : Section → List Operation) (secs : List Section) : List (Section × Operation) :=
  secs.flatMap fun sec => (ops sec).map (sec, ·)

/-- The words of a module with these operations in its sections. -/
def moduleWords (v : Version) (generator bound reserved : Word) (ops : Section → List Operation) :
    List Word :=
  [magic, v.word, generator, bound, reserved] ++ (Section.all.flatMap ops).flatMap Operation.words

/-- Operations with their sections, in place from `p` on. -/
def Tagged.ofOperations (p : Nat) : List (Section × Operation) → Tagged
  | [] => []
  | e :: r => (e.1, .ofChunk p e.2.words) :: ofOperations (p + e.2.wordCount) r

namespace Tagged

theorem ofOperations_append (p : Nat) (l k : List (Section × Operation)) :
    ofOperations p (l ++ k) =
      ofOperations p l ++ ofOperations (p + (ofOperations p l).words.length) k := by
  induction l generalizing p with
  | nil => rfl
  | cons e r ih =>
    have hlength : (Instruction.ofChunk p e.2.words).words.length = e.2.wordCount := rfl
    rw [List.cons_append, ofOperations, ofOperations, ih, words_cons, List.length_append, hlength,
      Nat.add_assoc, List.cons_append]

theorem words_ofOperations (p : Nat) (l : List (Section × Operation)) :
    (ofOperations p l).words = l.flatMap (·.2.words) := by
  induction l generalizing p with
  | nil => rfl
  | cons e r ih =>
    rw [ofOperations, words_cons, ih]
    rfl

/-- The operations of a section are found where they were put. -/
theorem sift_ofOperations (p : Nat) (l : List (Section × Operation)) (sec : Section) :
    ((ofOperations p l).sift sec).map (fun e => e.2.toOperation?) =
      (l.filter (·.1 = sec)).map fun e => some e.2 := by
  induction l generalizing p with
  | nil => rfl
  | cons e r ih =>
    have ih := ih (p + e.2.wordCount)
    rw [sift] at ih ⊢
    rw [ofOperations]
    by_cases hsec : e.1 = sec
    · simp only [List.filter_cons, hsec, decide_true, if_true, List.map_cons, ih,
        e.2.toOperation?_words]
    · simp only [List.filter_cons, hsec, decide_false, Bool.false_eq_true, if_false, ih]

end Tagged

theorem words_written (ops : Section → List Operation) (secs : List Section) :
    (written ops secs).flatMap (·.2.words) = (secs.flatMap ops).flatMap Operation.words := by
  rw [written, List.flatMap_assoc, List.flatMap_assoc]
  exact List.flatMap_congr fun sec _ => List.flatMap_map ..

/-- The operations of a section among all that are written. -/
theorem filter_written (ops : Section → List Operation) (sec : Section) :
    (written ops Section.all).filter (·.1 = sec) = (ops sec).map (sec, ·) := by
  have other {secs : List Section} (h : sec ∉ secs) :
      (written ops secs).filter (·.1 = sec) = [] := by
    rw [List.filter_eq_nil_iff]
    intro e he
    obtain ⟨t, ht, he⟩ := List.mem_flatMap.mp he
    obtain ⟨op, -, rfl⟩ := List.mem_map.mp he
    rw [decide_eq_true_eq]
    rintro rfl
    exact h ht
  have own : ((ops sec).map (sec, ·)).filter (·.1 = sec) = (ops sec).map (sec, ·) := by
    rw [List.filter_eq_self]
    intro e he
    obtain ⟨op, -, rfl⟩ := List.mem_map.mp he
    exact decide_eq_true rfl
  have hsplit : written ops Section.all =
      written ops sec.before ++ ((ops sec).map (sec, ·) ++ written ops sec.after) := by
    rw [written, sec.all_eq, List.flatMap_append, List.flatMap_cons]
    rfl
  rw [hsplit, List.filter_append, List.filter_append, other sec.not_mem_before, own,
    other sec.not_mem_after, List.nil_append, List.append_nil]

/-! ## The walk over it -/

section
variable {ops : Section → List Operation} {current sec : Section} {op : Operation}

/-- An operation of a section leaves the running section there. -/
theorem Section.advanced_resident (p : Nat) (hh : op.opcode.home?.all (· = sec))
    (hw : op.opcode.Wanders → sec = .types ∨ sec = .functions) :
    sec.Advanced (.ofChunk p op.words) (.ok sec) := by
  have hop : (Instruction.ofChunk p op.words).opcode? = some op.opcode := op.opcode?_words
  have hhome := Instruction.home?_of_opcode hop
  cases hsec : op.opcode.home? with
  | some home =>
    rw [hsec, Option.all_some, decide_eq_true_eq] at hh
    exact .home (hhome.trans (hsec.trans (congrArg some hh))) (Nat.le_refl _)
  | none =>
    refine .stay (hhome.trans hsec) fun ⟨o, ho, hwander⟩ => ?_
    obtain rfl := Option.some.inj (hop.symm.trans ho)
    obtain rfl | rfl := hw hwander
    · exact Nat.le_refl _
    · exact Nat.le_succ _

theorem walk_residents {l : List Operation} (p : Nat)
    (hshort : ∀ op ∈ l, op.wordCount ≤ Edit.maxWords)
    (hh : ∀ op ∈ l, op.opcode.home?.all (· = sec))
    (hw : ∀ op ∈ l, op.opcode.Wanders → sec = .types ∨ sec = .functions) :
    ∃ q, Walk sec p (Tagged.ofOperations p (l.map (sec, ·))) sec q := by
  induction l generalizing p with
  | nil => exact ⟨p, .nil _ _⟩
  | cons op r ih =>
    rw [List.forall_mem_cons] at hshort hh hw
    obtain ⟨q, hq⟩ := ih (p + op.wordCount) hshort.2 hh.2 hw.2
    exact ⟨q, .cons rfl (Operation.isChunk_words hshort.1)
      (Section.advanced_resident p hh.1 hw.1) hq⟩

/-- A walk that is not behind a section goes over it, and stays where it is if the section is
empty. -/
theorem walk_section {l : List Operation} (p : Nat) (h : sec.Holds l) (hle : current ≤ sec) :
    ∃ final q, Walk current p (Tagged.ofOperations p (l.map (sec, ·))) final q ∧ final ≤ sec := by
  cases l with
  | nil => exact ⟨current, p, .nil _ _, hle⟩
  | cons op r =>
    have hshort := List.forall_mem_cons.mp h.short
    have hop : (Instruction.ofChunk p op.words).opcode? = some op.opcode := op.opcode?_words
    have hhome : (Instruction.ofChunk p op.words).home? = some sec :=
      (Instruction.home?_of_opcode hop).trans (h.first op rfl)
    obtain ⟨q, hq⟩ := walk_residents (p + op.wordCount) hshort.2
      (List.forall_mem_cons.mp h.homes).2 (List.forall_mem_cons.mp h.wanderers).2
    exact ⟨sec, q, .cons rfl (Operation.isChunk_words hshort.1) (.home hhome hle) hq, Nat.le_refl _⟩

/-- There is a walk over sections that come in order. -/
theorem walk_sections (current : Section) {secs : List Section} (p : Nat)
    (h : ∀ sec : Section, sec.Holds (ops sec))
    (hsecs : secs.Pairwise (· ≤ ·)) (hle : ∀ sec ∈ secs, current ≤ sec) :
    ∃ final q, Walk current p (Tagged.ofOperations p (written ops secs)) final q := by
  induction secs generalizing p current with
  | nil => exact ⟨current, p, .nil _ _⟩
  | cons sec r ih =>
    obtain ⟨hsec, hr⟩ := List.pairwise_cons.mp hsecs
    obtain ⟨hcurrent, -⟩ := List.forall_mem_cons.mp hle
    obtain ⟨mid, q, hwalk, hmid⟩ := walk_section p (h sec) hcurrent
    obtain ⟨final, q', hrest⟩ := ih mid q hr fun t ht => Nat.le_trans hmid (hsec t ht)
    refine ⟨final, q', ?_⟩
    have hq := hwalk.stop_eq
    rw [written, List.flatMap_cons, Tagged.ofOperations_append, ← hq]
    exact hwalk.append hrest

end

/-- Reading undoes writing: it yields the version, the generator and the bound of the header, and in
the span of every section the operations that were written there. -/
theorem ModuleView.parse_moduleWords (v : Version) (generator bound reserved : Word)
    {ops : Section → List Operation} (h : ∀ sec : Section, sec.Holds (ops sec)) :
    ∃ view, ModuleView.parse (moduleWords v generator bound reserved ops) = .ok view ∧
      view.version = v ∧ view.generator = generator ∧ view.bound = bound ∧
      ∀ sec, (instructionsIn (moduleWords v generator bound reserved ops)
        (view.layout.span sec)).map Instruction.toOperation? = (ops sec).map some := by
  obtain ⟨final, q, hwalk⟩ := walk_sections .capabilities headerWords h
    (by decide : Section.all.Pairwise (· ≤ ·)) fun sec _ => Nat.zero_le sec.index.val
  have hwords : moduleWords v generator bound reserved ops =
      magic :: v.word :: generator :: bound :: reserved ::
        (Tagged.ofOperations headerWords (written ops Section.all)).words := by
    rw [Tagged.words_ofOperations, words_written]
    rfl
  have hlength : (moduleWords v generator bound reserved ops).length = q := by
    rw [hwords, length_header, ← hwalk.stop_eq]
  obtain ⟨s, hs, hlayout, hshows⟩ := hwalk.exists_shows (by rw [hwords]; rfl) hlength
  refine ⟨⟨v, generator, bound, s.layout⟩, parse_eq_ok.mpr ⟨v.word, reserved, _, final, hwords,
    v.ofWord_word.symm, hlength ▸ hwalk, hlength ▸ hlayout⟩, rfl, rfl, rfl, fun sec => ?_⟩
  have hsec : instructionsIn (moduleWords v generator bound reserved ops) (s.layout.span sec) =
      s.instructions sec := by
    rw [Session.instructions, hs]
  rw [hsec, hwalk.instructions_eq hshows, List.map_map]
  calc ((Tagged.ofOperations headerWords (written ops Section.all)).sift sec).map
        (fun e => e.2.toOperation?)
      = ((written ops Section.all).filter (·.1 = sec)).map fun e => some e.2 :=
        Tagged.sift_ofOperations ..
    _ = (ops sec).map some := by rw [filter_written, List.map_map]; rfl

/-- A type, a variable and a function; all other sections are empty. -/
def typeAndFunction : Section → List Operation
  | .types => [⟨.opTypeVoid, [1]⟩, ⟨.opNop, []⟩, ⟨.opVariable, [2, 3, 6]⟩]
  | .functions => [⟨.opFunction, [1, 4, 0, 2]⟩, ⟨.opVariable, [2, 5, 7]⟩, ⟨.opFunctionEnd, []⟩]
  | _ => []

theorem ModuleView.parse_moduleWords_typeAndFunction :
    (∀ sec : Section, sec.Holds (typeAndFunction sec)) ∧
      ∃ view, ModuleView.parse (moduleWords ⟨1, 3⟩ 7 6 0 typeAndFunction) = .ok view ∧
        view.version = ⟨1, 3⟩ ∧ view.generator = 7 ∧ view.bound = 6 ∧
        ∀ sec, (instructionsIn (moduleWords ⟨1, 3⟩ 7 6 0 typeAndFunction)
          (view.layout.span sec)).map Instruction.toOperation? =
            (typeAndFunction sec).map some := by
  have hall : ∀ sec ∈ Section.all, sec.Holds (typeAndFunction sec) := by decide +kernel
  have h (sec : Section) : sec.Holds (typeAndFunction sec) := hall sec sec.mem_all
  exact ⟨h, ModuleView.parse_moduleWords ⟨1, 3⟩ 7 6 0 h⟩

end SpirvModule
