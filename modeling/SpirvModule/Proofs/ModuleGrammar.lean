import SpirvModule.Proofs.Tiling

/-!
# The grammar of modules

Words are a module when a header stands in front that starts with the magic word, and nothing
but a walk behind it, from the capabilities on. Reading accepts these words and no others; the
layout arranges them as the walk says, and of other words the error tells what is wrong first.

Results:
* `Walk.arranges_of_shows`: the layout that is made of a walk.
* `parse_grammatical`, `parse_faulty`: which words read as a module, and how others fail.
* `ModuleView.parse_accepts_grammar`: reading follows the grammar, and nothing else.
-/
namespace SpirvModule

/-! ## The grammar -/

/-- Whether some words are a module with the instructions `l`, each in the section that it takes. -/
structure Grammatical (ws : List Word) (l : Tagged) : Prop where
  header : headerWords ≤ ws.length
  magic : ws[0]? = some magic
  body : ws.drop headerWords = l.words
  walk : ∃ final, Walk .capabilities headerWords l final ws.length

/-- What is wrong with some words: there are too few for a header, it starts with another word, or a
walk behind it meets an offence. -/
inductive Faulty (ws : List Word) : LoadError → Prop
  | short (h : ws.length < headerWords) : Faulty ws (.truncatedHeader ws.length)
  | foreign {w : Word} (h : headerWords ≤ ws.length) (hw : ws[0]? = some w) (hne : w ≠ magic) :
      Faulty ws (.badMagic w)
  | offence {l : Tagged} {final : Section} {q : Nat} {rest : List Word} {e : LoadError}
      (h : headerWords ≤ ws.length) (hw : ws[0]? = some magic)
      (hbody : ws.drop headerWords = l.words ++ rest)
      (hwalk : Walk .capabilities headerWords l final q) (he : Offends ws.length final q rest e) :
      Faulty ws e

namespace Layout

/-- Where the first section behind `sec` starts that is not empty; the end of a module of `length`
words if all are. -/
def nextStart (y : Layout) (length : Nat) (sec : Section) : Nat :=
  ((sec.after.find? fun t => !(y.span t).isEmpty).map fun t => (y.span t).start).getD length

/-- Whether a layout puts the instructions `l` of a module of `length` words into their sections. -/
structure Arranges (y : Layout) (length : Nat) (l : Tagged) : Prop where
  start : (y.span .capabilities).start = headerWords
  contiguous : y.isContiguous length = true
  /-- An instruction lies in the section that it takes. -/
  lies : ∀ e ∈ l, (y.span e.1).start ≤ e.2.offset ∧ e.2.stop ≤ (y.span e.1).stop
  /-- A section that no instruction takes is empty, and lies where the next one starts. -/
  absent : ∀ sec, (∀ e ∈ l, e.1 ≠ sec) →
    y.span sec = ⟨y.nextStart length sec, y.nextStart length sec⟩
  /-- The section of an offset is that of the instruction there. -/
  containing : ∀ q sec, y.containing q = some sec ↔
    ∃ e ∈ l, e.1 = sec ∧ e.2.offset ≤ q ∧ q < e.2.stop
  /-- All offsets behind the header have a section, and no others. -/
  covered : ∀ q, (y.containing q).isSome ↔ headerWords ≤ q ∧ q < length

end Layout

/-! ## Layouts of outlines -/

namespace Session.Shows

variable {s : Session} {m : Outline} {sec : Section} {q : Nat}

theorem contains_iff (h : s.Shows m) :
    (s.layout.span sec).contains q ↔ m.contents.start sec ≤ q ∧ q < m.contents.stop sec := by
  rw [h.span_eq, Span.contains, Bool.and_eq_true, decide_eq_true_eq, decide_eq_true_eq]

/-- An offset is in one section at most. -/
theorem containing_eq (h : s.Shows m) :
    s.layout.containing q = some sec ↔ (s.layout.span sec).contains q := by
  constructor
  · intro hq
    exact List.find?_some (p := fun t => (s.layout.span t).contains q) hq
  · intro hq
    refine List.find?_eq_some_iff_append.mpr ⟨hq, sec.before, sec.after, sec.all_eq, ?_⟩
    intro t ht
    have hle := m.contents.stop_le_start ht
    rw [h.contains_iff] at hq
    rw [Bool.not_eq_true', ← Bool.not_eq_true, h.contains_iff]
    omega

theorem isEmpty_iff (h : s.Shows m) :
    (s.layout.span sec).isEmpty ↔ (m.contents sec).flatten = [] := by
  rw [h.span_eq, Span.isEmpty, decide_eq_true_eq, Contents.stop, ← List.length_eq_zero_iff]
  dsimp only
  omega

/-- A section stops where the next one starts that is not empty. -/
theorem nextStart_eq (h : s.Shows m) (sec : Section) :
    s.layout.nextStart s.words.length sec = m.contents.stop sec := by
  have empty {ts : List Section} (hts : ∀ t ∈ ts, (s.layout.span t).isEmpty) :
      (ts.flatMap m.contents).flatten = [] := by
    rw [List.flatten_eq_nil_iff]
    intro c hc
    obtain ⟨t, ht, hc⟩ := List.mem_flatMap.mp hc
    exact List.flatten_eq_nil_iff.mp (h.isEmpty_iff.mp (hts t ht)) c hc
  unfold Layout.nextStart
  cases hfind : sec.after.find? fun t => !(s.layout.span t).isEmpty with
  | none =>
    have hback : (m.contents.back sec).flatten = [] := empty fun t ht => by
      simpa using List.find?_eq_none.mp hfind t ht
    rw [Option.map_none, Option.getD_none, h.length_words, m.contents.chunks_eq sec,
      List.flatten_append, List.flatten_append, hback, List.append_nil, List.length_append,
      ← Nat.add_assoc]
    rfl
  | some t =>
    obtain ⟨-, as, bs, hafter, has⟩ := List.find?_eq_some_iff_append.mp hfind
    have hall : Section.all = (sec.before ++ [sec] ++ as) ++ t :: bs := by
      rw [sec.all_eq, hafter]
      simp
    have hbefore := Section.before_eq hall
    have hgap : (as.flatMap m.contents).flatten = [] := empty fun a ha => by
      simpa using has a ha
    have hstart : m.contents.start t = m.contents.stop sec := by
      rw [m.contents.stop_eq, Contents.start, Contents.front, hbefore, List.flatMap_append,
        List.flatten_append, hgap, List.append_nil]
    rw [Option.map_some, Option.getD_some, h.span_eq, hstart]

/-- An offset in a section is behind the header and in front of the end. -/
theorem bounds_of_containing (h : s.Shows m) (hq : s.layout.containing q = some sec) :
    headerWords ≤ q ∧ q < s.words.length := by
  rw [h.containing_eq, h.contains_iff] at hq
  have hstop : m.contents.stop sec ≤ s.words.length := by
    rw [h.length_words, m.contents.chunks_eq sec, Contents.stop, Contents.start]
    simp only [List.flatten_append, List.length_append]
    omega
  exact ⟨Nat.le_trans (Nat.le_add_right _ _) hq.1, Nat.lt_of_lt_of_le hq.2 hstop⟩

end Session.Shows

/-! ## Layouts of walks -/

namespace Walk

section
variable {l : Tagged} {final : Section} {q r : Nat} {s : Session} {e : Section × Instruction}

theorem lies (h : Walk .capabilities headerWords l final q) (hs : s.Shows h.outline) (he : e ∈ l) :
    (s.layout.span e.1).start ≤ e.2.offset ∧ e.2.stop ≤ (s.layout.span e.1).stop := by
  have hmem : e.2 ∈ s.instructions e.1 := by
    rw [h.instructions_eq hs]
    exact List.mem_map_of_mem (List.mem_filter.mpr ⟨he, decide_eq_true rfl⟩)
  rw [hs.instructions_eq] at hmem
  have hplace := mem_place (fun c hc => h.outline.isChunk hc) hmem
  rw [hs.span_eq]
  exact ⟨hplace.1, hplace.2.2⟩

theorem containing_eq (h : Walk .capabilities headerWords l final q) (hs : s.Shows h.outline)
    (he : e ∈ l) (hle : e.2.offset ≤ r) (hlt : r < e.2.stop) :
    s.layout.containing r = some e.1 := by
  have hlie := h.lies hs he
  rw [hs.span_eq] at hlie
  rw [hs.containing_eq, hs.contains_iff]
  exact ⟨Nat.le_trans hlie.1 hle, Nat.lt_of_lt_of_le hlt hlie.2⟩

/-- A section that no instruction takes is empty. -/
theorem span_of_absent (h : Walk .capabilities headerWords l final q) (hs : s.Shows h.outline)
    {sec : Section} (hsec : ∀ e ∈ l, e.1 ≠ sec) :
    s.layout.span sec = ⟨s.layout.nextStart s.words.length sec,
      s.layout.nextStart s.words.length sec⟩ := by
  have hnil : h.outline.contents sec = [] := by
    rw [h.outline_contents, Tagged.contents_apply, List.map_eq_nil_iff, Tagged.sift,
      List.filter_eq_nil_iff]
    exact fun e he heq => hsec e he (of_decide_eq_true heq)
  rw [hs.nextStart_eq, hs.span_eq, Contents.stop, hnil]
  rfl

/-- The layout of a walk puts its instructions into their sections. -/
theorem arranges_of_shows (h : Walk .capabilities headerWords l final s.words.length)
    (hs : s.Shows h.outline) : s.layout.Arranges s.words.length l where
  start := hs.sectionStart_eq .capabilities
  contiguous := hs.isContiguous
  lies e he := h.lies hs he
  absent sec hsec := h.span_of_absent hs hsec
  containing r sec := by
    constructor
    · intro hr
      have hbounds := hs.bounds_of_containing hr
      obtain ⟨e, he, hle, hlt⟩ := h.exists_covering hbounds.1 hbounds.2
      exact ⟨e, he, Option.some.inj ((h.containing_eq hs he hle hlt).symm.trans hr), hle, hlt⟩
    · rintro ⟨e, he, rfl, hle, hlt⟩
      exact h.containing_eq hs he hle hlt
  covered r := by
    constructor
    · intro hr
      obtain ⟨sec, hr⟩ := Option.isSome_iff_exists.mp hr
      exact hs.bounds_of_containing hr
    · intro hr
      obtain ⟨e, he, hle, hlt⟩ := h.exists_covering hr.1 hr.2
      rw [h.containing_eq hs he hle hlt]
      rfl

end

end Walk

/-! ## Reading -/

section
variable {ws : List Word}

/-- A module reads as one. -/
theorem parse_grammatical {l : Tagged} (h : Grammatical ws l) :
    ∃ v, ModuleView.parse ws = .ok v ∧ v.layout = .ofStarts ws.length l.starts := by
  obtain ⟨hheader, hmagic, hbody, final, hwalk⟩ := h
  obtain ⟨ver, generator, bound, hparse⟩ := parse_eq_walk hheader hmagic
  rw [(walkFrom_eq_ok (length_drop_header hheader)).mpr ⟨l, final, hbody, hwalk, rfl⟩] at hparse
  exact ⟨_, hparse, rfl⟩

/-- What reads as a module is one. -/
theorem grammatical_of_parse {v : ModuleView} (h : ModuleView.parse ws = .ok v) :
    ∃ l, Grammatical ws l := by
  obtain ⟨ver, reserved, l, final, hws, -, hwalk, -⟩ := parse_eq_ok.mp h
  have hstop := hwalk.stop_eq
  refine ⟨l, by omega, ?_, ?_, final, hwalk⟩
  · rw [hws]
    rfl
  · rw [hws]
    rfl

/-- Other words fail, and the error tells what is wrong with them. -/
theorem parse_faulty {e : LoadError} : ModuleView.parse ws = .error e ↔ Faulty ws e := by
  constructor
  · intro h
    by_cases hheader : headerWords ≤ ws.length
    · obtain ⟨m, ver, generator, bound, reserved, body, hws⟩ := exists_header hheader
      have hm : ws[0]? = some m := by rw [hws]; rfl
      by_cases hmagic : m = magic
      · obtain ⟨_, _, _, hparse⟩ := parse_eq_walk hheader (hmagic ▸ hm)
        rw [h] at hparse
        split at hparse
        · rename_i x hx
          cases hparse
          obtain ⟨l, final, q, rest, hbody, hwalk, he⟩ :=
            (walkFrom_eq_error (length_drop_header hheader)).mp hx
          exact .offence hheader (hmagic ▸ hm) hbody hwalk he
        · cases hparse
      · rw [parse_foreign hheader hm hmagic] at h
        cases h
        exact .foreign hheader hm hmagic
    · rw [parse_short (Nat.lt_of_not_le hheader)] at h
      cases h
      exact .short (Nat.lt_of_not_le hheader)
  · intro h
    cases h with
    | short h => exact parse_short h
    | foreign h hw hne => exact parse_foreign h hw hne
    | @offence l final q rest _ h hw hbody hwalk he =>
      obtain ⟨_, _, _, hparse⟩ := parse_eq_walk h hw
      rw [hparse, (walkFrom_eq_error (length_drop_header h)).mpr
        ⟨l, final, q, rest, hbody, hwalk, he⟩]

end

/-- Reading accepts the modules and nothing else. It arranges the sections of a module as the walk
over its instructions goes, and tells of other words what is wrong first. -/
theorem ModuleView.parse_accepts_grammar (ws : List Word) :
    ((∃ v, ModuleView.parse ws = .ok v) ↔ ∃ l, Grammatical ws l) ∧
      (∀ v l, ModuleView.parse ws = .ok v → Grammatical ws l →
        v.layout.Arranges ws.length l) ∧
      ∀ e, ModuleView.parse ws = .error e ↔ Faulty ws e := by
  refine ⟨⟨fun ⟨v, hv⟩ => grammatical_of_parse hv, fun ⟨l, hl⟩ => ?_⟩, fun v l hv hl => ?_,
    fun e => parse_faulty⟩
  · obtain ⟨v, hv, -⟩ := parse_grammatical hl
    exact ⟨v, hv⟩
  · obtain ⟨v', hv', hlayout⟩ := parse_grammatical hl
    obtain rfl := Except.ok.inj (hv.symm.trans hv')
    obtain ⟨-, -, hbody, final, hwalk⟩ := hl
    obtain ⟨s, rfl, hs, hshows⟩ := hwalk.exists_shows hbody rfl
    rw [hlayout, ← hs]
    exact hwalk.arranges_of_shows hshows

/-- A capability, an instruction with an unknown opcode, and a variable that is met before the
types. -/
def raisedWalk : Tagged :=
  [(.capabilities, ⟨5, Word.lead 2 Opcode.opCapability.number, [1]⟩),
    (.capabilities, ⟨7, Word.lead 1 0xFFFF, []⟩),
    (.types, ⟨8, Word.lead 4 Opcode.opVariable.number, [1, 2, 6]⟩)]

theorem ModuleView.parse_accepts_grammar_raisedWalk :
    Grammatical ([magic, 0x10300, 0, 3, 0] ++ raisedWalk.words) raisedWalk ∧
      (∃ v, ModuleView.parse ([magic, 0x10300, 0, 3, 0] ++ raisedWalk.words) = .ok v ∧
        v.layout.Arranges 12 raisedWalk) ∧
      Faulty ([magic, 0x10300, 0, 3, 0] ++ raisedWalk.words ++ [Word.lead 2 17, 1])
        (.sectionOrder 12 .opCapability .capabilities .types) := by
  have h : Grammatical ([magic, 0x10300, 0, 3, 0] ++ raisedWalk.words) raisedWalk := by
    refine ⟨by decide, rfl, rfl, .types, ?_⟩
    refine .cons rfl (by decide +kernel) (.home (by decide +kernel) (by decide)) ?_
    refine .cons rfl (by decide +kernel) (.stay (by decide +kernel) (by decide +kernel)) ?_
    exact .cons rfl (by decide +kernel) (.wander (by decide +kernel) (by decide)) (.nil _ _)
  obtain ⟨hiff, harranges, -⟩ := ModuleView.parse_accepts_grammar _
  obtain ⟨v, hv⟩ := hiff.mpr ⟨raisedWalk, h⟩
  exact ⟨h, ⟨v, hv, harranges v raisedWalk hv h⟩,
    ((ModuleView.parse_accepts_grammar _).2.2 _).mp (by decide +kernel)⟩

end SpirvModule
