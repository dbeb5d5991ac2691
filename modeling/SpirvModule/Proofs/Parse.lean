import SpirvModule.Proofs.Move
import SpirvModule.Proofs.Walk

/-!
# What a walk finds

The walk over a module puts each instruction into a section, the sections in order. Sorting
instructions by section gives an outline, and the layout that is made of their offsets is the
layout of the outline.

Results:
* `Tagged.flatMap_sift`: instructions in the order of sections, gathered section by section.
* `Walk.shows`: the words and the layout of a walk show its outline.
* `parse_eq_ok`: when a module reads as one, and as what.
* `ofWords_ok`: what a session is when it opens.
* `ofWords_sound`, `create_sound`: it is sound then.
-/
namespace SpirvModule

/-! ## Sections of a walk -/

/-- Whether a chunk of section `sec` is not one that moves a walk on. -/
def Stays (sec : Section) (c : List Word) : Prop :=
  ∀ op, Opcode.ofNumber? (Word.number (c.headD 0)) = some op → op.Wanders → ¬ sec < .types

/-- Whether no variable and no undefined value stands in a section before the types. -/
def Contents.Clear (m : Contents) : Prop := ∀ sec, ∀ c ∈ m sec, Stays sec c

namespace Tagged

/-- The instructions of a section. -/
def sift (l : Tagged) (sec : Section) : Tagged := l.filter (·.1 = sec)

/-- The words of the instructions of each section. -/
def contents (l : Tagged) : Contents := fun sec => (l.sift sec).map (·.2.words)

theorem contents_apply (l : Tagged) (sec : Section) :
    l.contents sec = (l.sift sec).map (·.2.words) := rfl

/-- The instructions of the sections before the one with index `n`. -/
def upTo (l : Tagged) (n : Nat) : Tagged := l.filter fun e => decide (e.1.index.val < n)

theorem upTo_append_filter {l : Tagged} (h : l.Sorted) (n : Nat) :
    l.upTo n ++ l.filter (fun e => decide (e.1.index.val = n)) = l.upTo (n + 1) := by
  unfold upTo
  induction l with
  | nil => rfl
  | cons d r ih =>
    obtain ⟨hd, hr⟩ := List.pairwise_cons.mp h
    have ih := ih hr
    rcases Nat.lt_trichotomy d.1.index.val n with hn | hn | hn
    · simp only [List.filter_cons, hn, Nat.ne_of_lt hn, Nat.lt_succ_of_lt hn, decide_true,
        decide_false, if_true, Bool.false_eq_true, if_false, List.cons_append, ih]
    · have hnil : (r.filter fun e => decide (e.1.index.val < n)) = [] := by
        rw [List.filter_eq_nil_iff]
        intro e he
        have := hd e he
        simp only [decide_eq_true_eq]
        omega
      rw [hnil, List.nil_append] at ih
      simp only [List.filter_cons, hn, Nat.lt_irrefl, Nat.lt_succ_self, decide_true, decide_false,
        if_true, Bool.false_eq_true, if_false, hnil, List.nil_append, ih]
    · have h1 : ¬ d.1.index.val < n := by omega
      have h2 : ¬ d.1.index.val = n := by omega
      have h3 : ¬ d.1.index.val < n + 1 := by omega
      simp only [List.filter_cons, h1, h2, h3, decide_false, Bool.false_eq_true, if_false, ih]

/-- Gathering section by section changes nothing. -/
theorem flatMap_take {l : Tagged} (h : l.Sorted) (n : Nat) (hn : n ≤ Section.all.length) :
    (Section.all.take n).flatMap l.sift = l.upTo n := by
  induction n with
  | zero => simp [upTo]
  | succ n ih =>
    rw [List.take_succ_eq_append_getElem hn, List.flatMap_append, List.flatMap_singleton,
      ih (Nat.le_of_lt hn), ← upTo_append_filter h, sift]
    simp only [Section.eq_getElem_iff hn]

theorem flatMap_sift {l : Tagged} (h : l.Sorted) : Section.all.flatMap l.sift = l := by
  have hall := flatMap_take h _ (Nat.le_refl _)
  rw [List.take_length] at hall
  rw [hall, upTo, List.filter_eq_self]
  intro e _
  exact decide_eq_true e.1.index.isLt

/-- The words of some sections are those of their instructions. -/
theorem flatMap_contents (l : Tagged) (secs : List Section) :
    secs.flatMap l.contents = (secs.flatMap l.sift).map (·.2.words) :=
  List.map_flatMap.symm

theorem chunks_contents {l : Tagged} (h : l.Sorted) :
    l.contents.chunks = l.map (·.2.words) := by
  rw [Contents.chunks, flatMap_contents, flatMap_sift h]

theorem mem_contents {l : Tagged} {sec : Section} {c : List Word} (hc : c ∈ l.contents sec) :
    ∃ e ∈ l, e.1 = sec ∧ e.2.words = c := by
  obtain ⟨e, he, rfl⟩ := List.mem_map.mp hc
  obtain ⟨hl, hsec⟩ := List.mem_filter.mp he
  exact ⟨e, hl, of_decide_eq_true hsec, rfl⟩

end Tagged

/-! ## Layouts that are filled in -/

namespace Layout

/-- A section has the bounds that it got in its turn. -/
theorem bounds_fill (length : Nat) (first? : Section → Option Nat) (sec : Section) :
    start ⟨(fill length first? Section.all).2⟩ sec = (fill length first? (sec :: sec.after)).1 ∧
      stop ⟨(fill length first? Section.all).2⟩ sec = (fill length first? sec.after).1 := by
  have turn {xs : List Section} (hx : sec ∉ xs) :
      (fill length first? (xs ++ sec :: sec.after)).2[sec.index] =
        ⟨(fill length first? (sec :: sec.after)).1, (fill length first? sec.after).1⟩ := by
    induction xs with
    | nil => exact Vector.getElem_set_self ..
    | cons x r ih =>
      -- what is filled in later has another place
      have hne : x.index.val ≠ sec.index.val := fun heq =>
        hx (Section.index_injective (Fin.ext heq) ▸ List.mem_cons_self ..)
      rw [List.cons_append, fill]
      dsimp only [Fin.getElem_fin]
      rw [Vector.getElem_set_ne _ _ hne]
      exact ih fun hr => hx (List.mem_cons_of_mem _ hr)
  rw [sec.all_eq]
  have hbounds := turn sec.not_mem_before
  exact ⟨congrArg Bounds.start hbounds, congrArg Bounds.stop hbounds⟩

/-- In the order of sections the first instruction from a section on is the first of the section, if
it has one. -/
theorem find?_or {l : List (Section × Nat)} (h : l.Pairwise fun d e => d.1.index ≤ e.1.index)
    (sec : Section) :
    (l.find? fun e => decide (sec.index.val ≤ e.1.index.val)) =
      (l.find? fun e => decide (e.1 = sec)).or
        (l.find? fun e => decide (sec.index.val + 1 ≤ e.1.index.val)) := by
  induction l with
  | nil => rfl
  | cons d r ih =>
    obtain ⟨hd, hr⟩ := List.pairwise_cons.mp h
    have other (hne : d.1.index.val ≠ sec.index.val) : d.1 ≠ sec := fun heq => hne (heq ▸ rfl)
    simp only [List.find?_cons]
    rcases Nat.lt_trichotomy d.1.index.val sec.index.val with hlt | heq | hlt
    · simp only [Nat.not_le_of_lt hlt, other (by omega), Nat.not_le_of_lt (Nat.lt_succ_of_lt hlt),
        decide_false]
      exact ih hr
    · have hsec : d.1 = sec := Section.index_injective (Fin.ext heq)
      simp [hsec]
    · have hnone : (r.find? fun e => decide (e.1 = sec)) = none := by
        refine List.find?_eq_none.mpr fun e he heq => ?_
        have hle : d.1.index ≤ e.1.index := hd e he
        rw [of_decide_eq_true heq] at hle
        omega
      simp [other (by omega), hnone, Nat.le_of_lt hlt, Nat.succ_le_of_lt hlt]

/-- Sections are filled in from the first instruction that stands in them or behind them. -/
theorem fill_eq_find {length : Nat} {starts : List (Section × Nat)}
    (h : starts.Pairwise fun d e => d.1.index ≤ e.1.index) {xs ts : List Section}
    (hall : Section.all = xs ++ ts) :
    (fill length (fun s => (starts.find? fun p => p.1 = s).map (·.2)) ts).1 =
      ((starts.find? fun e => decide (xs.length ≤ e.1.index.val)).map (·.2)).getD length := by
  induction ts generalizing xs with
  | nil =>
    have hnone : (starts.find? fun e => decide (xs.length ≤ e.1.index.val)) = none := by
      rw [List.find?_eq_none]
      intro e _
      have hlen : xs.length = 10 := by rw [← List.append_nil xs, ← hall]; rfl
      simp only [decide_eq_true_eq]
      omega
    rw [hnone]
    rfl
  | cons sec ts ih =>
    have hlen : xs.length = sec.index.val := by
      rw [← Section.before_eq hall, Section.length_before]
    have hnext := @ih (xs ++ [sec]) (by rw [hall, List.append_assoc, List.singleton_append])
    rw [List.length_append, List.length_singleton, hlen] at hnext
    rw [hlen, find?_or h, fill]
    dsimp only
    rw [hnext]
    cases starts.find? fun p => decide (p.1 = sec) <;> rfl

end Layout

namespace Walk

variable {current final : Section} {p q : Nat} {l : Tagged}

/-- The instructions of a walk fit the sections that they take, and stay there. -/
theorem fits (h : Walk current p l final q) :
    ∀ e ∈ l, Fits e.1 e.2.words ∧ Stays e.1 e.2.words := by
  induction h with
  | nil => exact nofun
  | @cons _ sec _ _ _ i _ _ hi ha _ ih =>
    refine List.forall_mem_cons.mpr ⟨⟨⟨hi, fun op hop => ?_⟩, fun op hop hw => ?_⟩, ih⟩
    · rw [← Instruction.home?_of_opcode (i := i) hop]
      exact ha.home_eq
    · exact Nat.not_lt.mpr (ha.types_le ⟨op, hop, hw⟩)

/-- The outline of a walk. -/
def outline (h : Walk current p l final q) : Outline where
  contents := l.contents
  fits sec c hc := by
    obtain ⟨e, he, rfl, rfl⟩ := Tagged.mem_contents hc
    exact (h.fits e he).1

theorem outline_contents (h : Walk current p l final q) : h.outline.contents = l.contents := rfl

theorem outline_clear (h : Walk current p l final q) : h.outline.contents.Clear := by
  intro sec c hc
  obtain ⟨e, he, rfl, rfl⟩ := Tagged.mem_contents hc
  exact (h.fits e he).2

/-- The first instruction of the sections from some place on stands behind the instructions up to
there. -/
theorem find_starts (h : Walk current p l final q) (n : Nat) :
    ((l.starts.find? fun e => decide (n ≤ e.1.index.val)).map (·.2)).getD q =
      p + (l.upTo n).words.length := by
  induction h with
  | nil => rfl
  | @cons current sec final p q j l hp hj ha h ih =>
    by_cases hn : n ≤ sec.index.val
    · have hnil : Tagged.upTo ((sec, j) :: l) n = [] := by
        rw [Tagged.upTo, List.filter_eq_nil_iff]
        intro e he
        have hle : sec.index ≤ e.1.index := by
          rcases List.mem_cons.mp he with rfl | he
          · exact Nat.le_refl _
          · exact h.current_le e he
        simp only [decide_eq_true_eq]
        omega
      simp [Tagged.starts, hn, hnil, hp]
    · have hlt : sec.index.val < n := by omega
      have hup : Tagged.upTo ((sec, j) :: l) n = (sec, j) :: l.upTo n := by
        simp only [Tagged.upTo, List.filter_cons, hlt, decide_true, if_true]
      simp only [Tagged.starts, List.map_cons, List.find?_cons, hn, decide_false] at ih ⊢
      rw [ih, hup, Tagged.words_cons, List.length_append, Instruction.stop, hp,
        Instruction.length_words, Nat.add_assoc]

/-- The bounds that are filled in are those of the outline. -/
theorem bounds_ofStarts (h : Walk current headerWords l final q) (sec : Section) :
    (Layout.ofStarts q l.starts).start sec = l.contents.start sec ∧
      (Layout.ofStarts q l.starts).stop sec = l.contents.stop sec := by
  have hsorted : l.starts.Pairwise fun d e => d.1.index ≤ e.1.index :=
    List.pairwise_map.mpr h.sorted
  have hupTo {n : Nat} (hn : n ≤ Section.all.length) :
      headerWords + ((Section.all.take n).flatMap l.contents).flatten.length =
        ((l.starts.find? fun e => decide (n ≤ e.1.index.val)).map (·.2)).getD q := by
    rw [Tagged.flatMap_contents, Tagged.flatMap_take h.sorted n hn, ← Tagged.words_eq_flatten,
      h.find_starts]
  rw [Layout.ofStarts, (Layout.bounds_fill q _ sec).1, (Layout.bounds_fill q _ sec).2]
  constructor
  · rw [Layout.fill_eq_find hsorted sec.all_eq, Section.length_before, Contents.start,
      Contents.front, Section.before, hupTo (Nat.le_of_lt sec.index.isLt)]
  · have hall : Section.all = (sec.before ++ [sec]) ++ sec.after := by
      rw [List.append_assoc, List.singleton_append, ← sec.all_eq]
    rw [Layout.fill_eq_find hsorted hall, List.length_append, Section.length_before,
      List.length_singleton, Contents.stop_eq, Section.upTo_eq_take,
      hupTo (Nat.succ_le_of_lt sec.index.isLt)]

/-- A session with the words of a walk behind its header, and the layout made of their offsets,
shows the outline of the walk. -/
theorem shows (h : Walk current headerWords l final q) {s : Session}
    (hwords : s.words.drop headerWords = l.words) (hlength : s.words.length = q)
    (hlayout : s.layout = .ofStarts q l.starts) : s.Shows h.outline := by
  have hstop := h.stop_eq
  refine ⟨by omega, ?_, fun sec => ?_, fun sec => ?_⟩
  · rw [hwords, h.outline_contents, Tagged.chunks_contents h.sorted, Tagged.words_eq_flatten]
  · rw [hlayout]
    exact (h.bounds_ofStarts sec).1
  · rw [hlayout]
    exact (h.bounds_ofStarts sec).2

/-- The instructions that are found in a section are those that took it. -/
theorem instructions_eq (h : Walk current headerWords l final q) {s : Session}
    (hs : s.Shows h.outline) (sec : Section) : s.instructions sec = (l.sift sec).map (·.2) := by
  -- cut into those in front of the section, its own and those behind
  have hl : sec.before.flatMap l.sift ++ (l.sift sec ++ sec.after.flatMap l.sift) = l := by
    rw [← List.flatMap_cons, ← List.flatMap_append, ← sec.all_eq, Tagged.flatMap_sift h.sorted]
  have hfront : l.contents.front sec = (sec.before.flatMap l.sift).map (·.2.words) :=
    l.flatMap_contents sec.before
  have hplace := h.place_eq
  rw [hs.instructions_eq, h.outline_contents, Contents.start, hfront, Tagged.contents_apply]
  generalize sec.before.flatMap l.sift = xs at hl ⊢
  generalize sec.after.flatMap l.sift = zs at hl
  generalize l.sift sec = ys at hl ⊢
  subst hl
  simp only [List.map_append, place_append] at hplace
  have hrest := (List.append_inj hplace (by simp)).2
  exact (List.append_inj hrest (by simp)).1.symm

/-- There is a session with the words of a walk and the layout made of their offsets. -/
theorem exists_shows (h : Walk current headerWords l final q) {ws : List Word}
    (hwords : ws.drop headerWords = l.words) (hlength : ws.length = q) :
    ∃ s : Session, s.words = ws ∧ s.layout = .ofStarts q l.starts ∧ s.Shows h.outline := by
  let s : Session := { Session.create .never ⟨1, 0⟩ 0 with
    words := ws
    layout := .ofStarts q l.starts }
  exact ⟨s, rfl, rfl, h.shows (s := s) hwords hlength rfl⟩

end Walk

/-! ## Opening -/

section
variable {ws : List Word}

/-- Words that are enough for a header. -/
theorem exists_header (h : headerWords ≤ ws.length) :
    ∃ first ver generator bound reserved body,
      ws = first :: ver :: generator :: bound :: reserved :: body := by
  rcases ws with _ | ⟨a, _ | ⟨b, _ | ⟨c, _ | ⟨d, _ | ⟨e, body⟩⟩⟩⟩⟩
  all_goals
    simp only [List.length_cons, List.length_nil, headerWords] at h
  any_goals omega
  exact ⟨a, b, c, d, e, body, rfl⟩

theorem length_header (first ver generator bound reserved : Word) (body : List Word) :
    (first :: ver :: generator :: bound :: reserved :: body).length =
      headerWords + body.length := by
  simp only [List.length_cons, headerWords]
  omega

theorem length_drop_header (h : headerWords ≤ ws.length) :
    ws.length = headerWords + (ws.drop headerWords).length := by
  rw [List.length_drop]
  omega

theorem parse_short (h : ws.length < headerWords) :
    ModuleView.parse ws = .error (.truncatedHeader ws.length) := by
  unfold ModuleView.parse
  split
  · simp only [List.length_cons, headerWords] at h
    omega
  · rfl

theorem parse_foreign {w : Word} (h : headerWords ≤ ws.length) (hw : ws[0]? = some w)
    (hne : w ≠ magic) : ModuleView.parse ws = .error (.badMagic w) := by
  obtain ⟨first, ver, generator, bound, reserved, body, rfl⟩ := exists_header h
  obtain rfl : first = w := by simpa using hw
  exact if_pos hne

theorem parse_cons (ver generator bound reserved : Word) (body : List Word) :
    ModuleView.parse (magic :: ver :: generator :: bound :: reserved :: body) =
      match walkFrom (headerWords + body.length) 0 headerWords .capabilities body with
      | .error e => .error e
      | .ok starts =>
        .ok ⟨.ofWord ver, generator, bound, .ofStarts (headerWords + body.length) starts⟩ := by
  rewrite [ModuleView.parse, if_neg (not_not.mpr rfl), length_header]
  cases walkFrom (headerWords + body.length) 0 headerWords .capabilities body <;> rfl

/-- Words with the right header read as the walk over what stands behind it goes. -/
theorem parse_eq_walk (h : headerWords ≤ ws.length) (hm : ws[0]? = some magic) :
    ∃ ver generator bound, ModuleView.parse ws =
      match walkFrom ws.length 0 headerWords .capabilities (ws.drop headerWords) with
      | .error e => .error e
      | .ok starts => .ok ⟨.ofWord ver, generator, bound, .ofStarts ws.length starts⟩ := by
  obtain ⟨first, ver, generator, bound, reserved, body, rfl⟩ := exists_header h
  obtain rfl : first = magic := by simpa using hm
  refine ⟨ver, generator, bound, ?_⟩
  rw [parse_cons, length_header]
  rfl

/-- A module reads as one if it has a header and there is a walk over what stands behind. -/
theorem parse_eq_ok {v : ModuleView} :
    ModuleView.parse ws = .ok v ↔ ∃ ver reserved l final,
      ws = magic :: ver :: v.generator :: v.bound :: reserved :: l.words ∧
        v.version = .ofWord ver ∧ Walk .capabilities headerWords l final ws.length ∧
          v.layout = .ofStarts ws.length l.starts := by
  constructor
  · intro h
    have hheader : headerWords ≤ ws.length := by
      by_contra hlt
      rw [parse_short (Nat.lt_of_not_le hlt)] at h
      cases h
    obtain ⟨first, ver, generator, bound, reserved, body, rfl⟩ := exists_header hheader
    have hfirst : first = magic := by
      by_contra hne
      rw [parse_foreign hheader rfl hne] at h
      cases h
    subst hfirst
    rw [parse_cons] at h
    split at h
    · cases h
    · rename_i starts hw
      cases h
      obtain ⟨l, final, rfl, hwalk, rfl⟩ := (walkFrom_eq_ok rfl).mp hw
      rw [← length_header magic ver generator bound reserved] at hwalk ⊢
      exact ⟨ver, reserved, l, final, rfl, rfl, hwalk, rfl⟩
  · rintro ⟨ver, reserved, l, final, rfl, hver, hwalk, hlayout⟩
    have hlength := hwalk.stop_eq
    rw [hlength] at hwalk hlayout
    have hw : walkFrom (headerWords + l.words.length) 0 headerWords .capabilities l.words =
        .ok l.starts := (walkFrom_eq_ok rfl).mpr ⟨l, final, rfl, hwalk, rfl⟩
    rw [parse_cons, hw]
    dsimp only
    rw [← hver, ← hlayout]

end

/-- A module that reads as one has an outline, which every session with its words behind the header
and its layout shows. -/
theorem parse_ok {ws : List Word} {v : ModuleView} (h : ModuleView.parse ws = .ok v) :
    headerWords ≤ ws.length ∧ ∃ m : Outline, m.contents.Clear ∧ ∀ s : Session,
      s.words.drop headerWords = ws.drop headerWords → s.words.length = ws.length →
      s.layout = v.layout → s.Shows m := by
  obtain ⟨ver, reserved, l, final, hws, -, hwalk, hlayout⟩ := parse_eq_ok.mp h
  have hstop := hwalk.stop_eq
  refine ⟨by omega, hwalk.outline, hwalk.outline_clear, fun s hdrop hlength hs => ?_⟩
  refine hwalk.shows ?_ hlength (hs.trans hlayout)
  rw [hdrop, hws]
  rfl

namespace Session

/-- The instructions that are found in the words of a module by its layout. -/
def found (ws : List Word) (l : Layout) : List Instruction :=
  Section.all.flatMap fun sec => instructionsIn ws (l.span sec)

/-- What a session is when it opens a module. -/
theorem ofWords_ok {policy : StructPolicy} {ws : List Word} {s : Session}
    (h : ofWords policy ws = .ok s) :
    ∃ v fresh, ModuleView.parse ws = .ok v ∧
      firstFresh? v.bound (Index.ofInstructions policy (found ws v.layout)).highestId? =
        some fresh ∧
      s = {
        words := ws.set boundWord fresh.value
        policy := policy
        version := v.version
        fresh := fresh
        layout := v.layout
        index := Index.ofInstructions policy (found ws v.layout)
        storageBufferClass := classOf v.version
          (namesExtension storageBufferExtension (instructionsIn ws (v.layout.span .extensions)))
        bracket := none
        breach := none } := by
  unfold ofWords at h
  split at h
  · cases h
  · rename_i v hv
    dsimp only at h
    split at h
    · cases h
    · rename_i fresh hfresh
      cases h
      exact ⟨v, fresh, hv, hfresh, rfl⟩

/-- The bound is not part of the outline, so that the words before and after opening show the
same. -/
theorem ofWords_shows {policy : StructPolicy} {ws : List Word} {s : Session}
    (h : ofWords policy ws = .ok s) :
    ∃ m, m.contents.Clear ∧ s.Shows m ∧ Shows { s with words := ws } m := by
  obtain ⟨v, fresh, hv, -, hs⟩ := ofWords_ok h
  obtain ⟨-, m, hclear, hm⟩ := parse_ok hv
  refine ⟨m, hclear, ?_, hm _ rfl rfl (by rw [hs])⟩
  apply hm
  · rw [hs, List.drop_set_of_lt (by decide)]
  · rw [hs, List.length_set]
  · rw [hs]

/-- A session that opens a module is sound, and its index is made of the instructions there are. -/
theorem ofWords_sound {policy : StructPolicy} {ws : List Word} {s : Session}
    (h : ofWords policy ws = .ok s) :
    ∃ m, s.Sound m ∧ s.bracket = none ∧ s.index = Index.ofInstructions policy s.listing ∧
      m.contents.Clear := by
  obtain ⟨v, fresh, hv, -, hs⟩ := ofWords_ok h
  obtain ⟨m, hclear, hshows, hread⟩ := ofWords_shows h
  have hfound : found ws v.layout = s.listing := by
    rw [hshows.listing_eq, ← hread.listing_eq, hs]
    rfl
  have hb : s.bracket = none := by rw [hs]
  refine ⟨m, ⟨hshows, encloses_of_none m hb⟩, hb, ?_, hclear⟩
  rw [← hfound, hs]

/-- The outline of a module without instructions. -/
def blank : Outline := ⟨fun _ => [], nofun⟩

theorem create_sound (policy : StructPolicy) (v : Version) (generator : Word) :
    (create policy v generator).Sound blank := by
  refine ⟨⟨Nat.le_refl _, rfl, fun sec => ?_, fun sec => ?_⟩, encloses_of_none _ rfl⟩
  · cases sec <;> rfl
  · cases sec <;> rfl

end Session

end SpirvModule
