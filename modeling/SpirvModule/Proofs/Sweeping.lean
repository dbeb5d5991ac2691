import SpirvModule.Proofs.Lookup
import SpirvModule.Proofs.Reopening
import SpirvModule.Proofs.Trials

/-!
# Sweeps

A sweep edits instructions of one section where they stand, one after the other: which ones is known
before the first is edited, and none of the edits moves a word. So what a round leaves behind can be
told chunk by chunk, those in front of the one that is edited being done and those behind it being
as they were.

* `Sweep`: which instructions are edited, which of their words change, and what to.
* `Session.Steady`: what a session keeps while it is swept.
* `Sweep.Edits`: an edit that does with one instruction what a sweep is to do with each.

Results:
* `flatten_flatMap_makes`: the words that change are those of the instructions that are picked.
* `Edits.passes`: a loop over the picked instructions sweeps the module.
-/
namespace SpirvModule

/-- A way to edit instructions where they stand. -/
structure Sweep where
  /-- The section of the instructions that are edited. -/
  home : Section
  picks : Instruction → Bool
  /-- Whether the word at an offset is one of those that change in an instruction. -/
  spots : Instruction → Nat → Bool
  becomes : Word → Word
  /-- What the words of an instruction give way to. -/
  rewrites : List Word → List (List Word)
  picks_ofChunk : ∀ p q c, picks (.ofChunk p c) = picks (.ofChunk q c)
  picks_home : ∀ i, picks i → i.home? = some home
  spots_within : ∀ i k, spots i k → i.offset ≤ k ∧ k < i.stop
  flatten_rewrites : ∀ p c, IsChunk c → picks (.ofChunk p c) → (rewrites c).flatten =
    c.mapIdx fun j x => if spots (.ofChunk p c) (p + j) then becomes x else x

namespace Sweep

variable (w : Sweep) {c : List Word} {cs : List (List Word)} {p : Nat}

/-- Whether an instruction is edited so that the word at an offset changes. -/
def touches (i : Instruction) (k : Nat) : Bool := w.picks i && w.spots i k

/-- What a chunk gives way to. -/
def makes (c : List Word) : List (List Word) :=
  if w.picks (.ofChunk 0 c) then w.rewrites c else [c]

theorem touches_iff {i : Instruction} {k : Nat} : w.touches i k ↔ w.picks i ∧ w.spots i k :=
  Bool.and_eq_true_iff

theorem touches_within {i : Instruction} {k : Nat} (h : w.touches i k) :
    i.offset ≤ k ∧ k < i.stop := w.spots_within i k (w.touches_iff.mp h).2

theorem makes_picked (h : w.picks (.ofChunk p c)) : w.makes c = w.rewrites c :=
  if_pos (w.picks_ofChunk p 0 c ▸ h)

theorem makes_other (h : ¬ w.picks (.ofChunk p c)) : w.makes c = [c] :=
  if_neg (w.picks_ofChunk p 0 c ▸ h)

/-- The words of a chunk change where they are touched. -/
theorem flatten_makes (p : Nat) (hc : IsChunk c) : (w.makes c).flatten =
    c.mapIdx fun j x => if w.touches (.ofChunk p c) (p + j) then w.becomes x else x := by
  by_cases h : w.picks (.ofChunk p c)
  · rw [w.makes_picked h, w.flatten_rewrites p c hc h]
    simp only [touches, h, Bool.true_and]
  · rw [w.makes_other h, List.flatten_singleton]
    refine List.ext_getElem? fun k => ?_
    simp [touches, h]

theorem length_makes (hc : IsChunk c) : (w.makes c).flatten.length = c.length := by
  rw [w.flatten_makes 0 hc, List.length_mapIdx]

/-- Each instruction gives way to what is made of it, where it stands. -/
theorem place_flatMap_makes (h : ∀ c ∈ cs, IsChunk c) :
    place p (cs.flatMap w.makes) =
      (place p cs).flatMap fun i => place i.offset (w.makes i.words) := by
  induction cs generalizing p with
  | nil => rfl
  | cons c r ih =>
    rw [List.forall_mem_cons] at h
    rw [List.flatMap_cons, place_append, w.length_makes h.1, ih h.2, place_cons, List.flatMap_cons,
      Instruction.ofChunk_words p h.1, Instruction.ofChunk_offset]

/-- The words that change are those that are touched in one of the instructions. -/
theorem flatten_flatMap_makes (h : ∀ c ∈ cs, IsChunk c) :
    (cs.flatMap w.makes).flatten = cs.flatten.mapIdx fun k x =>
      if ∃ i ∈ place p cs, w.touches i (p + k) then w.becomes x else x := by
  induction cs generalizing p with
  | nil => rfl
  | cons c r ih =>
    rw [List.forall_mem_cons] at h
    -- no word is in two instructions
    have hfirst : ∀ k < c.length, (∃ i ∈ place p (c :: r), w.touches i (p + k)) ↔
        w.touches (.ofChunk p c) (p + k) := by
      intro k hk
      rw [place_cons, List.exists_mem_cons_iff, or_iff_left]
      rintro ⟨i, hi, htouch⟩
      have := (mem_place h.2 hi).1
      have := (w.touches_within htouch).1
      omega
    have hrest : ∀ k, (∃ i ∈ place p (c :: r), w.touches i (p + (k + c.length))) ↔
        ∃ i ∈ place (p + c.length) r, w.touches i (p + c.length + k) := by
      intro k
      have hk : p + (k + c.length) = p + c.length + k := by omega
      rw [place_cons, List.exists_mem_cons_iff, hk, or_iff_right]
      intro htouch
      have := (w.touches_within htouch).2
      rw [Instruction.ofChunk_stop p h.1] at this
      omega
    rw [List.flatMap_cons, List.flatten_append, w.flatten_makes p h.1,
      ih (p := p + c.length) h.2, List.flatten_cons, List.mapIdx_append]
    congr 1
    · rw [List.mapIdx_eq_mapIdx_iff]
      intro k hk
      simp only [hfirst k hk]
    · simp only [hrest]

/-! ## Sections -/

/-- Only chunks of the section that is swept give way to others. -/
theorem chunks_update (m : Outline) :
    Contents.chunks (Function.update m.contents w.home ((m.contents w.home).flatMap w.makes)) =
      m.contents.chunks.flatMap w.makes := by
  rw [Contents.chunks, Contents.chunks, List.flatMap_assoc]
  refine List.flatMap_congr fun sec _ => ?_
  by_cases hsec : sec = w.home
  · subst hsec
    rw [Function.update_self]
  · have hother : ∀ c ∈ m.contents sec, w.makes c = [c] := by
      refine fun c hc => w.makes_other (p := 0) fun hpick => hsec ?_
      exact ((m.fits sec c hc).home (w.picks_home _ hpick)).symm
    rw [Function.update_of_ne hsec, List.flatMap_congr hother, List.flatMap_singleton']

end Sweep

/-! ## Sessions -/

/-- Whether `t` comes of a run in which all is well, and has header and bound of `s`. -/
structure Session.Steady (s t : Session) : Prop where
  reached : ReachedUnder (fun _ => True)
    (fun s c => c.Answered s ∧ ¬ c.Strays s ∧ ¬ c.Overreaches s) t
  editable : t.Editable
  header : t.header = s.header
  fresh : t.fresh = s.fresh

namespace Session.Steady

variable {s t u : Session}

/-- A module that was opened is as it was opened. -/
theorem ofWords {policy : StructPolicy} {ws : List Word} (h : Session.ofWords policy ws = .ok s) :
    s.Steady s := by
  refine ⟨.ofWords h trivial, ?_, rfl, rfl⟩
  obtain ⟨v, fresh, -, -, rfl⟩ := ofWords_ok h
  exact ⟨rfl, rfl⟩

/-- A command that changes nothing in front of an instruction. -/
theorem next (h : s.Steady u) {m : Outline} (hm : u.Shows m) {c : Command}
    (hrun : u.perform c = (.ok .done, t)) (hc : c.Proper u)
    (hstray : c.given? u = none) (hover : c.redefined? u = none) (ht : t.Editable)
    {p old : Nat} {new : List Word} (hp : headerWords ≤ p)
    (hwords : t.words = replaceWords u.words p old new) (hfresh : t.fresh = u.fresh) :
    s.Steady t := by
  refine ⟨h.reached.next hrun hc ⟨⟨.done, by rw [hrun]⟩, ?_, ?_⟩, ht, ?_,
    hfresh.trans h.fresh⟩
  · rintro ⟨e, he, -⟩
    rw [hstray] at he
    cases he
  · rintro ⟨-, id, hid, -⟩
    rw [hover] at hid
    cases hid
  · rw [← h.header, Session.header, Session.header, hwords, replaceWords, List.append_assoc,
      List.take_append_of_le_length, List.take_take, Nat.min_eq_left hp]
    rw [List.length_take]
    exact Nat.le_min.mpr ⟨hp, hm.header⟩

/-- What a session answers outside a bracket is read off its instructions. -/
theorem scans (h : s.Steady t) : t.Scans t.listing :=
  h.reached.reachable.scans_listing h.editable.2

end Session.Steady

namespace Sweep

/-- What a sweep leaves behind. -/
structure Swept (w : Sweep) (s t : Session) : Prop where
  steady : s.Steady t
  words : t.words = s.words.mapIdx fun k x =>
    if ∃ i ∈ s.listing, w.touches i k then w.becomes x else x
  listing : t.listing = s.listing.flatMap fun i => place i.offset (w.makes i.words)

/-- Whether `e` makes of an instruction of `s` that is picked what `w` says, at any point of a sweep
of `s`. -/
def Edits (w : Sweep) (e : Nat → Edit Unit) (s : Session) : Prop :=
  ∀ (u : Session) (m : Outline) (p : Nat) (xs : List (List Word)) (c : List Word)
    (zs : List (List Word)), s.Steady u → u.Sound m → m.Splits w.home p xs [c] zs →
      c ∈ s.contents w.home → w.picks (.ofChunk p c) →
        (e p).Answers u fun _ t => s.Steady t ∧ ∃ m', t.Sound m' ∧
          m'.contents = Function.update m.contents w.home (xs ++ (w.makes c ++ zs))

variable {w : Sweep} {e : Nat → Edit Unit} {s u : Session} {m : Outline}

/-- A loop over the picked instructions from some chunk on. What is in front of it is done. -/
theorem Edits.passes_from (he : w.Edits e s) {p : Nat} {xs zs : List (List Word)}
    (hu : s.Steady u) (hm : u.Sound m) (hsplit : m.Splits w.home p xs zs [])
    (hzs : ∀ c ∈ zs, c ∈ s.contents w.home) :
    (((place p zs).filter w.picks).forM fun i => Trial.edit (e i.offset)).Passes u fun _ t =>
      s.Steady t ∧ ∃ m', t.Sound m' ∧
        m'.contents = Function.update m.contents w.home (xs ++ zs.flatMap w.makes) := by
  induction zs generalizing u m p xs with
  | nil =>
    refine Trial.passes_pure ⟨hu, m, hm, ?_⟩
    have hcontents : m.contents w.home = xs := by simpa using hsplit.contents_eq
    rw [List.flatMap_nil, List.append_nil, ← hcontents, Function.update_eq_self]
  | cons c r ih =>
    have hc : IsChunk c := hsplit.isChunk List.mem_cons_self
    have hone : m.Splits w.home p xs [c] r :=
      ⟨by simpa using hsplit.contents_eq, hsplit.offset_eq⟩
    rw [List.forall_mem_cons] at hzs
    rw [place_cons]
    by_cases hpick : w.picks (.ofChunk p c)
    · rw [List.filter_cons_of_pos hpick]
      have hedit := he u m p xs c r hu hm hone hzs.1 hpick
      refine (Trial.passes_edit hedit).bind ?_
      rintro _ v ⟨hv, m', hm', hcontents⟩
      have hnext : m'.Splits w.home (p + c.length) (xs ++ w.makes c) r [] := by
        refine ⟨by rw [hcontents, Function.update_self]; simp, ?_⟩
        rw [hone.offset_eq, List.flatten_append, List.length_append, w.length_makes hc, hcontents,
          Contents.start, Contents.start, Contents.front_update, Nat.add_assoc, Nat.add_assoc]
      refine (ih hv hm' hnext hzs.2).mono ?_
      rintro _ t ⟨ht, m'', hm'', hcontents'⟩
      refine ⟨ht, m'', hm'', ?_⟩
      rw [hcontents', hcontents, Function.update_idem, List.flatMap_cons, List.append_assoc]
    · rw [List.filter_cons_of_neg hpick]
      have hnext : m.Splits w.home (p + c.length) (xs ++ [c]) r [] := by
        refine ⟨by rw [hsplit.contents_eq]; simp, ?_⟩
        rw [hone.offset_eq, List.flatten_append, List.length_append, List.flatten_singleton,
          Nat.add_assoc]
      refine (ih hu hm hnext hzs.2).mono ?_
      rintro _ t ⟨ht, m', hm', hcontents⟩
      refine ⟨ht, m', hm', ?_⟩
      rw [hcontents, List.flatMap_cons, w.makes_other hpick, List.append_assoc]

/-- A loop over the picked instructions sweeps the module. -/
theorem Edits.passes (he : w.Edits e s) (hs : s.Steady s) :
    (((s.instructions w.home).filter w.picks).forM fun i => Trial.edit (e i.offset)).Passes s
      fun _ t => w.Swept s t := by
  obtain ⟨m, hm⟩ := hs.reached.reachable.sound
  have hchunks := fun c => m.isChunk_of_mem_chunks (c := c)
  have hsplit : m.Splits w.home (m.contents.start w.home) [] (m.contents w.home) [] := by
    constructor <;> simp
  rw [hm.shows.instructions_eq]
  have hhere : ∀ c ∈ m.contents w.home, c ∈ s.contents w.home := by
    rw [hm.shows.contents_eq]
    exact fun _ hc => hc
  refine (he.passes_from hs hm hsplit hhere).mono ?_
  rintro _ t ⟨ht, m', hm', hcontents⟩
  have hall : m'.contents.chunks = m.contents.chunks.flatMap w.makes := by
    rw [hcontents, List.nil_append, w.chunks_update]
  refine ⟨ht, ?_, ?_⟩
  · have hheader : s.header.mapIdx (fun k x =>
        if ∃ i ∈ place headerWords m.contents.chunks, w.touches i k then w.becomes x else x) =
          s.header := by
      refine List.ext_getElem (List.length_mapIdx ..) fun k hk _ => ?_
      rw [List.length_mapIdx, hm.shows.length_header] at hk
      rw [List.getElem_mapIdx, if_neg]
      rintro ⟨i, hi, htouch⟩
      have := (mem_place hchunks hi).1
      have := (w.touches_within htouch).1
      omega
    rw [hm'.shows.words_eq, ht.header, hall, w.flatten_flatMap_makes (p := headerWords) hchunks,
      hm.shows.words_eq, hm.shows.listing_eq, List.mapIdx_append, hheader,
      hm.shows.length_header]
    simp only [Nat.add_comm headerWords]
  · rw [hm'.shows.listing_eq, hall, w.place_flatMap_makes hchunks, hm.shows.listing_eq]

end Sweep

end SpirvModule
