import SpirvModule.Proofs.Parse
import SpirvModule.Proofs.Track

/-!
# What moves do to the live instructions

The live instructions are those outside the open bracket, and the index is of them. A
split of a section cuts the live instructions in front of what is edited and behind it.
With the cut at hand each move is a few changes of index and instructions together.

Results:
* `Sound.live_of_splits`, `Sound.live_of_bracket`: the live instructions around a split.
* `Sound.changes`: the changes that a move consists of.
-/
namespace SpirvModule

/-! ## Around a split -/

namespace Outline

variable (m : Outline) (sec : Section)

/-- The instructions in front of a split of `sec` that leaves the chunks `xs` there. -/
def ahead (xs : List (List Word)) : List Instruction :=
  place headerWords (m.contents.front sec ++ xs)

/-- The instructions from `q` on behind a split of `sec` that leaves the chunks `zs` there. -/
def behind (q : Nat) (zs : List (List Word)) : List Instruction :=
  place q (zs ++ m.contents.back sec)

variable {m sec} {p q : Nat} {c : List Word} {xs ys zs new : List (List Word)}

theorem Splits.place_chunks (h : m.Splits sec p xs ys zs) :
    place headerWords m.contents.chunks =
      m.ahead sec xs ++ (place p ys ++ m.behind sec (p + ys.flatten.length) zs) := by
  rw [h.chunks_eq, place_append headerWords, h.headerWords_add, place_append p]
  rfl

theorem Splits.ahead_lt (h : m.Splits sec p xs ys zs) : ∀ j ∈ m.ahead sec xs, j.offset < p := by
  intro j hj
  have hc : ∀ c ∈ m.contents.front sec ++ xs, IsChunk c := fun c hc =>
    m.isChunk_of_mem_chunks (by rw [h.chunks_eq]; exact List.mem_append_left _ hc)
  have := mem_place hc hj
  rw [h.headerWords_add] at this
  omega

theorem Splits.le_behind (h : m.Splits sec p xs ys zs) :
    ∀ j ∈ m.behind sec q zs, q ≤ j.offset := by
  intro j hj
  have hc : ∀ c ∈ zs ++ m.contents.back sec, IsChunk c := fun c hc =>
    m.isChunk_of_mem_chunks (by
      rw [h.chunks_eq]
      exact List.mem_append_right _ (List.mem_append_right _ hc))
  exact (mem_place hc hj).1

theorem Splits.lt_behind (h : m.Splits sec p xs ys zs) {n : Nat} (hn : 0 < n) :
    ∀ j ∈ m.behind sec (p + n) zs, p < j.offset := by
  intro j hj
  have := h.le_behind j hj
  omega

theorem Splits.ahead_exchange (h : m.Splits sec p xs ys zs) (hn : ∀ c ∈ new, Fits sec c) :
    (h.exchange hn).ahead sec xs = m.ahead sec xs := by
  rw [ahead, h.exchange_contents, Contents.front_update, ahead]

theorem Splits.behind_exchange (h : m.Splits sec p xs ys zs) (hn : ∀ c ∈ new, Fits sec c) :
    (h.exchange hn).behind sec q zs = m.behind sec q zs := by
  rw [behind, h.exchange_contents, Contents.back_update, behind]

end Outline

theorem place_shifted (p removed added : Nat) (cs : List (List Word)) :
    (place (p + removed) cs).map (.shifted removed added) = place (p + added) cs := by
  induction cs generalizing p with
  | nil => rfl
  | cons c r ih =>
    have hi : (Instruction.ofChunk (p + removed) c).shifted removed added =
        .ofChunk (p + added) c := by
      simp [Instruction.shifted, Instruction.ofChunk]
    rw [place_cons, place_cons, List.map_cons, hi, Nat.add_right_comm, ih, Nat.add_right_comm]

/-- What stands behind `old` words at `p` stands behind `new` words once these replace them. -/
theorem Outline.behind_shifted (m : Outline) (sec : Section) (p old new : Nat)
    (zs : List (List Word)) :
    (m.behind sec (p + old) zs).map (.shifted (old - new) (new - old)) =
      m.behind sec (p + new) zs := by
  have h := place_shifted (p + min old new) (old - new) (new - old) (zs ++ m.contents.back sec)
  have h1 : p + min old new + (old - new) = p + old := by omega
  have h2 : p + min old new + (new - old) = p + new := by omega
  rwa [h1, h2] at h

namespace Session

variable {s t : Session} {m : Outline} {sec : Section} {p : Nat} {op : Operation}
  {c : List Word} {xs ys zs : List (List Word)}

theorem live_of_none (h : s.bracket = none) : s.live = s.listing := by
  simp [live, brackets, h]

theorem Sound.live_congr (h : s.Sound m) (ht : t.Sound m) (hb : t.bracket = s.bracket) :
    t.live = s.live := by
  have hlist : t.listing = s.listing := by rw [h.shows.listing_eq, ht.shows.listing_eq]
  have hbr : t.brackets = s.brackets := by
    funext q
    rw [brackets, brackets, hb]
  rw [live, live, hlist, hbr]

/-- The live instructions around a split, when no bracket is open. -/
theorem Sound.live_of_splits (h : s.Sound m) (hb : s.bracket = none)
    (hm : m.Splits sec p xs ys zs) :
    s.live = m.ahead sec xs ++ (place p ys ++ m.behind sec (p + ys.flatten.length) zs) := by
  rw [live_of_none hb, h.shows.listing_eq, hm.place_chunks]

/-- The live instructions around the one in the open bracket. -/
theorem Sound.live_of_bracket (h : s.Sound m) {b : Bracket} (hb : s.bracket = some b)
    (hm : m.Splits sec b.offset xs [c] zs) :
    s.live = m.ahead sec xs ++ m.behind sec (b.offset + c.length) zs := by
  have hc : IsChunk c := hm.isChunk (List.mem_singleton_self c)
  have hlist : s.listing = m.ahead sec xs ++
      (.ofChunk b.offset c :: m.behind sec (b.offset + c.length) zs) := by
    rw [h.shows.listing_eq, hm.place_chunks, List.flatten_singleton]
    rfl
  have hbr (q : Nat) : s.brackets q = decide (b.offset = q) := by
    rw [brackets, hb, Option.any_some]
  have hahead : (m.ahead sec xs).filter (fun i => !s.brackets i.offset) = m.ahead sec xs := by
    rw [List.filter_eq_self]
    intro j hj
    have := hm.ahead_lt j hj
    rw [hbr, decide_eq_false (by omega)]
    rfl
  have hbehind : (m.behind sec (b.offset + c.length) zs).filter (fun i => !s.brackets i.offset) =
      m.behind sec (b.offset + c.length) zs := by
    rw [List.filter_eq_self]
    intro j hj
    have := hm.le_behind j hj
    have := hc.pos
    rw [hbr, decide_eq_false (by omega)]
    rfl
  rw [live, hlist, List.filter_append, hahead, List.filter_cons_of_neg, hbehind]
  rw [hbr, Instruction.ofChunk_offset]
  simp

/-! ## Changes of moves -/

open Index (Change Changes)

/-- The index and the instructions it is of. -/
def tracked (s : Session) : Index × List Instruction := (s.index, s.live)

theorem Changes.single {a b : Index × List Instruction} (h : Change a b) :
    Changes (definedIds a.2) (definedIds b.2) a b :=
  .single ⟨h, .inl (.refl _), .inr (.refl _)⟩

/-- Whether a few changes lead from `s` to `t`, with ids on the way that are all in `s` or all in
`t`. -/
def Tracks (s t : Session) : Prop := Changes s.liveIds t.liveIds s.tracked t.tracked

theorem Tracks.trans {u : Session} (h : s.Tracks u) (h' : u.Tracks t)
    (hu : List.Sublist u.liveIds s.liveIds ∨ List.Sublist u.liveIds t.liveIds) : s.Tracks t :=
  (Changes.mono h (.inl (.refl _)) hu).trans (Changes.mono h' hu (.inr (.refl _)))

theorem Tracks.of_eq (hi : t.index = s.index) (hl : t.live = s.live) : s.Tracks t := by
  rw [Tracks, tracked, tracked, hi, hl]
  exact .refl

/-- The change of the index that goes with an exchange of words. -/
theorem changes_exchange (hm : m.Splits sec p xs ys zs) (x : Index) (policy : StructPolicy)
    (old : Nat) (op : Operation) (ids : List Id)
    (hids : List.Sublist (definedIds (m.ahead sec xs ++ m.behind sec (p + old) zs)) ids) :
    Changes ids
      (definedIds (m.ahead sec xs ++ .ofChunk p op.words :: m.behind sec (p + op.wordCount) zs))
      (x, m.ahead sec xs ++ m.behind sec (p + old) zs)
      ((x.relocate (p + min old op.wordCount) (old - op.wordCount) (op.wordCount - old)).register
        policy (.ofChunk p op.words),
        m.ahead sec xs ++ .ofChunk p op.words :: m.behind sec (p + op.wordCount) zs) := by
  -- first what stands behind moves, and then the instruction enters the gap
  have hmove : Change (x, m.ahead sec xs ++ m.behind sec (p + old) zs) _ :=
    .move (p + min old op.wordCount) (old - op.wordCount) (op.wordCount - old)
      (fun j hj => by have := hm.ahead_lt j hj; omega)
      (fun j hj => by have := hm.le_behind j hj; omega)
  have hids' : definedIds (m.ahead sec xs ++ m.behind sec (p + op.wordCount) zs) =
      definedIds (m.ahead sec xs ++ m.behind sec (p + old) zs) := by
    rw [definedIds_append, definedIds_append, ← m.behind_shifted sec p old op.wordCount,
      definedIds_shifted]
  rw [m.behind_shifted] at hmove
  have henter := Change.enter (i := .ofChunk p op.words) policy
    (x := x.relocate (p + min old op.wordCount) (old - op.wordCount) (op.wordCount - old))
    (k := m.behind sec (p + op.wordCount) zs) hm.ahead_lt
    (hm.lt_behind (Nat.succ_pos op.operands.length))
  refine .tail (.single ⟨hmove, .inl hids, .inl ?_⟩) ⟨henter, .inl ?_, .inr (.refl _)⟩
  · rw [hids']
    exact hids
  · rw [hids']
    exact hids

theorem Sound.tracks_inserted (h : s.Sound m) (hs : s.Editable) (hm : m.Splits sec p xs [] zs)
    (hf : ∀ d ∈ [op.words], Fits sec d) : s.Tracks (s.inserted sec p op) := by
  have h' := h.inserted hs hm hf
  have hlive := h.live_of_splits hs.2 hm
  have hlive' := h'.live_of_splits hs.2 (hm.splits_exchange hf)
  rw [hm.ahead_exchange hf, hm.behind_exchange hf, List.flatten_singleton] at hlive'
  have hc := changes_exchange hm s.index s.policy 0 op s.liveIds
    (by rw [liveIds, hlive]; exact .refl _)
  rw [Tracks, tracked, tracked, liveIds, liveIds, hlive, hlive']
  rw [liveIds, hlive] at hc
  exact hc

theorem Sound.liveIds_inserted (h : s.Sound m) (hs : s.Editable) (hm : m.Splits sec p xs [] zs)
    (hf : ∀ d ∈ [op.words], Fits sec d) :
    List.Sublist s.liveIds (s.inserted sec p op).liveIds := by
  have hlive := h.live_of_splits hs.2 hm
  have hlive' := (h.inserted hs hm hf).live_of_splits hs.2 (hm.splits_exchange hf)
  rw [hm.ahead_exchange hf, hm.behind_exchange hf, List.flatten_singleton] at hlive'
  have hbehind := m.behind_shifted sec p 0 op.words.length zs
  rw [liveIds, liveIds, hlive, hlive']
  simp only [definedIds_append]
  refine List.Sublist.append_left ?_ _
  rw [place_nil, List.flatten_nil, List.length_nil, ← hbehind, definedIds_shifted]
  exact List.sublist_append_right ..

theorem Sound.tracks_opened (h : s.Sound m) (hs : s.Editable) (hm : m.Splits sec p xs [c] zs) :
    s.Tracks (s.opened (.ofChunk p c)) := by
  have hlive := h.live_of_splits hs.2 hm
  have hc : IsChunk c := hm.isChunk (List.mem_singleton_self c)
  have hlive' := (h.opened hm).live_of_bracket rfl hm
  have hleave : Change (s.index, _) _ := .leave (i := .ofChunk p c) hm.ahead_lt
    (hm.lt_behind hc.pos)
  rw [Tracks, tracked, tracked, liveIds, liveIds, hlive, hlive', List.flatten_singleton]
  exact Changes.single hleave

theorem Sound.liveIds_opened (h : s.Sound m) (hs : s.Editable) (hm : m.Splits sec p xs [c] zs) :
    List.Sublist (s.opened (.ofChunk p c)).liveIds s.liveIds := by
  rw [liveIds, liveIds, h.live_of_splits hs.2 hm, (h.opened hm).live_of_bracket rfl hm,
    List.flatten_singleton]
  exact ((List.sublist_cons_self _ _).append_left _).filterMap _

/-- Operands in the open bracket may change without any live instruction doing so. -/
theorem Sound.live_overwritten (h : s.Sound m) {b : Bracket} {new : List Word}
    (hb : s.bracket = some b) (hn : new.length = b.wordCount - 1) :
    (∃ m', (s.overwritten (b.offset + 1) (b.wordCount - 1) new).Sound m') ∧
      (s.overwritten (b.offset + 1) (b.wordCount - 1) new).live = s.live := by
  obtain ⟨sec, xs, w, us, zs, hm, hl⟩ := h.split_of_bracket hb
  have hv : new.length = us.length := by rw [hn, hl, Nat.add_sub_cancel]
  have hf := hm.fits_operands hv
  have h' := h.overwritten hb hm hl hf hv
  refine ⟨⟨_, h'⟩, ?_⟩
  rw [h.live_of_bracket hb hm, h'.live_of_bracket hb (hm.splits_exchange hf), hm.ahead_exchange hf,
    hm.behind_exchange hf, List.length_cons, List.length_cons, hv]

theorem Sound.tracks_closed (h : s.Sound m) {b : Bracket} {i : Instruction}
    (hb : s.bracket = some b) (hi : s.instruction? b.offset = some i) : s.Tracks (s.closed i) := by
  obtain ⟨sec, xs, w, us, zs, hm, -⟩ := h.split_of_bracket hb
  obtain rfl := Option.some.inj ((h.shows.instruction?_of_splits hm).symm.trans hi)
  have hlive := h.live_of_bracket hb hm
  have hlive' := (h.closed (.ofChunk b.offset (w :: us))).live_of_splits rfl hm
  have henter : Change (s.index, _) _ := .enter (i := .ofChunk b.offset (w :: us)) s.policy
    hm.ahead_lt (hm.lt_behind (Nat.succ_pos us.length))
  rw [Tracks, tracked, tracked, liveIds, liveIds, hlive, hlive', List.flatten_singleton]
  exact Changes.single henter

/-- Words that do nothing tell nothing. -/
theorem told_place_nops (p n : Nat) : told (place p (List.replicate n [Edit.nopWord])) = [] := by
  induction n generalizing p with
  | zero => rfl
  | succ n ih =>
    have hf : Fact.ofInstruction? (.ofChunk p [Edit.nopWord]) = none := by
      have hop : (Instruction.ofChunk p [Edit.nopWord]).opcode? = some .opNop := opcode?_nopWord
      rw [Fact.ofInstruction?, hop]
      rfl
    rw [List.replicate_succ, place_cons, told_cons, hf]
    exact ih _

theorem definedIds_place_nops (p n : Nat) :
    definedIds (place p (List.replicate n [Edit.nopWord])) = [] := by
  induction n generalizing p with
  | zero => rfl
  | succ n ih =>
    have hid : (Instruction.ofChunk p [Edit.nopWord]).resultId? = none := by
      have hop : (Instruction.ofChunk p [Edit.nopWord]).opcode? = some .opNop := opcode?_nopWord
      have hres : Opcode.resultIndex? .opNop = none := by decide +kernel
      simp [Instruction.resultId?, hop, hres]
    rw [List.replicate_succ, place_cons, definedIds_cons, hid]
    exact ih _

theorem Sound.tracks_blanked (h : s.Sound m) (hs : s.Editable) (hm : m.Splits sec p xs [c] zs) :
    s.Tracks (s.blanked (.ofChunk p c)) := by
  have hf := fits_nops sec c.length
  have hc : IsChunk c := hm.isChunk (List.mem_singleton_self c)
  have hlive := h.live_of_splits hs.2 hm
  have hlive' := (h.blanked hs hm).live_of_splits hs.2 (hm.splits_exchange hf)
  rw [hm.ahead_exchange hf, hm.behind_exchange hf, flatten_replicate_singleton,
    List.length_replicate] at hlive'
  rw [List.flatten_singleton, place_cons, place_nil, List.singleton_append] at hlive
  have hleave : Change (s.index, _) _ := .leave (i := .ofChunk p c) hm.ahead_lt
    (hm.lt_behind hc.pos)
  have hpad := Change.pad (x := s.index.unregister (.ofChunk p c)) (m.ahead sec xs)
    (m.behind sec (p + c.length) zs) (told_place_nops p c.length) (definedIds_place_nops p c.length)
  rw [Tracks, tracked, tracked, liveIds, liveIds, hlive, hlive']
  refine .tail (.single ⟨hleave, .inl (.refl _), .inr ?_⟩) ⟨hpad, .inr ?_, .inr (.refl _)⟩
  all_goals
    simp only [definedIds_append, definedIds_place_nops, List.nil_append]
    exact .refl _

theorem Sound.tracks_replaced (h : s.Sound m) (hs : s.Editable) (hm : m.Splits sec p xs [c] zs)
    (hf : ∀ d ∈ [op.words], Fits sec d) : s.Tracks (s.replaced sec (.ofChunk p c) op) := by
  have hc : IsChunk c := hm.isChunk (List.mem_singleton_self c)
  have hlive := h.live_of_splits hs.2 hm
  have hlive' := (h.replaced hs hm hf).live_of_splits hs.2 (hm.splits_exchange hf)
  rw [hm.ahead_exchange hf, hm.behind_exchange hf, List.flatten_singleton] at hlive'
  rw [List.flatten_singleton, place_cons, place_nil, List.singleton_append] at hlive
  have hleave : Change (s.index, _) _ := .leave (i := .ofChunk p c) hm.ahead_lt
    (hm.lt_behind hc.pos)
  -- on the way no ids are defined but those of the instructions that stay
  have hsub : List.Sublist (definedIds (m.ahead sec xs ++ m.behind sec (p + c.length) zs))
      s.liveIds := by
    rw [liveIds, hlive]
    exact ((List.sublist_cons_self _ _).append_left _).filterMap _
  have hx := changes_exchange hm (s.index.unregister (.ofChunk p c)) s.policy c.length op
    s.liveIds hsub
  rw [Tracks, tracked, tracked, liveIds, liveIds, hlive, hlive']
  rw [liveIds, hlive] at hx hsub
  refine .head ⟨hleave, .inl (.refl _), .inl hsub⟩ ?_
  have hindex : (s.replaced sec (.ofChunk p c) op).index =
      ((s.index.unregister (.ofChunk p c)).relocate (p + min c.length op.wordCount)
        (c.length - op.wordCount) (op.wordCount - c.length)).register s.policy
          (.ofChunk p op.words) := by
    rw [← Instruction.ofChunk_wordCount p hc]
    rfl
  rw [hindex]
  exact hx

/-- Every move is a few changes of the index and of the instructions it is of. -/
theorem Sound.tracks (h : s.Sound m) (hst : Move s t) : s.Tracks t := by
  cases hst with
  | breach e => exact .of_eq rfl (h.live_congr (h.breached e) rfl)
  | raise hs hb => exact .of_eq rfl (h.live_congr (h.raised _) rfl)
  | insert hs hp ha hh hl hb =>
    obtain ⟨xs, zs, hm⟩ := h.shows.split_of_accepts hp ha
    exact h.tracks_inserted hs hm (fits_singleton (fits_words hh hl))
  | beginModify hs hp hi =>
    obtain ⟨sec, xs, c, zs, hm, rfl⟩ := h.shows.split_of_instruction? hp hi
    exact h.tracks_opened hs hm
  | operands hs hb hn => exact .of_eq rfl (h.live_overwritten hb hn).2
  | endModify hs hb hi => exact h.tracks_closed hb hi
  | remove hs hp hi hn =>
    obtain ⟨sec, xs, c, zs, hm, rfl⟩ := h.shows.split_of_instruction? hp hi
    exact h.tracks_blanked hs hm
  | replace hs hp hi hc hh hl =>
    obtain ⟨xs, c, zs, hm, rfl⟩ := h.shows.split_of_contains hp hc hi
    exact h.tracks_replaced hs hm (fits_singleton (fits_words hh hl))

end Session

end SpirvModule
