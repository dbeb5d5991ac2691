import SpirvModule.Proofs.Commuting
import SpirvModule.Proofs.ModuleGrammar

/-!
# Replacements that are taken back

An instruction that was replaced can be put back. The words that came are then as many as
those that had gone, so that every stop of the layout moves there and back, and what the
index knows of the instructions is what it knew before.

Results:
* `Layout.shift_shift`: two shifts of a section are one.
* `Sound.replaced_back`: an instruction that is put in the place of its replacement.
* `Reached.replacement_taken_back`: the original operation can take the place of any that
  replaced it, and leaves words, bound, layout and ledger as they were.
-/
namespace SpirvModule

theorem Layout.shift_shift (l : Layout) (sec : Section) (d e : Int) :
    (l.shift sec d).shift sec e = l.shift sec (d + e) := by
  refine Layout.ext_bounds (fun u => ?_) fun u => ?_
  · rw [start_shift, start_shift, start_shift]
    split <;> omega
  · rw [stop_shift, stop_shift, stop_shift]
    split <;> omega

theorem Word.lead_count_number (w : Word) : lead (count w) (number w) = w := by
  refine UInt32.toNat_inj.mp ?_
  have hlt := w.toNat_lt
  rw [toNat_lead, count, number]
  omega

/-- An instruction whose opcode is known is written as it was. -/
theorem Operation.words_of_chunk {p : Nat} {c : List Word} {op : Operation} (hc : IsChunk c)
    (hop : (Instruction.ofChunk p c).toOperation? = some op) : op.words = c := by
  obtain ⟨o, ho, rfl⟩ := Option.map_eq_some_iff.mp hop
  cases c with
  | nil => exact hc.elim
  | cons w us =>
    have hcount : Word.count w = us.length + 1 := hc
    have hnumber : o.number = Word.number w := Opcode.ofNumber?_eq_some.mp ho
    show Word.lead (us.length + 1) o.number :: us = w :: us
    rw [hnumber, ← hcount, Word.lead_count_number]

/-- An operation that stands in a section may stand there. -/
theorem fits_of_toOperation? {sec : Section} {p : Nat} {c : List Word} {op : Operation}
    (hc : Fits sec c) (hop : (Instruction.ofChunk p c).toOperation? = some op) :
    op.opcode.home?.all (· = sec) ∧ op.wordCount ≤ Edit.maxWords := by
  have hwords := Operation.words_of_chunk hc.1 hop
  refine ⟨hc.2 _ (hwords ▸ op.opcode?_words), ?_⟩
  have hcount : Word.count (Word.lead op.wordCount op.opcode.number) = op.wordCount := by
    have hchunk := hc.1
    rw [← hwords] at hchunk
    exact hchunk
  rw [← hcount, Word.count, Edit.maxWords]
  have hlt := (Word.lead op.wordCount op.opcode.number).toNat_lt
  omega

/-- Chunks that are exchanged for what they had replaced leave the outline as it was. -/
theorem Outline.Splits.exchange_exchange {m : Outline} {sec : Section} {p : Nat}
    {xs ys zs new : List (List Word)} (hm : m.Splits sec p xs ys zs) (hn : ∀ c ∈ new, Fits sec c)
    (hy : ∀ c ∈ ys, Fits sec c) : (hm.splits_exchange hn).exchange hy = m := by
  refine Outline.ext_contents ?_
  rw [Splits.exchange_contents, hm.exchange_contents, Function.update_idem, ← hm.contents_eq,
    Function.update_eq_self]

namespace Session

/-- Whether `t` has everything that `s` has, but for the places of ids and the types. -/
structure Recovers (s t : Session) : Prop where
  words : t.words = s.words
  fresh : t.fresh = s.fresh
  layout : t.layout = s.layout
  ledger : t.index.ledger = s.index.ledger
  frame : t.frame = s.frame

variable {s : Session} {m : Outline} {sec : Section} {p : Nat} {op old : Operation}
  {c : List Word} {xs zs : List (List Word)}

/-- Where a chunk of the outline begins, a client may name the offset. -/
theorem Shows.isPlace_of_splits (h : s.Shows m) (hm : m.Splits sec p xs [c] zs) : s.IsPlace p := by
  refine ⟨sec, sec.mem_all, .inr (.inr ⟨.ofChunk p c, ?_, rfl⟩)⟩
  rw [h.instructions_eq, hm.contents_eq, place_append, ← hm.offset_eq]
  exact List.mem_append_right _ (List.mem_cons_self ..)

/-- A chunk of a section lies in it. -/
theorem Shows.containing_of_splits (h : s.Shows m) (hm : m.Splits sec p xs [c] zs) :
    s.layout.containing p = some sec := by
  have hpos := (hm.isChunk (List.mem_singleton_self c)).pos
  rw [h.containing_eq, h.contains_iff, Contents.stop, hm.contents_eq, hm.offset_eq]
  simp only [List.flatten_append, List.flatten_singleton, List.length_append]
  omega

/-- Words and layout do not tell whether an instruction was replaced and put back. -/
theorem Sound.replaced_back (h : s.Sound m) (hs : s.Editable)
    (hm : m.Splits sec p xs [old.words] zs) (hf : ∀ d ∈ [op.words], Fits sec d) :
    let t := s.replaced sec (.ofChunk p old.words) op
    let u := t.replaced sec (.ofChunk p op.words) old
    u.Sound m ∧ u.words = s.words ∧ u.layout = s.layout := by
  have hfits : ∀ d ∈ [old.words], Fits sec d := fun d hd =>
    m.fits sec d (by simp [hm.contents_eq, List.mem_singleton.mp hd])
  have hback := (h.replaced hs hm hf).replaced hs (hm.splits_exchange hf) hfits
  rw [hm.exchange_exchange hf hfits] at hback
  refine ⟨hback, ?_, ?_⟩
  · -- the words in the middle are exchanged twice, and those around them stay
    have hp := h.shows.length_until hm
    have hw := h.shows.words_of_splits hm
    rw [List.flatten_singleton] at hw
    show replaceWords (replaceWords s.words p old.words.length op.words) p op.words.length
      old.words = s.words
    rw [hw, ← hp, replaceWords_append, replaceWords_append]
  · show (s.layout.shift sec ((op.wordCount : Int) - old.wordCount)).shift sec
      ((old.wordCount : Int) - op.wordCount) = s.layout
    have hsum : (op.wordCount : Int) - old.wordCount + (old.wordCount - op.wordCount) = 0 := by
      omega
    rw [Layout.shift_shift, hsum, Layout.shift_zero]

end Session

/-- While ids are distinct, the live instructions tell where ids are defined. -/
theorem Reached.locate?_congr {s t : Session} (hs : Reached Session.IdsDistinct s)
    (ht : Reached Session.IdsDistinct t) (hlive : t.live = s.live) (id : Id) :
    t.locate? id = s.locate? id := by
  have locates {a b : Session} (ha : Reached Session.IdsDistinct a)
      (hb : Reached Session.IdsDistinct b) (hab : b.live = a.live) {p : Nat}
      (hp : a.locate? id = some p) : b.locate? id = some p := by
    obtain ⟨i, hi, rfl, hid⟩ := ha.reachable.reflects.exists_of_definition id p hp
    exact hb.locates i (hab ▸ hi) id hid
  exact Option.ext fun p => ⟨locates ht hs hlive.symm, locates hs ht hlive⟩

/-- A replacement can be taken back: the operation that the instruction at `p` was can take the
place of any that replaced it. Words, bound, layout and all that the index has been told are as
before then, and so are the places of ids if no two instructions ever define the same one. -/
theorem Reached.replacement_taken_back {s t : Session} (h : Reachable s) {p : Nat}
    {i : Instruction} {old op : Operation} {a : Answer} (hp : s.IsPlace p)
    (hi : s.instruction? p = some i) (hold : i.toOperation? = some old)
    (hrun : s.perform (.replace p op) = (.ok a, t)) :
    ∃ u, t.perform (.replace p old) = (.ok (.defined old.resultId?), u) ∧ s.Recovers u ∧
      (Reached Session.IdsDistinct s → t.IdsDistinct → ∀ id, u.locate? id = s.locate? id) := by
  obtain ⟨m, hsound⟩ := h.sound
  have hproper : (Command.replace p op).Proper s := fun q hq => Option.mem_some.mp hq ▸ hp
  cases perform_outcome hsound hproper hrun with
  | adds hl => cases hl
  | @replace _ _ sec c xs zs hs hsec hh hm hf =>
    obtain rfl := Option.some.inj ((hsound.shows.instruction?_of_splits hm).symm.trans hi)
    have hfc : Fits sec c := m.fits sec c (by simp [hm.contents_eq])
    obtain ⟨hhome, hlen⟩ := fits_of_toOperation? hfc hold
    obtain rfl := Operation.words_of_chunk hfc.1 hold
    set t := s.replaced sec (.ofChunk p old.words) op with ht
    -- the replacement stands where the instruction stood, in the same section
    have hst : t.Sound (hm.exchange hf) := hsound.replaced hs hm hf
    have hmt := hm.splits_exchange hf
    obtain ⟨b, u, hback, hu, rfl⟩ := Edit.replace_answers (s := t) hs
      (hst.shows.containing_of_splits hmt) hhome hlen (hst.shows.instruction?_of_splits hmt)
    have hperform : t.perform (.replace p old) = (.ok (.defined old.resultId?), u) :=
      Edit.run_map hback _
    obtain ⟨hsu, hwords, hlayout⟩ := hsound.replaced_back hs hm hf
    rw [← ht, ← hu] at hsu hwords hlayout
    have hpt : (Command.replace p old).Proper t := fun q hq =>
      Option.mem_some.mp hq ▸ hst.shows.isPlace_of_splits hmt
    have hlive : u.live = s.live := hsound.live_congr hsu (by rw [hu]; rfl)
    have run {P : Session → Prop} (hs : Reached P s) (ht : P t) (hu : P u) : Reached P u :=
      (hs.next hrun hproper ht).next hperform hpt hu
    refine ⟨u, hperform, ⟨hwords, by rw [hu]; rfl, hlayout, ?_, by rw [hu]; rfl⟩, ?_⟩
    · have hu : Reachable u := run (P := fun _ => True) h trivial trivial
      exact (hlive ▸ hu.reflects).ledger_eq h.reflects
    · intro hd hdt id
      have hdu : u.IdsDistinct := by
        rw [Session.IdsDistinct, Session.liveIds, hlive]
        exact hd.holds
      exact hd.locate?_congr (run hd hdt hdu) hlive id

/-- A session with a name and a type, the last instruction of all. -/
def namedBool : Session :=
  (Session.create .never ⟨1, 3⟩ 0).performAll [.setName .one "flag", .declareType (.scalar .bool)]

/-- The type gives way to one of more words, and comes back. -/
theorem replacement_taken_back_namedBool :
    ∃ u, (namedBool.perform (.replace 9 ⟨.opTypeInt, [1, 32, 0]⟩)).2.perform
        (.replace 9 ⟨.opTypeBool, [1]⟩) = (.ok (.defined (some .one)), u) ∧
      namedBool.Recovers u ∧ ∀ id, u.locate? id = namedBool.locate? id := by
  have h : Reached Session.IdsDistinct namedBool :=
    Reached.performAll (.create _ _ _ (by decide)) (by decide +kernel)
  have hi : namedBool.instruction? 9 = some ⟨9, Word.lead 2 Opcode.opTypeBool.number, [1]⟩ := by
    decide +kernel
  have hold : (Instruction.mk 9 (Word.lead 2 Opcode.opTypeBool.number) [1]).toOperation? =
      some ⟨.opTypeBool, [1]⟩ := by
    decide +kernel
  have hrun : namedBool.perform (.replace 9 ⟨.opTypeInt, [1, 32, 0]⟩) =
      (.ok (.defined (some .one)), _) := Prod.ext (by decide +kernel) rfl
  obtain ⟨u, hperform, hrecovers, hlocate⟩ :=
    h.reachable.replacement_taken_back (by decide +kernel) hi hold hrun
  have hid : (Operation.mk .opTypeBool [1]).resultId? = some .one := by decide +kernel
  rw [hid] at hperform
  exact ⟨u, hperform, hrecovers, hlocate h (by decide +kernel)⟩

end SpirvModule
