import SpirvModule.Proofs.Sweeping
import SpirvModule.Proofs.TakingBack

/-!
# Names that are removed

Removing the names of ids is a sweep: every word of a name becomes an instruction that does nothing.
It does not matter whether a name has a target or a text, or whether the text is valid. Afterwards no
id has a name, so removing the names once more changes nothing.

Results:
* `Edit.remove_answers`: when a removal cannot fail.
* `Sweep.stripping_edits`: the removal of one name.
* `Scenario.strip_removes_names`: the module that comes of it.
-/
namespace SpirvModule

/-- Whether an instruction gives a name to an id. -/
def Instruction.namesId (i : Instruction) : Bool := i.opcode? = some .opName

theorem Instruction.namesId_iff {i : Instruction} : i.namesId ↔ i.opcode? = some .opName := by
  simp [namesId]

theorem Instruction.home?_of_namesId {i : Instruction} (h : i.namesId) :
    i.home? = some .debugNames := by
  rw [home?, namesId_iff.mp h]
  rfl

theorem Instruction.lies_within {i : Instruction} {k : Nat}
    (h : (decide (i.offset ≤ k) && decide (k < i.stop)) = true) : i.offset ≤ k ∧ k < i.stop := by
  simpa using h

/-! ## One name -/

/-- Whatever is not blanked out already can be removed. -/
theorem Edit.remove_answers {s : Session} {p : Nat} {i : Instruction} (hs : s.Editable)
    (hi : s.instruction? p = some i) (hn : i.leading ≠ nopWord) :
    (remove p).Answers s fun _ t => t = s.blanked i := by
  unfold remove instructionAt
  refine (ensureNoBracket_answers hs).bind fun _ u hu => ?_
  subst hu
  rw [bind_assoc]
  refine answers_get ?_
  rw [hi, pure_bind, if_neg hn, Session.blanked, at?_offset hi]
  exact ⟨(), _, rfl, rfl⟩

namespace Sweep

/-- All words change. -/
theorem flatten_nops (p : Nat) {c : List Word} (hc : IsChunk c) :
    (List.replicate c.length [Edit.nopWord]).flatten = c.mapIdx fun k x =>
      if (Instruction.ofChunk p c).offset ≤ p + k && p + k < (Instruction.ofChunk p c).stop then
        Edit.nopWord else x := by
  rw [Session.flatten_replicate_singleton]
  refine List.ext_getElem (by simp) fun k hk _ => ?_
  rw [List.length_replicate] at hk
  simp [Instruction.ofChunk_stop p hc, hk]

/-- The sweep that removes the names of ids. -/
def stripping : Sweep where
  home := .debugNames
  picks := Instruction.namesId
  spots i k := i.offset ≤ k && k < i.stop
  becomes _ := Edit.nopWord
  rewrites c := List.replicate c.length [Edit.nopWord]
  picks_ofChunk _ _ _ := rfl
  picks_home _ h := Instruction.home?_of_namesId h
  spots_within _ _ h := Instruction.lies_within h
  flatten_rewrites p _ hc _ := flatten_nops p hc

theorem stripping_touches {i : Instruction} {k : Nat} :
    stripping.touches i k ↔ i.opcode? = some .opName ∧ i.offset ≤ k ∧ k < i.stop := by
  simp only [touches_iff, stripping, Instruction.namesId_iff, Bool.and_eq_true, decide_eq_true_eq]

/-- A name is removed as the sweep says. -/
theorem stripping_edits (s : Session) : stripping.Edits Edit.remove s := by
  intro u m p xs c zs hu hm hsplit hc hpick
  have hchunk : IsChunk c := hsplit.isChunk List.mem_cons_self
  have hname : (Instruction.ofChunk p c).opcode? = some .opName := Instruction.namesId_iff.mp hpick
  have hi := hm.shows.instruction?_of_splits hsplit
  have hplace : u.IsPlace p := hm.shows.isPlace_of_splits hsplit
  have hleading : (Instruction.ofChunk p c).leading ≠ Edit.nopWord := by
    intro heq
    rw [Instruction.opcode?, Instruction.number, heq, opcode?_nopWord] at hname
    cases hname
  obtain ⟨⟨⟩, t, hrun, rfl⟩ := Edit.remove_answers hu.editable hi hleading
  refine ⟨(), _, hrun, ?_, _, hm.blanked hu.editable hsplit, ?_⟩
  · have hperform : u.perform (.remove p) = (.ok .done, u.blanked (.ofChunk p c)) :=
      Edit.run_map hrun fun _ => Answer.done
    refine hu.next hm.shows hperform ?_ rfl rfl hu.editable (p := p) ?_ rfl rfl
    · rintro q hq
      obtain rfl := Option.some.inj hq
      exact hplace
    · have := hsplit.headerWords_add
      omega
  · rw [hsplit.exchange_contents]
    have hmakes : stripping.makes c = List.replicate c.length [Edit.nopWord] :=
      stripping.makes_picked hpick
    rw [hmakes]

end Sweep

/-! ## The scenario -/

namespace Sweep.Swept

variable {s t : Session}

/-- The words that change are those of the names. -/
theorem stripped_words (h : stripping.Swept s t) : t.words = s.words.mapIdx fun k x =>
    if ∃ i ∈ s.listing, i.opcode? = some .opName ∧ i.offset ≤ k ∧ k < i.stop then Edit.nopWord
    else x := by
  rw [h.words]
  simp only [stripping_touches]
  rfl

/-- No name is left. -/
theorem stripped_names (h : stripping.Swept s t) : ∀ i ∈ t.listing, i.opcode? ≠ some .opName := by
  intro i hi hname
  rw [h.listing, List.mem_flatMap] at hi
  obtain ⟨j, -, hi⟩ := hi
  have hmakes : stripping.makes j.words =
      if j.namesId then List.replicate j.words.length [Edit.nopWord] else [j.words] := rfl
  obtain ⟨front, c, back, hc, rfl⟩ := place_split hi
  have hmem : c ∈ front ++ c :: back := List.mem_append_right _ List.mem_cons_self
  rw [hmakes] at hc
  split at hc
  · obtain rfl : c = [Edit.nopWord] := List.eq_of_mem_replicate (hc ▸ hmem)
    exact absurd (opcode?_nopWord.symm.trans hname) (by decide)
  · rename_i hj
    obtain rfl : c = j.words := List.mem_singleton.mp (hc ▸ hmem)
    exact hj (Instruction.namesId_iff.mpr hname)

end Sweep.Swept

namespace Scenario

variable {s : Session}

/-- All names can be removed, and none is found afterwards. -/
theorem removeNames_passes (hs : s.Steady s) :
    removeNames.Passes s fun _ t => Sweep.stripping.Swept s t := by
  have hloop : ((nameInstructions s).forM fun n => Trial.edit (.remove n.1)).Passes s
      fun _ t => Sweep.stripping.Swept s t := by
    rw [nameInstructions, List.forM_eq_forM, List.forM_map]
    exact (Sweep.stripping_edits s).passes hs
  refine Trial.passes_get (hloop.bind fun _ t ht => Trial.passes_get ?_)
  refine (Trial.passes_forM (K := (· = t)) rfl fun n hn u hu => ?_).mono fun _ u hu => hu ▸ ht
  refine Trial.passes_ensure _ ?_ |>.mono fun _ v hv => hv.trans hu
  rw [Option.isNone_iff_eq_none, ht.steady.scans.findByName_none]
  intro i j hj hname
  rw [Instruction.nameOf?, if_neg fun h => ht.stripped_names j hj h.1] at hname
  cases hname

/-- The module that comes of removing the names, as the session it was made in leaves it. -/
theorem strip_ends {ws : List Word} (hs : Session.ofWords .never ws = .ok s) :
    ∃ t, Sweep.stripping.Swept s t ∧ run .stripNames (some ws) = (.ok t.words, none) :=
  onModule_eq hs (removeNames_passes (.ofWords hs)) fun _ ht => ht.steady.editable.1

/-- The scenario that removes names goes through for every module that opens. It changes the words of
the names, and the bound as opening does. What comes of it reads as a module, and is left as it is
if the names are removed again. -/
theorem strip_removes_names {ws : List Word} (hs : Session.ofWords .never ws = .ok s) :
    ∃ out, run .stripNames (some ws) = (.ok out, none) ∧
      out.length = ws.length ∧
      (out = (ws.set Session.boundWord s.bound).mapIdx fun k x =>
        if ∃ i ∈ s.listing, i.opcode? = some .opName ∧ i.offset ≤ k ∧ k < i.stop then Edit.nopWord
        else x) ∧
      (∃ v, ModuleView.parse out = .ok v) ∧
      run .stripNames (some out) = (.ok out, none) := by
  obtain ⟨t, ht, hrun⟩ := strip_ends hs
  obtain ⟨u, hu, huw, -, hul⟩ := ht.steady.reached.reopens .never
  have hout := ht.stripped_words
  rw [Session.ofWords_words hs] at hout
  refine ⟨t.words, hrun, ?_, hout, ?_, ?_⟩
  · rw [hout, List.length_mapIdx, List.length_set]
  · obtain ⟨v, fresh, hv, -⟩ := Session.ofWords_ok hu
    exact ⟨v, hv⟩
  · -- there is no name left to be removed
    obtain ⟨v, hv, hrun'⟩ := strip_ends hu
    have hsame : v.words = t.words := by
      have hnone (k : Nat) : ¬ ∃ i ∈ u.listing, i.opcode? = some .opName ∧ i.offset ≤ k ∧
          k < i.stop := by
        rintro ⟨i, hi, hname, -⟩
        exact ht.stripped_names i (hul ▸ hi) hname
      rw [hv.stripped_words, ← huw]
      refine List.ext_getElem? fun k => ?_
      simp [hnone]
    rw [hrun', hsame]

/-- Names without a target, without a text, with bytes that are no text, and with the same text, and
the name of a member. -/
def oddNames : List Word :=
  [magic, Version.word ⟨1, 3⟩, 0, 0, 0] ++
    [⟨.opName, [0, 0x61]⟩, ⟨.opName, [1]⟩, ⟨.opName, [1, 0xFF]⟩, ⟨.opName, [1, 0x61]⟩,
      ⟨.opMemberName, [1, 0, 0x61]⟩, ⟨.opName, [1, 0x61]⟩,
      (⟨.opTypeStruct, [1]⟩ : Operation)].flatMap Operation.words

theorem strip_removes_names_odd :
    ∃ s, Session.ofWords .never oddNames = .ok s ∧ (nameInstructions s).length = 5 ∧
      ∃ out, run .stripNames (some oddNames) = (.ok out, none) ∧ out.length = 25 ∧
        run .stripNames (some out) = (.ok out, none) := by
  obtain ⟨s, hs, hchecked⟩ : ∃ s, Session.ofWords .never oddNames = .ok s ∧
      decide ((nameInstructions s).length = 5) := Session.opens_of_any (by decide +kernel)
  obtain ⟨out, hrun, hlen, -, -, hagain⟩ := strip_removes_names hs
  exact ⟨s, hs, of_decide_eq_true hchecked, out, hrun, hlen.trans (by decide), hagain⟩

end Scenario

end SpirvModule
