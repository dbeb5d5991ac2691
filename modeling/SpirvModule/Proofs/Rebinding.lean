import Mathlib.Data.List.Sort
import SpirvModule.Proofs.Sweeping
import SpirvModule.Proofs.TakingBack

/-!
# Descriptor sets that are moved

Moving the descriptor sets is a sweep: the third operand of each decoration with a descriptor set
grows by the offset, and nothing else changes but the bound, which opening sets. Where a resource
has several decorations all of them move, and one with a descriptor set and no slot moves as well,
so the first set of each resource moves and its slot stays. Moves add up.

* `Instruction.decoratesSet`, `Instruction.rebound`: what moves, and where it moves to.
* `Session.SetsFit`: all descriptor sets there are can be moved so far up.

Results:
* `Sweep.rebinding_edits`: the edit of one decoration.
* `Scans.rebound_slot`, `Scans.rebound_bindings`: what look-ups find after a move.
* `Scenario.rebind_moves_sets`: the module that comes of a move.
-/
namespace SpirvModule

namespace Instruction

/-- Whether an instruction decorates something with a descriptor set. -/
def decoratesSet (i : Instruction) : Bool :=
  i.opcode? = some .opDecorate && i.operands[1]? = some Decoration.descriptorSet.value

/-- An instruction after all descriptor sets moved `offset` up. -/
def rebound (offset : Word) (i : Instruction) : Instruction :=
  if i.decoratesSet then { i with operands := i.operands.modify 2 (· + offset) } else i

theorem decoratesSet_iff {i : Instruction} : i.decoratesSet ↔
    i.opcode? = some .opDecorate ∧ i.operands[1]? = some Decoration.descriptorSet.value := by
  simp [decoratesSet]

theorem home?_of_decoratesSet {i : Instruction} (h : i.decoratesSet) :
    i.home? = some .annotations := by
  rw [home?, (decoratesSet_iff.mp h).1]
  rfl

theorem value_within {i : Instruction} {k : Nat}
    (h : (decide (k = i.offset + 3) && decide (k < i.stop)) = true) : i.offset ≤ k ∧ k < i.stop := by
  simp only [Bool.and_eq_true, decide_eq_true_eq] at h
  omega

variable (offset : Word) (i : Instruction)

@[simp] theorem rebound_offset : (i.rebound offset).offset = i.offset := by
  unfold rebound
  split <;> rfl

theorem rebound_opcode? : (i.rebound offset).opcode? = i.opcode? := by
  unfold rebound
  split <;> rfl

theorem rebound_operands {k : Nat} (hk : k ≠ 2) :
    (i.rebound offset).operands[k]? = i.operands[k]? := by
  unfold rebound
  split
  · simp [Ne.symm hk]
  · rfl

theorem rebound_set (h : i.decoratesSet) :
    (i.rebound offset).operands[2]? = i.operands[2]?.map (· + offset) := by
  rw [rebound, if_pos h]
  simp

theorem rebound_decoratesSet : (i.rebound offset).decoratesSet = i.decoratesSet := by
  simp only [decoratesSet, rebound_opcode?, rebound_operands offset i (by decide : 1 ≠ 2)]

/-- A decoration with a descriptor set tells no slot. -/
theorem rebound_valueOf_binding (t : Id) :
    (i.rebound offset).valueOf? .binding t = i.valueOf? .binding t := by
  by_cases h : i.decoratesSet
  · have hne : Decoration.descriptorSet.value ≠ Decoration.binding.value := by decide
    have hset := (decoratesSet_iff.mp h).2
    have hset' := hset
    rw [← rebound_operands offset i (by decide : 1 ≠ 2)] at hset'
    rw [valueOf?, valueOf?, if_neg, if_neg]
    · rintro ⟨-, -, hslot⟩
      exact hne (Option.some.inj (hset.symm.trans hslot))
    · rintro ⟨-, -, hslot⟩
      exact hne (Option.some.inj (hset'.symm.trans hslot))
  · rw [rebound, if_neg h]

theorem rebound_valueOf_set (t : Id) : (i.rebound offset).valueOf? .descriptorSet t =
    (i.valueOf? .descriptorSet t).map (· + offset) := by
  have hid : (i.rebound offset).idOperand? 0 = i.idOperand? 0 := by
    rw [idOperand?, idOperand?, rebound_operands offset i (by decide : 0 ≠ 2)]
  rw [valueOf?, valueOf?, rebound_opcode?, hid, rebound_operands offset i (by decide : 1 ≠ 2)]
  split
  · rename_i h
    exact rebound_set offset i (decoratesSet_iff.mpr ⟨h.1, h.2.2⟩)
  · rfl

theorem findSome?_rebound_binding (l : List Instruction) (t : Id) :
    (l.map (rebound offset)).findSome? (valueOf? .binding t) =
      l.findSome? (valueOf? .binding t) := by
  rw [List.findSome?_map]
  exact congrArg (l.findSome? ·) (funext fun i => rebound_valueOf_binding offset i t)

theorem findSome?_rebound_set (l : List Instruction) (t : Id) :
    (l.map (rebound offset)).findSome? (valueOf? .descriptorSet t) =
      (l.findSome? (valueOf? .descriptorSet t)).map (· + offset) := by
  rw [List.findSome?_map, List.map_findSome?]
  exact congrArg (l.findSome? ·) (funext fun i => rebound_valueOf_set offset i t)

end Instruction

/-! ## One decoration -/

namespace Session

/-- Whether all decorations with a descriptor set name one that can be moved `n` up. -/
def SetsFit (s : Session) (n : Nat) : Prop := ∀ i ∈ s.listing, i.decoratesSet →
  ∃ v, i.operands[2]? = some v ∧ v.toNat + n < UInt32.size

instance (s : Session) (n : Nat) : Decidable (s.SetsFit n) :=
  decidable_of_iff (∀ i ∈ s.listing, i.decoratesSet →
      i.operands[2]?.any fun v => v.toNat + n < UInt32.size) <| by
    simp [SetsFit, Option.any_eq_true]

end Session

/-- A value that can be moved is moved. -/
theorem OperandChange.apply_demand_add? {us : List Word} {v offset : Word} (hv : us[2]? = some v)
    (hlt : v.toNat + offset.toNat < UInt32.size) :
    (demand 2 (Scenario.add? offset)).apply us = some (us.modify 2 (· + offset)) := by
  have hsum : Scenario.add? offset v = some (v + offset) := by
    rw [Scenario.add?, if_pos (by omega), UInt32.add_comm]
  simp only [demand, hv, Option.bind_eq_bind, Option.bind_some, hsum, Option.map_some,
    Option.some.injEq]
  refine List.ext_getElem? fun k => ?_
  rw [List.getElem?_set, List.getElem?_modify]
  grind

/-- A decoration defines no id, whatever becomes of its operands. -/
theorem Session.changedId?_decoration {u : Session} {p : Nat} {i : Instruction}
    {change : OperandChange} {vs : List Word} (hi : u.instruction? p = some i)
    (hop : i.opcode? = some .opDecorate) (hnew : change.apply i.operands = some vs) :
    u.changedId? p change = none := by
  have hchanged : u.changedId? p change = Instruction.resultId? { i with operands := vs } := by
    rw [changedId?, hi, Option.bind_eq_bind, Option.bind_some]
    exact congrArg (· >>= _) hnew
  have hop' : Instruction.opcode? { i with operands := vs } = some .opDecorate := hop
  rw [hchanged, Instruction.resultId?, hop']
  rfl

namespace Sweep

theorem modify_eq_mapIdx (n : Nat) (f : Word → Word) (l : List Word) :
    l.modify n f = l.mapIdx fun k x => if k = n then f x else x := by
  refine List.ext_getElem? fun k => ?_
  rw [List.getElem?_modify, List.getElem?_mapIdx]
  simp only [eq_comm (a := n)]
  rfl

/-- The third operand is the word that changes. -/
theorem flatten_modify (offset : Word) (p : Nat) {c : List Word} (hc : IsChunk c) :
    [c.modify 3 (· + offset)].flatten = c.mapIdx fun k x =>
      if p + k = (Instruction.ofChunk p c).offset + 3 && p + k < (Instruction.ofChunk p c).stop then
        x + offset else x := by
  rw [List.flatten_singleton, modify_eq_mapIdx, List.mapIdx_eq_mapIdx_iff]
  intro k hk
  simp [Instruction.ofChunk_stop p hc, hk]

/-- The sweep that moves descriptor sets. -/
def rebinding (offset : Word) : Sweep where
  home := .annotations
  picks := Instruction.decoratesSet
  spots i k := k = i.offset + 3 && k < i.stop
  becomes x := x + offset
  rewrites c := [c.modify 3 (· + offset)]
  picks_ofChunk _ _ _ := rfl
  picks_home _ h := Instruction.home?_of_decoratesSet h
  spots_within _ _ h := Instruction.value_within h
  flatten_rewrites p _ hc _ := flatten_modify offset p hc

theorem rebinding_touches {offset : Word} {i : Instruction} {k : Nat} :
    (rebinding offset).touches i k ↔ i.decoratesSet ∧ k = i.offset + 3 ∧ k < i.stop := by
  simp only [touches_iff, rebinding, Bool.and_eq_true, decide_eq_true_eq]

/-- A decoration whose descriptor set can be moved is edited as the sweep says. -/
theorem rebinding_edits {s : Session} {offset : Word} (hfit : s.SetsFit offset.toNat) :
    (rebinding offset).Edits (fun p => Edit.modifyOperands p (.demand 2 (Scenario.add? offset)))
      s := by
  intro u m p xs c zs hu hm hsplit hc hpick
  have hset : (Instruction.ofChunk p c).decoratesSet := hpick
  cases c with
  | nil => exact (hsplit.isChunk List.mem_cons_self).elim
  | cons w us =>
    -- the decoration stands in the module as it was, so its value can be moved
    obtain ⟨v, hv, hlt⟩ : ∃ v, us[2]? = some v ∧ v.toNat + offset.toNat < UInt32.size := by
      obtain ⟨i, hi, hwords⟩ := List.mem_map.mp hc
      obtain ⟨rfl, rfl⟩ := List.cons.inj hwords
      exact hfit i (List.mem_flatMap.mpr ⟨_, Section.mem_all _, hi⟩) hset
    have hnew := OperandChange.apply_demand_add? hv hlt
    have hlen : (us.modify 2 (· + offset)).length = us.length := List.length_modify ..
    have hi := hm.shows.instruction?_of_splits hsplit
    have hplace : u.IsPlace p := hm.shows.isPlace_of_splits hsplit
    have hmodified := hm.modified hsplit (hsplit.fits_operands hlen) hlen
    obtain ⟨⟨⟩, t, hrun, rfl⟩ := Edit.modifyOperands_answers hm hu.editable hplace hi hnew
    refine ⟨(), _, hrun, ?_, _, hmodified, ?_⟩
    · have hperform : u.perform (.modifyOperands p (.demand 2 (Scenario.add? offset))) =
          (.ok .done, u.modified (.ofChunk p (w :: us)) (us.modify 2 (· + offset))) :=
        Edit.run_map hrun fun _ => Answer.done
      refine hu.next hm.shows hperform ?_ rfl ?_ ⟨hu.editable.1, rfl⟩ (p := p + 1) ?_ rfl rfl
      · rintro q hq
        obtain rfl := Option.some.inj hq
        exact hplace
      · exact Session.changedId?_decoration hi (Instruction.decoratesSet_iff.mp hset).1 hnew
      · have := hsplit.headerWords_add
        omega
    · rw [hsplit.exchange_contents]
      have hmakes : (rebinding offset).makes (w :: us) = [w :: us.modify 2 (· + offset)] :=
        (rebinding offset).makes_picked hpick
      rw [hmakes]

end Sweep

/-! ## Look-ups -/

namespace Session

variable {s t : Session} {offset : Word}

namespace Scans

variable {l : List Instruction} (hs : s.Scans l) (ht : t.Scans (l.map (.rebound offset)))

include hs

/-- A resource that has a descriptor set has that of one of the decorations. -/
theorem exists_set {i : Id} {b : Binding} (h : (i, b) ∈ s.bindings) :
    l.findSome? (·.valueOf? .descriptorSet i) = some b.set := by
  obtain ⟨rfl, hset, -⟩ := (hs.mem_bindings i b).mp h
  obtain ⟨v, hv⟩ := Option.isSome_iff_exists.mp (List.findSome?_isSome_iff.mpr hset)
  rw [hs.binding, hv]
  rfl

/-- So it can be moved as far as all decorations can. -/
theorem set_fits {n : Nat} (hfit : ∀ i ∈ l, i.decoratesSet →
      ∃ v, i.operands[2]? = some v ∧ v.toNat + n < UInt32.size) {i : Id} {b : Binding}
    (h : (i, b) ∈ s.bindings) : b.set.toNat + n < UInt32.size := by
  obtain ⟨j, hj, hvalue⟩ := List.exists_of_findSome?_eq_some (hs.exists_set h)
  rw [Instruction.valueOf?, Option.ite_none_right_eq_some] at hvalue
  obtain ⟨⟨hop, -, hset⟩, hvalue⟩ := hvalue
  obtain ⟨v, hv, hlt⟩ := hfit j hj (Instruction.decoratesSet_iff.mpr ⟨hop, hset⟩)
  obtain rfl := Option.some.inj (hv.symm.trans hvalue)
  exact hlt

include ht

theorem rebound_slot (i : Id) : (t.binding i).slot = (s.binding i).slot := by
  rw [ht.binding, hs.binding]
  exact congrArg (·.getD 0xFFFFFFFF) (Instruction.findSome?_rebound_binding offset l i)

theorem rebound_binding {i : Id} {b : Binding} (h : (i, b) ∈ s.bindings) :
    t.binding i = ⟨b.set + offset, b.slot⟩ := by
  have hset : (t.binding i).set = b.set + offset := by
    have hfound := Instruction.findSome?_rebound_set offset l i
    rw [hs.exists_set h] at hfound
    rw [ht.binding]
    exact congrArg (·.getD 0) hfound
  have hslot := hs.rebound_slot ht i
  rw [← ((hs.mem_bindings i b).mp h).1] at hslot
  rw [← hset, ← hslot]

/-- The resources with both parts are the same ones. -/
theorem rebound_bindings :
    t.bindings = s.bindings.map fun e => (e.1, ⟨e.2.set + offset, e.2.slot⟩) := by
  have hmem (i : Id) (b : Binding) : (i, b) ∈ t.bindings ↔
      ∃ b', (i, b') ∈ s.bindings ∧ b = ⟨b'.set + offset, b'.slot⟩ := by
    have hset := Instruction.findSome?_rebound_set offset l i
    have hslot := Instruction.findSome?_rebound_binding offset l i
    have hboth : (i, b) ∈ t.bindings ↔ b = t.binding i ∧ (i, s.binding i) ∈ s.bindings := by
      rw [ht.mem_bindings, hs.mem_bindings, ← List.findSome?_isSome_iff,
        ← List.findSome?_isSome_iff, ← List.findSome?_isSome_iff, ← List.findSome?_isSome_iff]
      simp only [hset, hslot, Option.isSome_map, true_and]
    rw [hboth]
    constructor
    · rintro ⟨rfl, h⟩
      exact ⟨_, h, hs.rebound_binding ht h⟩
    · rintro ⟨b', h, rfl⟩
      obtain ⟨rfl, -⟩ := (hs.mem_bindings i b').mp h
      exact ⟨(hs.rebound_binding ht h).symm, h⟩
  have hirrefl : Std.Irrefl fun d e : Id × Binding => d.1.value < e.1.value :=
    ⟨fun d => UInt32.lt_irrefl d.1.value⟩
  have hanti : Std.Antisymm fun d e : Id × Binding => d.1.value < e.1.value :=
    ⟨fun d e h h' => absurd (UInt32.lt_trans h h') (UInt32.lt_irrefl _)⟩
  refine ht.bindings_ascending.eq_of_mem_iff (List.pairwise_map.mpr hs.bindings_ascending) ?_
  rintro ⟨i, b⟩
  rw [hmem, List.mem_map]
  constructor
  · rintro ⟨b', h, rfl⟩
    exact ⟨(i, b'), h, rfl⟩
  · rintro ⟨⟨j, b'⟩, h, heq⟩
    obtain ⟨rfl, rfl⟩ := Prod.mk.inj heq
    exact ⟨b', h, rfl⟩

end Scans

end Session

/-! ## The scenario -/

namespace Sweep.Swept

variable {s t : Session} {offset : Word}

/-- Each instruction is moved where it stands. -/
theorem rebound (h : (rebinding offset).Swept s t) : t.listing = s.listing.map (.rebound offset) := by
  rw [h.listing, List.map_eq_flatMap]
  refine List.flatMap_congr fun i _ => ?_
  have hmakes : (rebinding offset).makes i.words =
      if i.decoratesSet then [i.words.modify 3 (· + offset)] else [i.words] := rfl
  rw [hmakes, Instruction.rebound]
  split <;> rfl

/-- The words that change are the values of the decorations. -/
theorem rebound_words (h : (rebinding offset).Swept s t) {n : Nat} (hfit : s.SetsFit n) :
    t.words = s.words.mapIdx fun k x =>
      if ∃ i ∈ s.listing, i.decoratesSet ∧ k = i.offset + 3 then x + offset else x := by
  rw [h.words, List.mapIdx_eq_mapIdx_iff]
  intro k _
  have htouch : (∃ i ∈ s.listing, (rebinding offset).touches i k) ↔
      ∃ i ∈ s.listing, i.decoratesSet ∧ k = i.offset + 3 := by
    refine exists_congr fun i => and_congr_right fun hi => ?_
    rw [rebinding_touches, ← and_assoc]
    refine ⟨And.left, fun h => ⟨h, ?_⟩⟩
    -- there is a value, so the third word is not behind the instruction
    obtain ⟨v, hv, -⟩ := hfit i hi h.1
    have hlen := (List.getElem?_eq_some_iff.mp hv).1
    rw [Instruction.stop, Instruction.wordCount]
    omega
  simp only [htouch]
  rfl

end Sweep.Swept

namespace Scenario

variable {s : Session} {offset : Word}

/-- All checks hold when all descriptor sets can be moved. -/
theorem moveSets_passes (hs : s.Steady s) (hfit : s.SetsFit offset.toNat) :
    (moveSets offset).Passes s fun _ t => (Sweep.rebinding offset).Swept s t := by
  have hsweep := (Sweep.rebinding_edits hfit).passes hs
  have hloop : ((setDecorations s).forM fun p =>
      Trial.edit (.modifyOperands p (.demand 2 (add? offset)))).Passes s
        fun _ t => (Sweep.rebinding offset).Swept s t := by
    rw [setDecorations, List.forM_eq_forM, List.forM_map]
    exact hsweep
  refine Trial.passes_get (hloop.bind fun _ t ht => Trial.passes_get ?_)
  have hlen : t.words.length = s.words.length := by rw [ht.words, List.length_mapIdx]
  refine (Trial.passes_ensure _ (decide_eq_true hlen)).bind fun _ u hu => ?_
  subst hu
  refine (Trial.passes_forM (K := (· = u)) rfl fun ⟨i, b⟩ hb v hv => ?_).mono fun _ v hv => hv ▸ ht
  subst hv
  have hscans := hs.scans
  have hmoved := hscans.rebound_binding (ht.rebound ▸ ht.steady.scans) hb
  have hsum : add? b.set offset = some (b.set + offset) := if_pos (hscans.set_fits hfit hb)
  refine Trial.passes_get ?_
  simp only [hsum]
  refine Trial.passes_ensure _ ?_
  simp [hmoved]

/-- The module that comes of a move, as the session it was made in leaves it. -/
theorem rebind_ends {ws : List Word} (hs : Session.ofWords .never ws = .ok s)
    (hfit : s.SetsFit offset.toNat) :
    ∃ t, (Sweep.rebinding offset).Swept s t ∧
      run (.rebind offset) (some ws) = (.ok t.words, none) :=
  onModule_eq hs (moveSets_passes (.ofWords hs) hfit) fun _ ht => ht.steady.editable.1

/-- Moving on from a module that was moved is one move. -/
theorem rebind_again {ws : List Word} {t : Session} {more : Word}
    (hs : Session.ofWords .never ws = .ok s) (ht : (Sweep.rebinding offset).Swept s t)
    (hfit : s.SetsFit (offset.toNat + more.toNat)) :
    run (.rebind more) (some t.words) = run (.rebind (offset + more)) (some ws) := by
  obtain ⟨u, hu, huw, hfresh, hul⟩ := ht.steady.reached.reopens .never
  rw [ht.rebound] at hul
  have hfit' : u.SetsFit more.toNat := by
    intro i hi hset
    rw [hul] at hi
    obtain ⟨j, hj, rfl⟩ := List.mem_map.mp hi
    rw [Instruction.rebound_decoratesSet] at hset
    obtain ⟨v, hv, hlt⟩ := hfit j hj hset
    refine ⟨v + offset, by rw [Instruction.rebound_set offset j hset, hv, Option.map_some], ?_⟩
    have hadd := UInt32.toNat_add v offset
    omega
  have hsum : s.SetsFit (offset + more).toNat := by
    intro i hi hset
    obtain ⟨v, hv, hlt⟩ := hfit i hi hset
    have hadd := UInt32.toNat_add offset more
    exact ⟨v, hv, by omega⟩
  have hplaces (k : Nat) : (∃ i ∈ u.listing, i.decoratesSet ∧ k = i.offset + 3) ↔
      ∃ i ∈ s.listing, i.decoratesSet ∧ k = i.offset + 3 := by
    simp only [hul, List.mem_map, exists_exists_and_eq_and, Instruction.rebound_decoratesSet,
      Instruction.rebound_offset]
  obtain ⟨v, hv, hrun⟩ := rebind_ends hu hfit'
  obtain ⟨v', hv', hrun'⟩ := rebind_ends hs hsum
  rw [hrun, hrun', hv.rebound_words hfit', hv'.rebound_words hsum, huw, ht.rebound_words hfit,
    List.mapIdx_mapIdx]
  simp only [hplaces]
  refine congrArg (fun ws => (Except.ok ws, none)) ?_
  rw [List.mapIdx_eq_mapIdx_iff]
  intro k hk
  split
  · exact UInt32.add_assoc ..
  · rfl

/-- A scenario that moves all descriptor sets goes through if they can be moved: it changes the
values of the decorations with a descriptor set, and the bound as opening does. In the module that
comes of it each resource has its slot, and a descriptor set so far up. Two moves are one by the
sum. -/
theorem rebind_moves_sets {ws : List Word} (hs : Session.ofWords .never ws = .ok s)
    (hfit : s.SetsFit offset.toNat) :
    ∃ out, run (.rebind offset) (some ws) = (.ok out, none) ∧
      out.length = ws.length ∧
      (out = (ws.set Session.boundWord s.bound).mapIdx fun k x =>
        if ∃ i ∈ s.listing, i.decoratesSet ∧ k = i.offset + 3 then x + offset else x) ∧
      (∃ t, Session.ofWords .never out = .ok t ∧ t.bound = s.bound ∧
        (∀ i, (t.binding i).slot = (s.binding i).slot) ∧
        t.bindings = s.bindings.map fun e => (e.1, ⟨e.2.set + offset, e.2.slot⟩)) ∧
      (∀ e ∈ s.bindings, e.2.set.toNat + offset.toNat < UInt32.size) ∧
      ∀ more, s.SetsFit (offset.toNat + more.toNat) →
        run (.rebind more) (some out) = run (.rebind (offset + more)) (some ws) := by
  obtain ⟨t, ht, hrun⟩ := rebind_ends hs hfit
  obtain ⟨u, hu, -, hfresh, hul⟩ := ht.steady.reached.reopens .never
  rw [ht.rebound] at hul
  have hscans : s.Scans s.listing := (Session.Steady.ofWords hs).scans
  have hscans' : u.Scans (s.listing.map (.rebound offset)) :=
    hul ▸ (Session.Steady.ofWords hu).scans
  have hout := ht.rebound_words hfit
  rw [Session.ofWords_words hs] at hout
  refine ⟨t.words, hrun, ?_, hout, ⟨u, hu, ?_, hscans.rebound_slot hscans',
    hscans.rebound_bindings hscans'⟩, fun e he => hscans.set_fits hfit he, fun more hmore =>
      rebind_again hs ht hmore⟩
  · rw [hout, List.length_mapIdx, List.length_set]
  · rw [Session.bound, hfresh, ht.steady.fresh]
    rfl

/-- A resource with two descriptor sets and a slot, and one with a descriptor set alone. -/
def repeatedSets : List Word :=
  [magic, Version.word ⟨1, 3⟩, 0, 0, 0] ++
    [⟨.opDecorate, [1, Decoration.descriptorSet.value, 4]⟩,
      ⟨.opDecorate, [1, Decoration.binding.value, 2]⟩,
      ⟨.opDecorate, [1, Decoration.descriptorSet.value, 7]⟩,
      (⟨.opDecorate, [2, Decoration.descriptorSet.value, 9]⟩ : Operation)].flatMap Operation.words

theorem rebind_moves_sets_repeated :
    ∃ s, Session.ofWords .never repeatedSets = .ok s ∧ s.SetsFit (3 : Word).toNat ∧
      s.SetsFit ((3 : Word).toNat + (4 : Word).toNat) ∧
      ∃ out, run (.rebind 3) (some repeatedSets) = (.ok out, none) ∧
        (∃ t, Session.ofWords .never out = .ok t ∧ t.bindings = [(.one, ⟨7, 2⟩)]) ∧
        run (.rebind 4) (some out) = run (.rebind 7) (some repeatedSets) := by
  obtain ⟨s, hs, hchecked⟩ : ∃ s, Session.ofWords .never repeatedSets = .ok s ∧
      decide (s.SetsFit (3 : Word).toNat ∧ s.SetsFit ((3 : Word).toNat + (4 : Word).toNat) ∧
        s.bindings = [(.one, ⟨4, 2⟩)]) :=
    Session.opens_of_any (by decide +kernel)
  obtain ⟨hfit, hfit', hbindings⟩ := of_decide_eq_true hchecked
  obtain ⟨out, hrun, -, -, ⟨t, ht, -, -, hmoved⟩, -, hagain⟩ := rebind_moves_sets hs hfit
  rw [hbindings] at hmoved
  exact ⟨s, hs, hfit, hfit', out, hrun, ⟨t, ht, hmoved⟩, hagain 4 hfit'⟩

end Scenario

end SpirvModule
