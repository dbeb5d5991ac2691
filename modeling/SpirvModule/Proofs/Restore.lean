import SpirvModule.Proofs.Course
import SpirvModule.Proofs.Declares

/-!
# Taking an instruction out and entering it again

What an instruction adds to the index is read twice, when it is taken out and when it is
entered again, from what the index has recorded by then. The ledger comes back as it was
in any case. The place of an id comes back if it was the place of the instruction, and the
table of types comes back if it has recorded of the instruction what it now reads as.

Results:
* `restored_types`, `restored_definitions`: when either comes back.
* `Reached.restored_iff`: when the index comes back, and that changing no operand in a
  bracket does just that.
-/
namespace SpirvModule

/-! ## The table of types -/

namespace TypeTable

variable {t : TypeTable} {k : TypeKey} {c : Id} {ms : List Id}

/-- A key and an id that lead to each other come back. -/
theorem insert_remove (hc : t.keyOf? c = some k) (hk : t.get? k = some c) :
    (t.remove c).insert k c = t := by
  have hnone : (t.remove c).get? k = none := by
    rw [get?_remove hc, if_pos ⟨rfl, hk⟩]
  apply ext
  · intro k'
    rw [get?_insert hnone, get?_remove hc]
    split
    · rename_i heq
      exact heq ▸ hk.symm
    · rename_i hne
      rw [if_neg fun h => hne h.1]
  · intro d
    rw [keyOf?_insert hnone, keyOf?_remove]
    split
    · rename_i heq
      exact heq ▸ hc.symm
    · rfl
  · intro ms
    rw [getStruct?, structs_insert, structs_remove]
    rfl

theorem remove_eq_self : t.remove c = t ↔ t.keyOf? c = none := by
  constructor
  · intro h
    rw [← h, keyOf?_remove, if_pos rfl]
  · exact remove_of_none

theorem insert_eq_self (hc : t.keyOf? c = none) : t.insert k c = t ↔ (t.get? k).isSome := by
  constructor
  · intro h
    by_contra hk
    rw [Option.not_isSome_iff_eq_none] at hk
    rw [← h, keyOf?_insert hk, if_pos rfl] at hc
    cases hc
  · exact insert_of_isSome

theorem insertStruct_removeStruct :
    (t.removeStruct ms c).insertStruct ms c = t ↔ (t.getStruct? ms).isSome := by
  unfold removeStruct
  split
  · rename_i hms
    have hnone : getStruct? { t with structs := t.structs.erase ms } ms = none :=
      Std.ExtTreeMap.getElem?_erase_self
    rw [insertStruct, hnone, hms]
    simp only [Option.isSome_none, Bool.false_eq_true, if_false, Option.isSome_some, iff_true]
    apply ext
    · exact fun _ => rfl
    · exact fun _ => rfl
    · intro ms'
      rw [getStruct?, Std.ExtTreeMap.getElem?_insert, Std.ExtTreeMap.getElem?_erase]
      simp only [Std.compare_eq_iff_eq]
      split
      · rename_i heq
        exact heq ▸ hms.symm
      · rfl
  · unfold insertStruct
    split
    · simp [*]
    · rename_i hms
      simp only [hms, Bool.false_eq_true, iff_false]
      intro h
      have hsome : (t.structs.insert ms c)[ms]? = some c :=
        Std.ExtTreeMap.getElem?_insert_self
      rw [getStruct?, ← h] at hms
      exact hms (by rw [hsome]; rfl)

theorem removeStruct_eq_self : t.removeStruct ms c = t ↔ t.getStruct? ms ≠ some c := by
  unfold removeStruct
  split
  · rename_i hms
    refine iff_of_false (fun h => ?_) (not_not.mpr hms)
    have hnone : (t.structs.erase ms)[ms]? = none := Std.ExtTreeMap.getElem?_erase_self
    rw [getStruct?, ← h, hnone] at hms
    cases hms
  · rename_i hms
    exact iff_of_true rfl hms

/-- Where no struct is recorded, none is forgotten. -/
theorem removeStruct_of_structs (h : t.structs = ∅) : t.removeStruct ms c = t := by
  refine removeStruct_eq_self.mpr fun hms => ?_
  rw [getStruct?, h, Std.ExtTreeMap.getElem?_empty] at hms
  cases hms

/-- The key that an id is forgotten with is decoded and recorded again exactly if it is the one that
was recorded. -/
theorem insert_decode_remove {i : Instruction} (h : t.decode i = some k) :
    (match (t.remove c).decode i with
      | some k' => (t.remove c).insert k' c
      | none => t.remove c) = t ↔
    (t.keyOf? c = some k ∧ t.get? k = some c) ∨ (t.keyOf? c = none ∧ (t.get? k).isSome) := by
  cases hc : t.keyOf? c with
  | none =>
    rw [remove_of_none hc, h]
    simp [insert_eq_self hc]
  | some k' =>
    simp only [reduceCtorEq, false_and, or_false, Option.some.injEq]
    constructor
    · intro heq
      cases hd : (t.remove c).decode i with
      | none =>
        rw [hd] at heq
        rw [remove_eq_self.mp heq] at hc
        cases hc
      | some k'' =>
        obtain rfl : k = k'' := Option.some.inj (h.symm.trans (decode_of_remove hd))
        rw [hd] at heq
        cases hk : (t.remove c).get? k with
        | some d =>
          rw [← heq] at hc
          simp only [insert_of_isSome (hk ▸ rfl : ((t.remove c).get? k).isSome), keyOf?_remove,
            if_true] at hc
          cases hc
        | none =>
          dsimp only at heq
          have hkey : (insert (t.remove c) k c).keyOf? c = some k := by
            rw [keyOf?_insert hk, if_pos rfl]
          have hget : (insert (t.remove c) k c).get? k = some c := by
            rw [get?_insert hk, if_pos rfl]
          rw [heq] at hkey hget
          exact ⟨Option.some.inj (hc.symm.trans hkey), hget⟩
    · rintro ⟨rfl, hget⟩
      -- the instruction is not its own component: its component has a key of another opcode
      have hd : (t.remove c).decode i = some k' := by
        rw [decode_eq_some] at h ⊢
        refine h.mono fun d _ k hnot hk => resolves_remove.mpr ⟨?_, hk⟩
        rintro rfl
        obtain rfl : k' = k := Option.some.inj (hc.symm.trans hk)
        exact hnot _ h
      rw [hd]
      exact insert_remove hc hget

/-- Whether what an instruction with the id `id` adds is recorded in the table, or is something that
the table would not record. -/
def Recalls (t : TypeTable) (policy : StructPolicy) (id : Option Id) : Contribution → Prop
  | .fact _ => True
  | .struct _ members => policy = .byMembers → (t.getStruct? members).isSome
  | .type i k =>
    (t.keyOf? i = some k ∧ t.get? k = some i) ∨ (t.keyOf? i = none ∧ (t.get? k).isSome)
  | .nothing => ∀ i ∈ id, t.keyOf? i = none

instance (t : TypeTable) (policy : StructPolicy) (id : Option Id) :
    ∀ c, Decidable (t.Recalls policy id c)
  | .fact _ => isTrue trivial
  | .struct _ members => inferInstanceAs (Decidable (_ → (t.getStruct? members).isSome = true))
  | .type i k => inferInstanceAs (Decidable ((t.keyOf? i = some k ∧ t.get? k = some i) ∨ _))
  | .nothing => inferInstanceAs (Decidable (∀ i ∈ id, t.keyOf? i = none))

end TypeTable

/-! ## The index -/

namespace Index

variable (policy : StructPolicy) (x : Index) (i : Instruction)

/-- Whether the index has recorded of an instruction what it reads as. -/
def Recalls : Prop :=
  (∀ id ∈ i.resultId?, x.definitions[id]? = some i.offset) ∧
    x.types.Recalls policy i.resultId? (.of x.types i)

instance : Decidable (Recalls policy x i) := inferInstanceAs (Decidable (_ ∧ _))

theorem restored_definitions :
    ((x.unregister i).register policy i).definitions = x.definitions ↔
      ∀ id ∈ i.resultId?, x.definitions[id]? = some i.offset := by
  rw [register_definitions, unregister_definitions]
  cases i.resultId? with
  | none => simp
  | some id =>
    simp only [Option.mem_def, Option.some.injEq, forall_eq']
    constructor
    · intro h
      rw [← h, Std.ExtTreeMap.getElem?_insert_self]
    · intro h
      rw [if_pos h]
      apply Std.ExtTreeMap.ext_getElem?
      intro id'
      rw [Std.ExtTreeMap.getElem?_insert, Std.ExtTreeMap.getElem?_erase]
      simp only [Std.compare_eq_iff_eq]
      split
      · rename_i heq
        exact heq ▸ h.symm
      · rfl

theorem restored_types (hs : policy = .never → x.types.structs = ∅) :
    ((x.unregister i).register policy i).types = x.types ↔
      x.types.Recalls policy i.resultId? (.of x.types i) := by
  rw [register_types, unregister_types]
  cases i.role with
  | fact f hd h => simp [h, TypeTable.Recalls]
  | struct id members hid hop h =>
    simp only [h, TypeTable.Recalls]
    cases policy with
    | never => simp [TypeTable.removeStruct_of_structs (hs rfl)]
    | byMembers => simp [TypeTable.insertStruct_removeStruct]
  | anonymous hid h => simp [h, hid, TypeTable.Recalls]
  | decoded id hid h =>
    simp only [h, hid]
    cases hk : x.types.decode i with
    | none =>
      have hnone : (x.types.remove id).decode i = none := by
        rw [Option.eq_none_iff_forall_ne_some]
        intro k hk'
        cases hk.symm.trans (TypeTable.decode_of_remove hk')
      simp [hnone, TypeTable.Recalls, TypeTable.remove_eq_self]
    | some k =>
      simp only [TypeTable.Recalls]
      rw [← TypeTable.insert_decode_remove hk]
      cases (x.types.remove id).decode i <;> rfl

/-- Under the policy `never` no struct is recorded. -/
theorem structs_register (hp : policy = .never) (h : x.types.structs = ∅) :
    (x.register policy i).types.structs = ∅ := by
  subst hp
  rw [register_types]
  split
  · exact h
  · exact h
  · exact h
  · rw [TypeTable.structs_insert, h]

theorem structs_unregister (h : x.types.structs = ∅) : (x.unregister i).types.structs = ∅ := by
  rw [unregister_types]
  split
  · exact h
  · rw [TypeTable.removeStruct_of_structs h, h]
  · rw [TypeTable.structs_remove, h]
  · split
    · exact h
    · rw [TypeTable.structs_remove, h]

theorem structs_ofInstructions (l : List Instruction) :
    (ofInstructions .never l).types.structs = ∅ := by
  have hfold : ∀ x : Index, x.types.structs = ∅ →
      (l.foldl (register .never) x).types.structs = ∅ := by
    induction l with
    | nil => exact fun _ h => h
    | cons i r ih => exact fun x h => ih _ (structs_register _ x i rfl h)
  exact hfold empty rfl

/-- The ledger comes back whatever it is an index of. -/
theorem Reflects.restored_ledger {x : Index} {l k : List Instruction} {i : Instruction}
    (h : x.Reflects (l ++ i :: k)) (policy : StructPolicy)
    (hl : ∀ j ∈ l, j.offset < i.offset) (hk : ∀ j ∈ k, i.offset < j.offset) :
    ((x.unregister i).register policy i).ledger = x.ledger :=
  ((h.unregister hl hk).register policy hl hk).ledger_eq h

end Index

/-! ## Sessions -/

namespace Session

variable {s t : Session} {m : Outline}

/-- Whether structs are recorded only if they share ids. -/
def StructsShared (s : Session) : Prop := s.policy = .never → s.index.types.structs = ∅

theorem Move.structsShared (hst : Move s t) (h : s.StructsShared) : t.StructsShared := by
  intro hp
  cases hst with
  | breach e => exact h hp
  | raise hs hb => exact h hp
  | operands hs hb hn => exact h hp
  | beginModify hs hq hi => exact Index.structs_unregister _ _ (h hp)
  | remove hs hq hi hn => exact Index.structs_unregister _ _ (h hp)
  | insert hs hq ha hh hl hb => exact Index.structs_register _ _ _ hp (h hp)
  | endModify hs hb hi => exact Index.structs_register _ _ _ hp (h hp)
  | replace hs hq hi hc hh hl =>
    exact Index.structs_register _ _ _ hp (Index.structs_unregister _ _ (h hp))

theorem Moves.structsShared (hst : Moves s t) (h : s.StructsShared) : t.StructsShared := by
  induction hst with
  | refl => exact h
  | tail _ hmove ih => exact hmove.structsShared ih

/-- Operands that take their own place. -/
theorem overwritten_operands (h : s.Shows m) {sec : Section} {p : Nat} {w : Word} {us : List Word}
    {xs zs : List (List Word)} (hm : m.Splits sec p xs [w :: us] zs) :
    s.overwritten (p + 1) us.length us = s := by
  have hwords : replaceWords s.words (p + 1) us.length us = s.words := by
    rw [replaceWords, List.append_assoc]
    have htake := Edit.operands_of_splits h hm
    calc s.words.take (p + 1) ++ (us ++ s.words.drop (p + 1 + us.length))
        = s.words.take (p + 1) ++ ((s.words.drop (p + 1)).take us.length ++
            (s.words.drop (p + 1)).drop us.length) := by rw [htake, List.drop_drop]
      _ = s.words := by rw [List.take_append_drop, List.take_append_drop]
  rw [overwritten, hwords]

end Session

open Session

theorem Reached.structsShared {P : Session → Prop} {s : Session} (h : Reached P s) :
    s.StructsShared := by
  induction h with
  | create policy v generator _ => exact fun _ => rfl
  | ofWords hs _ =>
    obtain ⟨v, fresh, -, -, hs⟩ := ofWords_ok hs
    intro hp
    rw [hs] at hp ⊢
    obtain rfl := hp
    exact Index.structs_ofInstructions _
  | perform hs c hc _ ih =>
    obtain ⟨m, hm⟩ := hs.sound
    exact (perform_leads hm hc).1.structsShared ih

/-- Changing no operand of an instruction takes it out and enters it again. -/
theorem perform_keep {s : Session} {m : Outline} (h : s.Sound m) (hs : s.Editable)
    {i : Instruction} (hi : i ∈ s.listing) :
    s.perform (.modifyOperands i.offset .keep) = (.ok .done,
      { s with index := (s.index.unregister i).register s.policy i }) := by
  have hp : s.IsPlace i.offset := Shows.isPlace_of_mem hi
  obtain ⟨sec, xs, c, zs, hm, hc⟩ := h.shows.split_of_mem_listing hi
  have hread : s.instruction? i.offset = some i := hc ▸ h.shows.instruction?_of_splits hm
  have hkeep : OperandChange.keep.apply i.operands = some i.operands := rfl
  obtain ⟨_, t, hrun, rfl⟩ := Edit.modifyOperands_answers h hs hp hread hkeep
  have hsame : (s.opened i).overwritten (i.offset + 1) i.operands.length i.operands =
      s.opened i := by
    generalize i.offset = p at hc hm ⊢
    subst hc
    cases c with
    | nil => exact (hm.isChunk (List.mem_singleton_self _)).elim
    | cons w us => exact overwritten_operands (h.opened hm).shows hm
  have hrun' : s.perform (.modifyOperands i.offset .keep) =
      (.ok .done, s.modified i i.operands) := by
    show (Edit.modifyOperands i.offset .keep >>= fun _ => pure Answer.done).run s = _
    rw [Edit.run_bind, hrun]
    rfl
  rw [hrun', Session.modified, hsame]
  simp only [closed, registered, opened, unregistered, ← hs.2]

/-- The index comes back exactly if it has recorded of the instruction what that reads as. -/
theorem Reached.restored_index {P : Session → Prop} {s : Session} (h : Reached P s)
    (hb : s.bracket = none) {i : Instruction} (hi : i ∈ s.listing) :
    (s.index.unregister i).register s.policy i = s.index ↔ s.index.Recalls s.policy i := by
  constructor
  · intro heq
    exact ⟨(Index.restored_definitions ..).mp (congrArg Index.definitions heq),
      (Index.restored_types _ _ _ h.structsShared).mp (congrArg Index.types heq)⟩
  · rintro ⟨hdef, htypes⟩
    apply Index.ext
    · exact (Index.restored_definitions ..).mpr hdef
    · obtain ⟨m, hm⟩ := h.sound
      obtain ⟨sec, xs, c, zs, hsp, hc⟩ := hm.shows.split_of_mem_listing hi
      have hlive := hm.live_of_splits hb hsp
      have hchunk : IsChunk c := hsp.isChunk (List.mem_singleton_self c)
      rw [List.flatten_singleton, place_cons, place_nil, List.singleton_append, ← hc] at hlive
      exact (hlive ▸ h.reflects).restored_ledger _ hsp.ahead_lt (hsp.lt_behind hchunk.pos)
    · exact (Index.restored_types _ _ _ h.structsShared).mpr htypes

/-- Outside a bracket, an instruction that is taken out and entered again, as it is when no operand
is changed in a bracket of its own, leaves the index as it was exactly if the index has recorded of
it what it now reads as. -/
theorem Reached.restored_iff {s : Session} (h : Reachable s) (hb : s.bracket = none)
    {i : Instruction} (hi : i ∈ s.listing) :
    (s.breach = none → s.perform (.modifyOperands i.offset .keep) = (.ok .done,
      { s with index := (s.index.unregister i).register s.policy i })) ∧
    ((s.index.unregister i).register s.policy i = s.index ↔ s.index.Recalls s.policy i) := by
  obtain ⟨m, hm⟩ := h.sound
  exact ⟨fun hs => perform_keep hm ⟨hs, hb⟩ hi, h.restored_index hb hi⟩

/-- A vector is declared and a type that is made of no other, and then the component of the vector
is removed. -/
def componentRemoved : List Command :=
  [.declareType (.scalar .bool), .declareType (.vector ⟨.bool, 4⟩), .declareType .sampler,
    .remove 5]

theorem restored_iff_componentRemoved :
    Reachable ((Session.create .never ⟨1, 3⟩ 0).performAll componentRemoved) ∧
      ∃ i ∈ ((Session.create .never ⟨1, 3⟩ 0).performAll componentRemoved).listing,
        (((Session.create .never ⟨1, 3⟩ 0).performAll componentRemoved).index.unregister
            i).register .never i =
          ((Session.create .never ⟨1, 3⟩ 0).performAll componentRemoved).index := by
  have h : Reachable ((Session.create .never ⟨1, 3⟩ 0).performAll componentRemoved) :=
    Reached.performAll (.create _ _ _ trivial) (by decide +kernel)
  have hi : ⟨11, Word.lead 2 Opcode.opTypeSampler.number, [3]⟩ ∈
      ((Session.create .never ⟨1, 3⟩ 0).performAll componentRemoved).listing := by decide +kernel
  exact ⟨h, _, hi, (h.restored_iff (by decide +kernel) hi).2.mpr (by decide +kernel)⟩

/-- A vector whose component was removed reads as no type any more. Its key goes with the vector
when that is taken out, and does not come back with it. -/
theorem vector_not_restored :
    (¬ ∀ s i, Reachable s → s.bracket = none → i ∈ s.listing →
      (s.index.unregister i).register s.policy i = s.index) ∧
    ¬ ∀ s i, Reachable s → s.bracket = none → i ∈ s.listing →
      ∀ id, (s.perform (.modifyOperands i.offset .keep)).2.typeKey? id = s.typeKey? id := by
  have h : Reachable ((Session.create .never ⟨1, 3⟩ 0).performAll componentRemoved) :=
    Reached.performAll (.create _ _ _ trivial) (by decide +kernel)
  have hi : ⟨7, Word.lead 4 Opcode.opTypeVector.number, [2, 1, 4]⟩ ∈
      ((Session.create .never ⟨1, 3⟩ 0).performAll componentRemoved).listing := by decide +kernel
  constructor
  · intro hsame
    have hkey := congrArg (fun x : Index => x.types.keyOf? ⟨2, by decide⟩)
      (hsame _ _ h (by decide +kernel) hi)
    exact absurd hkey (by decide +kernel)
  · intro hsame
    exact absurd (hsame _ _ h (by decide +kernel) hi ⟨2, by decide⟩) (by decide +kernel)

end SpirvModule
