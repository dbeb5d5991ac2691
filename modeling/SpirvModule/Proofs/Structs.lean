import SpirvModule.Proofs.Declaring

/-!
# Structs

A session shares structs that have the same members, or it never does. If it does, a struct is
found by its members as they are read from the words, those of the module that was opened
included, and as long as ids are distinct the struct that is found is where its id is located.
A struct that is not found has to have members that are defined.

* `Instruction.IsStruct`: that an instruction declares a struct.
* `Index.Structured`: that every struct that is found is one of the instructions.
* `Session.HasStruct`: that a session has a struct of given members.

Results:
* `Index.Structured.change`: every change of the index keeps it structured.
* `declareStruct_yields`, `declareStruct_undeclared`: how the declaration of a struct can end.
* `Reached.structs_follow_policy`: what a struct is under either policy.
-/
namespace SpirvModule

open Session

/-! ## Instructions that declare structs -/

/-- Whether an instruction declares the struct `c`, and its members are read as `ms`. Operands that
are zero are passed over. -/
structure Instruction.IsStruct (i : Instruction) (c : Id) (ms : List Id) : Prop where
  opcode : i.opcode? = some .opTypeStruct
  id : i.resultId? = some c
  members : (i.operands.drop 1).filterMap Id.ofWord? = ms

theorem Contribution.of_eq_struct {t : TypeTable} {i : Instruction} {c : Id} {ms : List Id} :
    Contribution.of t i = .struct c ms ↔ i.IsStruct c ms := by
  constructor
  · intro h
    unfold Contribution.of at h
    split at h
    · cases h
    split at h
    · cases h
    rename_i id hid
    split at h
    · rename_i hop
      cases h
      exact ⟨hop, hid, rfl⟩
    · split at h <;> cases h
  · rintro ⟨hop, hid, rfl⟩
    have hf : Fact.ofInstruction? i = none := by
      rw [Fact.ofInstruction?, hop]
      rfl
    rw [Contribution.of, hf, hid]
    exact if_pos hop

namespace Instruction.IsStruct

variable {i j : Instruction} {c : Id} {ms : List Id}

theorem congr (h : i.IsStruct c ms) (hw : j.words = i.words) : j.IsStruct c ms := by
  obtain ⟨hl, ho⟩ := List.cons.inj hw
  refine ⟨?_, ?_, ho ▸ h.members⟩
  · rw [opcode?, number, hl]
    exact h.opcode
  · rw [resultId?_congr hw]
    exact h.id

/-- If no member is zero, all operands are read. -/
theorem operands_eq (h : i.IsStruct c ms) (hz : 0 ∉ i.operands.drop 1) :
    i.operands = c.value :: ms.map Id.value := by
  have hread (ws : List Word) (hws : 0 ∉ ws) : (ws.filterMap Id.ofWord?).map Id.value = ws := by
    induction ws with
    | nil => rfl
    | cons w ws ih =>
      obtain ⟨hw, hws⟩ := not_or.mp (mt List.mem_cons.mpr hws)
      have hid : Id.ofWord? w = some ⟨w, Ne.symm hw⟩ := dif_pos (Ne.symm hw)
      rw [List.filterMap_cons, hid, List.map_cons, ih hws]
  have hindex : Opcode.resultIndex? .opTypeStruct = some 0 := by decide +kernel
  have hid := h.id
  simp only [resultId?, h.opcode, Option.bind_eq_bind, Option.bind_some, hindex] at hid
  cases hops : i.operands with
  | nil =>
    rw [hops] at hid
    cases hid
  | cons w ws =>
    have hw : Id.ofWord? w = some c := by simpa [hops] using hid
    rw [hops, List.drop_one, List.tail_cons] at hz
    rw [← h.members, hops, List.drop_one, List.tail_cons, hread ws hz, Id.ofWord?_eq_some.mp hw]

end Instruction.IsStruct

/-- A struct is written as it is read. -/
theorem Operation.isStruct_typeStruct (p : Nat) (c : Id) (ms : List Id) :
    (Instruction.ofChunk p (typeStruct c ms).words).IsStruct c ms := by
  refine ⟨(typeStruct c ms).opcode?_words, ?_, ?_⟩
  · rw [resultId?_words, Edit.resultId?_typeStruct]
  · show (ms.map Id.value).filterMap Id.ofWord? = ms
    rw [List.filterMap_map]
    exact (List.filterMap_congr fun i _ => i.ofWord?_value).trans List.filterMap_some

/-! ## Structs that are found -/

namespace TypeTable

variable {t : TypeTable} {ms ms' : List Id} {c : Id}

theorem getStruct?_insertStruct (h : t.getStruct? ms = none) :
    (t.insertStruct ms c).getStruct? ms' = if ms = ms' then some c else t.getStruct? ms' := by
  rw [insertStruct, h]
  simp only [Option.isSome_none, Bool.false_eq_true, if_false]
  rw [getStruct?, Std.ExtTreeMap.getElem?_insert]
  simp only [Std.compare_eq_iff_eq]
  rfl

theorem of_getStruct?_insertStruct {d : Id} (h : (t.insertStruct ms c).getStruct? ms' = some d) :
    t.getStruct? ms' = some d ∨ (ms = ms' ∧ c = d) := by
  cases hms : t.getStruct? ms with
  | some e =>
    rw [insertStruct, hms] at h
    exact .inl h
  | none =>
    rw [getStruct?_insertStruct hms] at h
    split at h
    · exact .inr ⟨‹_›, Option.some.inj h⟩
    · exact .inl h

theorem of_getStruct?_removeStruct {d : Id} (h : (t.removeStruct ms c).getStruct? ms' = some d) :
    t.getStruct? ms' = some d ∧ ¬ (ms = ms' ∧ c = d) := by
  unfold removeStruct at h
  split at h
  · rename_i hms
    rw [getStruct?, Std.ExtTreeMap.getElem?_erase] at h
    simp only [Std.compare_eq_iff_eq] at h
    split at h
    · cases h
    · rename_i hne
      exact ⟨h, fun heq => hne heq.1⟩
  · rename_i hms
    exact ⟨h, fun ⟨hm, hc⟩ => hms (hm ▸ hc ▸ h)⟩

end TypeTable

namespace Index

variable {x : Index} {policy : StructPolicy} {i : Instruction} {l r : List Instruction}
  {ms : List Id} {c : Id}

theorem of_getStruct?_register (h : (x.register policy i).types.getStruct? ms = some c) :
    x.types.getStruct? ms = some c ∨ i.IsStruct c ms := by
  rw [register_types] at h
  split at h
  · exact .inl h
  · exact .inl h
  · rename_i d ns hof
    split at h
    · refine (TypeTable.of_getStruct?_insertStruct h).imp_right fun ⟨hm, hc⟩ => ?_
      exact hm ▸ hc ▸ Contribution.of_eq_struct.mp hof
    · exact .inl h
  · rw [TypeTable.getStruct?, TypeTable.structs_insert] at h
    exact .inl h

theorem of_getStruct?_unregister (h : (x.unregister i).types.getStruct? ms = some c) :
    x.types.getStruct? ms = some c ∧ ¬ i.IsStruct c ms := by
  rw [unregister_types] at h
  have hno {k : Contribution} (hof : Contribution.of x.types i = k) (hk : k ≠ .struct c ms) :
      ¬ i.IsStruct c ms := fun hs => hk (hof.symm.trans (Contribution.of_eq_struct.mpr hs))
  split at h
  · rename_i hof
    exact ⟨h, hno hof nofun⟩
  · rename_i d ns hof
    obtain ⟨hold, hne⟩ := TypeTable.of_getStruct?_removeStruct h
    refine ⟨hold, hno hof fun heq => ?_⟩
    cases heq
    exact hne ⟨rfl, rfl⟩
  · rename_i hof
    rw [TypeTable.getStruct?, TypeTable.structs_remove] at h
    exact ⟨h, hno hof nofun⟩
  · rename_i hof
    refine ⟨?_, hno hof nofun⟩
    split at h
    · exact h
    · rwa [TypeTable.getStruct?, TypeTable.structs_remove] at h

theorem types_register_struct (hi : i.IsStruct c ms) (hp : policy = .byMembers) :
    (x.register policy i).types = x.types.insertStruct ms c := by
  rw [register_types, Contribution.of_eq_struct.mpr hi]
  exact if_pos hp

/-- Whether every struct that is found by its members is declared in `l` with these members. -/
def Structured (x : Index) (l : List Instruction) : Prop :=
  ∀ ms c, x.types.getStruct? ms = some c → ∃ i ∈ l, i.IsStruct c ms

/-- Every change keeps it so. -/
theorem Structured.change {a b : Index × List Instruction} (h : a.1.Structured a.2)
    (hab : Change a b) : b.1.Structured b.2 := by
  intro ms c hc
  cases hab with
  | enter policy _ _ =>
    rcases of_getStruct?_register hc with hc | hi
    · obtain ⟨j, hj, hjs⟩ := h ms c hc
      exact ⟨j, mem_append_cons.mpr (.inr hj), hjs⟩
    · exact ⟨_, mem_append_cons.mpr (.inl rfl), hi⟩
  | leave _ _ =>
    obtain ⟨hc, hi⟩ := of_getStruct?_unregister hc
    obtain ⟨j, hj, hjs⟩ := h ms c hc
    refine ⟨j, (mem_append_cons.mp hj).resolve_left ?_, hjs⟩
    rintro rfl
    exact hi hjs
  | @move x l k p removed added _ _ =>
    obtain ⟨j, hj, hjs⟩ := h ms c hc
    rcases List.mem_append.mp hj with hj | hj
    · exact ⟨j, List.mem_append_left _ hj, hjs⟩
    · exact ⟨j.shifted removed added, List.mem_append_right _ (List.mem_map_of_mem hj),
        hjs.congr rfl⟩
  | pad l k _ _ =>
    obtain ⟨j, hj, hjs⟩ := h ms c hc
    refine ⟨j, ?_, hjs⟩
    simp only [List.mem_append] at hj ⊢
    exact hj.imp_right .inr

end Index

theorem Reached.structured {s : Session} (h : Reached IdsDistinct s) :
    s.index.Structured s.live := by
  refine h.keeps ?_ fun _ _ hab _ _ hst => hst.change hab
  intro ms c hc
  simp [Index.empty, TypeTable.empty, TypeTable.getStruct?] at hc

/-! ## Declaring a struct -/

namespace Session

variable {s t u : Session} {m m' : Outline} {members : List Id} {i b : Id}

/-- Whether no member of a live struct is zero. -/
def MembersNonzero (s : Session) : Prop :=
  ∀ i ∈ s.live, i.opcode? = some .opTypeStruct → 0 ∉ i.operands.drop 1

instance (s : Session) : Decidable s.MembersNonzero :=
  inferInstanceAs (Decidable (∀ i ∈ s.live, _ → _))

/-- Whether the instruction that is located as `i` is a live struct with exactly these members. -/
def HasStruct (s : Session) (members : List Id) (i : Id) : Prop :=
  ∃ j ∈ s.live, s.locate? i = some j.offset ∧ j.opcode? = some .opTypeStruct ∧
    j.operands = i.value :: members.map Id.value

/-- A struct that is appended is where its id is located. -/
theorem hasStruct_of_growsFresh (h : s.Sound m) (hs : s.Editable)
    (hst : s.GrowsFresh .types (.typeStruct · members) i t) : t.HasStruct members i := by
  obtain ⟨b, -, hgrows⟩ := hst.grows
  have hstruct := Operation.isStruct_typeStruct (s.sectionStop .types) i members
  exact ⟨_, hst.mem_live h hs.2, hgrows.locate?_eq (Edit.resultId?_typeStruct i members),
    hstruct.opcode, rfl⟩

/-- A struct that is declared is shared from then on, unless one was already. -/
theorem getStruct?_of_growsFresh (hst : s.GrowsFresh .types (.typeStruct · members) i t)
    (hp : s.policy = .byMembers) (hnone : s.index.types.getStruct? members = none) :
    t.policy = StructPolicy.byMembers ∧ t.index.types.getStruct? members = some i := by
  obtain ⟨b, -, hgrows⟩ := hst.grows
  have hstruct := Operation.isStruct_typeStruct ((s.raised b).sectionStop .types) i members
  have htypes : t.index.types = s.index.types.insertStruct members i := by
    rw [hgrows.index]
    exact Index.types_register_struct (x := s.index.relocate _ 0 _) hstruct hp
  refine ⟨hgrows.policy.trans hp, ?_⟩
  rw [htypes, TypeTable.getStruct?_insertStruct hnone, if_pos rfl]

end Session

namespace Edit

variable {s : Session} {m : Outline} {members : List Id} {i : Id}

/-- A struct is shared, or appended with the next id. -/
theorem declareStruct_yields (h : s.Sound m) (members : List Id) :
    (declareStruct members).Yields s fun i t =>
      (s.policy = .byMembers ∧ s.index.types.getStruct? members = some i ∧ t = s) ∨
      (¬ (Command.declareStruct members).needless s ∧ s.Editable ∧
        s.GrowsFresh .types (.typeStruct · members) i t) := by
  refine yields_get ?_
  split
  · rename_i i hi
    split at hi
    · exact yields_pure (.inl ⟨‹_›, hi, rfl⟩)
    · cases hi
  · rename_i hnone
    have hn : ¬ (Command.declareStruct members).needless s := by
      intro hneed
      obtain ⟨hp, hsome⟩ := Bool.and_eq_true_iff.mp hneed
      rw [if_pos (of_decide_eq_true hp)] at hnone
      rw [hnone] at hsome
      cases hsome
    refine ensureNoBracket_settles.yields.bind fun _ u ⟨hu, hs⟩ => ?_
    subst hu
    refine yields_get ?_
    split
    · exact (settles_violate _).yields
    · refine (newId_bind_yields hs.1 (resultId?_typeStruct · members) fun i b => ?_).mono
        fun _ _ hst => .inr ⟨hn, hs, hst⟩
      exact (append_yields (h.raised b) (home_typeStruct i members)).bind
        fun _ _ ht => yields_pure ⟨resultId?_typeStruct i members, ht.2⟩

/-- A struct is refused for the first of its members that is not located. -/
theorem declareStruct_undeclared (hs : s.Editable)
    (hn : ¬ (Command.declareStruct members).needless s)
    (hi : members.find? (fun i => (s.locate? i).isNone) = some i) :
    (declareStruct members).Stops (.undeclaredMember i) s := by
  have hnone : (if s.policy = .byMembers then s.index.types.getStruct? members else none) =
      none := by
    simpa [Command.needless] using hn
  rw [declareStruct, Stops, run_get_bind, hnone]
  refine (ensureNoBracket_answers hs).bind_stops fun _ => ?_
  rw [Stops, run_get_bind, firstUndefined?, hi]
  rfl

end Edit

/-! ## Runs -/

/-- A declaration that is answered has found a struct or appended one. -/
theorem perform_declareStruct {s t : Session} {m : Outline} {members : List Id} {i : Id}
    (h : s.Sound m) (hrun : s.perform (.declareStruct members) = (.ok (.id i), t)) :
    (s.policy = .byMembers ∧ s.index.types.getStruct? members = some i ∧ t = s) ∨
      (¬ (Command.declareStruct members).needless s ∧ s.Editable ∧
        s.GrowsFresh .types (.typeStruct · members) i t) :=
  (Edit.declareStruct_yields h members).of_map Answer.id.inj hrun

namespace Reached

variable {s t : Session} {members members' : List Id} {i i' : Id}

/-- A struct that is found by its members is live, and its id is located there. -/
theorem hasStruct_of_getStruct? (h : Reached IdsDistinct s) (hz : s.MembersNonzero)
    (hi : s.index.types.getStruct? members = some i) : s.HasStruct members i := by
  obtain ⟨j, hj, hstruct⟩ := h.structured members i hi
  exact ⟨j, hj, h.locates j hj i hstruct.id, hstruct.opcode,
    hstruct.operands_eq (hz j hj hstruct.opcode)⟩

/-- A struct that is shared has another id than one with other members that is declared. -/
theorem declareStruct_ne (h : Reachable s) (hs : s.IdsDistinct → Reached IdsDistinct s)
    (hi : s.index.types.getStruct? members = some i) (hne : members' ≠ members)
    (hrun : s.perform (.declareStruct members') = (.ok (.id i'), t)) (hd : t.IdsDistinct) :
    i' ≠ i := by
  obtain ⟨m, hm⟩ := h.sound
  rcases perform_declareStruct hm hrun with ⟨-, hi', rfl⟩ | ⟨-, hed, hgains⟩
  · rintro rfl
    obtain ⟨j, hj, hstruct⟩ := (hs hd).structured members i' hi
    obtain ⟨j', hj', hstruct'⟩ := (hs hd).structured members' i' hi'
    obtain rfl := eq_of_resultId? hd hj hj' hstruct.id hstruct'.id
    exact hne (hstruct'.members.symm.trans hstruct.members)
  · obtain ⟨hds, hnew⟩ := hgains.new_id hm hed.2 (Edit.resultId?_typeStruct i' members') hd
    obtain ⟨j, hj, hstruct⟩ := (hs hds).structured members i hi
    exact fun heq => hnew (heq ▸ mem_definedIds hj hstruct.id)

/-- If structs are shared, a struct that is answered has exactly the members that were asked for,
one that is asked for again is found, and one with other members has another id. If they are not,
the old bound is answered, and one struct comes to the end of the types. In either case a struct
that is not found is refused for its first member that is not located. -/
theorem structs_follow_policy (h : Reached IdsDistinct s) (hz : s.MembersNonzero)
    (members : List Id) :
    (s.policy = .byMembers → ∀ i t, s.perform (.declareStruct members) = (.ok (.id i), t) →
      t.HasStruct members i ∧ t.perform (.declareStruct members) = (.ok (.id i), t) ∧
      ∀ members' i' t', members' ≠ members →
        t.perform (.declareStruct members') = (.ok (.id i'), t') → t'.IdsDistinct → i' ≠ i) ∧
    (s.policy = .never → ∀ i t, s.perform (.declareStruct members) = (.ok (.id i), t) →
      i = s.fresh ∧
        t.contents = s.contents.append .types [(Operation.typeStruct i members).words]) ∧
    (s.Editable → ¬ (Command.declareStruct members).needless s →
      ∀ i, members.find? (fun i => (s.locate? i).isNone) = some i →
        s.perform (.declareStruct members) =
          (.error (.refused (.undeclaredMember i)), s.breached (.undeclaredMember i))) := by
  obtain ⟨m, hm⟩ := h.sound
  refine ⟨fun hp i t hrun => ?_, fun hp i t hrun => ?_, fun hs hn i hi => ?_⟩
  · -- the struct is found from now on, whether it was before or not
    have hreach : Reachable t := h.reachable.next hrun nofun trivial
    have hdistinct : t.IdsDistinct → Reached IdsDistinct t := h.next hrun nofun
    obtain ⟨hhas, hpt, hget⟩ : t.HasStruct members i ∧ t.policy = .byMembers ∧
        t.index.types.getStruct? members = some i := by
      rcases perform_declareStruct hm hrun with ⟨-, hi, rfl⟩ | ⟨hn, hs, hgains⟩
      · exact ⟨h.hasStruct_of_getStruct? hz hi, hp, hi⟩
      · have hnone : s.index.types.getStruct? members = none := by
          simpa [Command.needless, hp] using hn
        exact ⟨hasStruct_of_growsFresh hm hs hgains, getStruct?_of_growsFresh hgains hp hnone⟩
    exact ⟨hhas, Edit.run_map (Edit.declareStruct_found hpt hget) _,
      fun _ _ _ hne hrun' hd => declareStruct_ne hreach hdistinct hget hne hrun' hd⟩
  · rcases perform_declareStruct hm hrun with ⟨hp', -⟩ | ⟨-, -, hgains⟩
    · cases hp.symm.trans hp'
    · exact ⟨hgains.fresh, hgains.contents hm⟩
  · exact Edit.run_map (Edit.declareStruct_undeclared hs hn hi) _

/-- A session with a type and a struct of one member. -/
def boolStruct (policy : StructPolicy) : Session :=
  (Session.create policy ⟨1, 3⟩ 0).performAll [.declareType (.scalar .bool), .declareStruct [.one]]

/-- A struct of two members is declared where structs are shared, and the struct of one is declared
once more where they are not. A member that is not defined is named in the refusal. -/
theorem structs_follow_policy_bool :
    (let s := boolStruct .byMembers
    let t := (s.perform (.declareStruct [.one, .one])).2
    t.HasStruct [.one, .one] ⟨3, by decide⟩ ∧
      t.perform (.declareStruct [.one, .one]) = (.ok (.id ⟨3, by decide⟩), t)) ∧
    (let s := boolStruct .never
    let lacking := EditError.undeclaredMember ⟨9, by decide⟩
    (s.perform (.declareStruct [.one])).2.contents =
        s.contents.append .types [(Operation.typeStruct ⟨3, by decide⟩ [.one]).words] ∧
      s.perform (.declareStruct [.one, ⟨9, by decide⟩]) =
        (.error (.refused lacking), s.breached lacking)) := by
  have h (policy : StructPolicy) : Reached IdsDistinct (boolStruct policy) :=
    Reached.performAll (.create _ _ _ .nil) (by cases policy <;> decide +kernel)
  have hz (policy : StructPolicy) : (boolStruct policy).MembersNonzero := by
    cases policy <;> decide +kernel
  have hshared := (structs_follow_policy (h .byMembers) (hz _) [.one, .one]).1 rfl ⟨3, by decide⟩ _
    (Prod.ext (by decide +kernel) rfl)
  have hnever := (structs_follow_policy (h .never) (hz _) [.one]).2.1 rfl ⟨3, by decide⟩ _
    (Prod.ext (by decide +kernel) rfl)
  have hrefused := (structs_follow_policy (h .never) (hz _) [.one, ⟨9, by decide⟩]).2.2
    ⟨by decide +kernel, by decide +kernel⟩ (by decide +kernel) ⟨9, by decide⟩ (by decide +kernel)
  exact ⟨⟨hshared.1, hshared.2.1⟩, hnever.2, hrefused⟩

end Reached

end SpirvModule
