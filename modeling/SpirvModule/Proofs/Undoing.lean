import SpirvModule.Proofs.Restore

/-!
# Entering an instruction and taking it out again

An instruction is entered into an index that knows nothing of it, neither something told at its
offset nor its id, and taken out again. What it adds is read twice, and the second time with the
types that the first time left: its own type may be among them by then, so that it can be read as
another one, or as none. The index comes back all the same, since the id by itself says which key
has to go. Where a key was there before, the first declaration stays, and it is not the one that
goes. In the ledger a key that came with the instruction goes with it, as in every session no key is
without anything that is told under it.

* `Index.Overlooks`: that an index knows nothing of what an instruction adds.

Results:
* `Ledger.Tidy.erase_insert`, `TypeTable.remove_insert`, `TypeTable.removeStruct_insertStruct`:
  when each part comes back.
* `Index.unregister_register_iff`: the index comes back exactly if it overlooks the instruction.
* `Index.unregister_register`: so it does if offset and id are new to it.
-/
namespace SpirvModule

/-- What is entered into a map under a key and erased again leaves the map as it was exactly if the
key was not there. -/
theorem erase_insert_eq_self {α β : Type} [Ord α] [Std.TransOrd α] [Std.LawfulEqOrd α]
    {m : Std.ExtTreeMap α β} {k : α} {v : β} : (m.insert k v).erase k = m ↔ m[k]? = none := by
  constructor
  · intro h
    rw [← h]
    exact Std.ExtTreeMap.getElem?_erase_self
  · intro hk
    apply Std.ExtTreeMap.ext_getElem?
    intro k'
    rw [Std.ExtTreeMap.getElem?_erase, Std.ExtTreeMap.getElem?_insert]
    split
    · rename_i heq
      rw [← Std.LawfulEqCmp.eq_of_compare heq, hk]
    · rfl

/-! ## The ledger -/

/-- A fact that is recorded and forgotten leaves a tidy ledger as it was, with no key that was not
there, exactly if nothing was told of its subject at its offset. -/
theorem Ledger.Tidy.erase_insert {x : Ledger} (h : x.Tidy) (p : Nat) (f : Fact) :
    (x.insert p f).erase p f.subject = x ↔ ∀ e ∈ x.about f.subject, e.1 ≠ p := by
  have habout (u : Subject) : ((x.insert p f).erase p f.subject).about u =
      if f.subject = u then Declarations.erase p (Declarations.insert p f (x.about u))
      else x.about u := by
    rw [about_erase, about_insert]
    split <;> rfl
  rw [← Declarations.erase_insert (v := f)]
  constructor
  · intro heq
    have hsubject := habout f.subject
    rw [if_pos rfl, heq] at hsubject
    exact hsubject.symm
  · intro heq
    refine ((h.insert p f).erase p f.subject).ext h fun u => ?_
    rw [habout]
    split
    · rename_i hu
      exact hu ▸ heq
    · rfl

/-! ## The table of types -/

namespace TypeTable

variable {t : TypeTable} {k : TypeKey} {c : Id} {ms : List Id}

/-- A struct that is recorded and forgotten leaves the table as it was, unless it was the one that
its members lead to. -/
theorem removeStruct_insertStruct :
    (t.insertStruct ms c).removeStruct ms c = t ↔ t.getStruct? ms ≠ some c := by
  cases hms : t.getStruct? ms with
  | some d =>
    have hsame : t.insertStruct ms c = t := by simp [insertStruct, hms]
    rw [hsame, ← hms]
    exact removeStruct_eq_self
  | none =>
    have hself : (t.insertStruct ms c).getStruct? ms = some c := by
      rw [insertStruct, hms]
      exact Std.ExtTreeMap.getElem?_insert_self
    refine iff_of_true ?_ (Option.some_ne_none c).symm
    have hback : (t.structs.insert ms c).erase ms = t.structs := erase_insert_eq_self.mpr hms
    rw [removeStruct, if_pos hself]
    simp [insertStruct, hms, hback]

/-- A key that is recorded and whose id is forgotten leaves the table as it was exactly if the id
had no key. -/
theorem remove_insert : (t.insert k c).remove c = t ↔ t.keyOf? c = none := by
  constructor
  · intro h
    rw [← h, keyOf?_remove, if_pos rfl]
  · intro hc
    cases hk : t.get? k with
    | some d =>
      rw [insert_of_isSome (hk ▸ rfl : (t.get? k).isSome)]
      exact remove_of_none hc
    | none =>
      have hkey : (t.insert k c).keyOf? c = some k := by
        rw [keyOf?_insert hk, if_pos rfl]
      have hget : (t.insert k c).get? k = some c := by
        rw [get?_insert hk, if_pos rfl]
      have hids : (t.ids.insert k c).erase k = t.ids := erase_insert_eq_self.mpr hk
      have hkeys : (t.keys.insert c k).erase c = t.keys := erase_insert_eq_self.mpr hc
      simp only [remove, hkey, hget, if_true]
      rw [insert_of_none hk, hids, hkeys]

end TypeTable

/-- Whether a table knows nothing of what an instruction with the id `id` adds to it. -/
def TypeTable.Overlooks (t : TypeTable) (id : Option Id) : Contribution → Prop
  | .fact _ => True
  | .struct i members => t.getStruct? members ≠ some i
  | .type i _ => t.keyOf? i = none
  | .nothing => ∀ i ∈ id, t.keyOf? i = none

/-! ## The index -/

namespace Index

variable (policy : StructPolicy) (x : Index) (i : Instruction)

/-- Whether an index knows nothing of an instruction: its id has no place, what it tells was not
told where it stands, and the types do not know of it. -/
structure Overlooks : Prop where
  place : ∀ id ∈ i.resultId?, x.definitions[id]? = none
  untold : ∀ f ∈ Fact.ofInstruction? i, ∀ e ∈ x.ledger.about f.subject, e.1 ≠ i.offset
  types : x.types.Overlooks i.resultId? (.of x.types i)

theorem withdrawn_definitions :
    ((x.register policy i).unregister i).definitions = x.definitions ↔
      ∀ id ∈ i.resultId?, x.definitions[id]? = none := by
  rw [unregister_definitions, register_definitions]
  cases i.resultId? with
  | none => simp
  | some id =>
    simp only [Std.ExtTreeMap.getElem?_insert_self, if_true, Option.mem_def, Option.some.injEq,
      forall_eq']
    exact erase_insert_eq_self

theorem withdrawn_ledger (hx : x.ledger.Tidy) :
    ((x.register policy i).unregister i).ledger = x.ledger ↔
      ∀ f ∈ Fact.ofInstruction? i, ∀ e ∈ x.ledger.about f.subject, e.1 ≠ i.offset := by
  rw [unregister_ledger, register_ledger]
  cases Fact.ofInstruction? i with
  | none => simp
  | some f =>
    dsimp only
    rw [hx.erase_insert]
    simp

theorem withdrawn_types :
    ((x.register policy i).unregister i).types = x.types ↔
      x.types.Overlooks i.resultId? (.of x.types i) := by
  rw [unregister_types, register_types]
  cases i.role with
  | fact f hd h => simp [h, TypeTable.Overlooks]
  | struct id members hid hop h =>
    simp only [h, TypeTable.Overlooks]
    cases policy with
    | never => simp [TypeTable.removeStruct_eq_self]
    | byMembers => simp [TypeTable.removeStruct_insertStruct]
  | anonymous hid h => simp [h, hid, TypeTable.Overlooks]
  | decoded id hid h =>
    simp only [h, hid]
    cases hk : x.types.decode i with
    | none => simp [hk, TypeTable.Overlooks, TypeTable.remove_eq_self]
    | some k =>
      -- whatever is read the second time, it is the key of the id that goes
      simp only [TypeTable.Overlooks]
      rw [← TypeTable.remove_insert (k := k)]
      cases (x.types.insert k id).decode i <;> rfl

/-- An instruction that is entered and taken out again leaves an index as it was exactly if the
index knew nothing of it. -/
theorem unregister_register_iff (hx : x.ledger.Tidy) :
    (x.register policy i).unregister i = x ↔ x.Overlooks i := by
  constructor
  · intro h
    exact ⟨(withdrawn_definitions policy x i).mp (congrArg Index.definitions h),
      (withdrawn_ledger policy x i hx).mp (congrArg Index.ledger h),
      (withdrawn_types policy x i).mp (congrArg Index.types h)⟩
  · intro h
    exact ext ((withdrawn_definitions policy x i).mpr h.place)
      ((withdrawn_ledger policy x i hx).mpr h.untold) ((withdrawn_types policy x i).mpr h.types)

/-- Whether nothing is told at the offset of an instruction, and the id that it defines occurs
nowhere: it has no place and no key, and no members lead to it. -/
structure NewTo : Prop where
  offset : ∀ s, ∀ e ∈ x.ledger.about s, e.1 ≠ i.offset
  place : ∀ id ∈ i.resultId?, x.definitions[id]? = none
  key : ∀ id ∈ i.resultId?, x.types.keyOf? id = none
  struct : ∀ id ∈ i.resultId?, ∀ members, x.types.getStruct? members ≠ some id

variable {x i}

theorem NewTo.overlooks (h : NewTo x i) : x.Overlooks i := by
  refine ⟨h.place, fun f _ => h.offset f.subject, ?_⟩
  cases i.role with
  | fact f hd hc =>
    rw [hc]
    trivial
  | struct id members hid hop hc =>
    rw [hc]
    exact h.struct id hid members
  | anonymous hid hc =>
    rw [hc, hid]
    nofun
  | decoded id hid hc =>
    rw [hc]
    cases x.types.decode i with
    | none => exact h.key
    | some k => exact h.key id hid

/-- In no session does a table have a key without anything under it. In an index with tables of that
kind an instruction that is new to it, at its offset and by its id, can be entered and taken out
again: every table is as it was, and has the same keys. -/
theorem unregister_register :
    (∀ s : Session, Reachable s → s.index.ledger.Tidy) ∧
      ∀ (policy : StructPolicy) (x : Index) (i : Instruction), x.ledger.Tidy → NewTo x i →
        (x.register policy i).unregister i = x :=
  ⟨fun _ hs => hs.reflects.holds.tidy,
    fun policy x i hx h => (unregister_register_iff policy x i hx).mpr h.overlooks⟩

/-- A session with a name, a type and two structs. -/
def structsNamed : Session :=
  (Session.create .byMembers ⟨1, 3⟩ 0).performAll [.setName .one "flag",
    .declareType (.scalar .bool), .declareStruct [.one], .declareStruct [.one, .one]]

/-- A pointer to itself is a type while it is there, and an id has a key among the bindings while it
is decorated. -/
theorem unregister_register_selfPointer :
    let x : Index := structsNamed.index
    let i : Instruction := ⟨40, Word.lead 4 Opcode.opTypePointer.number, [9, 12, 9]⟩
    let j : Instruction := ⟨40, Word.lead 4 Opcode.opDecorate.number, [9, 34, 0]⟩
    (x.ledger.Tidy ∧ NewTo x i ∧ NewTo x j) ∧
      (x.register .byMembers i).types.keyOf? ⟨9, by decide⟩ =
        some (.pointer ⟨9, by decide⟩ .storageBuffer) ∧
      (x.register .byMembers i).unregister i = x ∧
      ((x.register .byMembers j).ledger.bindings[Id.mk 9 (by decide)]?).isSome ∧
      (x.register .byMembers j).unregister j = x ∧
      x.ledger.bindings[Id.mk 9 (by decide)]? = none := by
  intro x i j
  have hreach : Reachable structsNamed :=
    Reached.performAll (.create _ _ _ trivial) (by decide +kernel)
  have htidy : x.ledger.Tidy := unregister_register.1 structsNamed hreach
  have htold : ∀ e ∈ told structsNamed.live, e.1 ≠ 40 := by decide +kernel
  have hstructs : ∀ e ∈ x.types.structs.toList, e.2 ≠ ⟨9, by decide⟩ := by decide +kernel
  have hnew (k : Instruction) (ho : k.offset = 40)
      (hid : ∀ id ∈ k.resultId?, id = ⟨9, by decide⟩) : NewTo x k := by
    refine ⟨fun s e he => ?_, fun id h => ?_, fun id h => ?_, fun id h members hms => ?_⟩
    · exact ho ▸ htold e (hreach.reflects.holds.mem_about.mp he).1
    · rw [hid id h]
      decide +kernel
    · rw [hid id h]
      decide +kernel
    · exact hstructs _ (Std.ExtTreeMap.mem_toList_iff_getElem?_eq_some.mpr hms) (hid id h)
  have hi : NewTo x i := hnew i rfl (by decide +kernel)
  have hj : NewTo x j := hnew j rfl (by decide +kernel)
  exact ⟨⟨htidy, hi, hj⟩, by decide +kernel, unregister_register.2 .byMembers x i htidy hi,
    by decide +kernel, unregister_register.2 .byMembers x j htidy hj, by decide +kernel⟩

end Index

end SpirvModule
