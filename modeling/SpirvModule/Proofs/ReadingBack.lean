import SpirvModule.Proofs.Crash

/-!
# Reading a declaration back

The operation that declares a key is made with ids that are found under keys, and it is read with
keys that are recorded for ids. If the ids of scalars and vectors, which are the components that a
key can have, lead back to these, the key that is read is the one that was written. To record it
does not change that, since no component is the new id.

* `TypeTable.Lacks`: which component of a key is not declared.

Results:
* `TypeTable.declaration_eq_error`: for which component a key cannot be declared.
* `TypeTable.decode_declaration`: the key that a declaration is read as.
* `TypeTable.declaration_read_back`: all of it, before and after the key is recorded.
-/
namespace SpirvModule

/-- The component that a key has and that is not declared. -/
inductive TypeTable.Lacks (t : TypeTable) : TypeKey → MissingType → Prop
  | vector {v : VectorType} (h : t.get? (.scalar v.scalar) = none) :
      Lacks t (.vector v) (.scalar v.scalar)
  | matrix {m : MatrixType} (h : t.get? (.vector m.column) = none) :
      Lacks t (.matrix m) (.vector m.column)
  | image {g : ImageType} (h : t.get? (.scalar g.sampledType) = none) :
      Lacks t (.image g) (.scalar g.sampledType)

namespace TypeTable

variable {t : TypeTable} {k : TypeKey} {i : Id} {op : Operation} {j : Instruction}

theorem scalarId_eq_error {s : Scalar} {e : MissingType} :
    t.scalarId s = .error e ↔ t.get? (.scalar s) = none ∧ e = .scalar s := by
  unfold scalarId
  split <;> simp [*, eq_comm]

/-- A key cannot be declared exactly if its component is not, and then that is named. -/
theorem declaration_eq_error {e : MissingType} : t.declaration k i = .error e ↔ t.Lacks k e := by
  constructor
  · intro h
    unfold declaration at h
    split at h
    case h_5 v =>
      split at h
      · rename_i he
        cases h
        obtain ⟨hnone, rfl⟩ := scalarId_eq_error.mp he
        exact .vector hnone
      · cases h
    case h_6 m =>
      split at h
      · rename_i hnone
        cases h
        exact .matrix hnone
      · cases h
    case h_8 g =>
      split at h
      · rename_i he
        cases h
        obtain ⟨hnone, rfl⟩ := scalarId_eq_error.mp he
        exact .image hnone
      · cases h
    all_goals cases h
  · intro h
    cases h with
    | vector h => simp only [declaration, scalarId_eq_error.mpr ⟨h, rfl⟩]
    | matrix h => simp only [declaration, h]
    | image h => simp only [declaration, scalarId_eq_error.mpr ⟨h, rfl⟩]

/-- An id that has a key keeps it when a new id is recorded. -/
theorem Resolves.insert {c : Id} {k' : TypeKey} (h : t.Resolves c k') (hi : t.keyOf? i = none) :
    (t.insert k i).Resolves c k' := by
  have hne : i ≠ c := by
    intro heq
    rw [Resolves, ← heq, hi] at h
    cases h
  cases hk : t.get? k with
  | some d => rwa [insert_of_isSome (hk ▸ rfl : (t.get? k).isSome)]
  | none => rwa [Resolves, keyOf?_insert hk, if_neg hne]

/-- What is decoded before a new id is recorded is decoded afterwards. -/
theorem decode_insert {k' : TypeKey} (h : t.decode j = some k') (hi : t.keyOf? i = none) :
    (t.insert k i).decode j = some k' := by
  rw [decode_eq_some] at h ⊢
  exact h.mono fun _ _ _ _ hres => hres.insert hi

/-- The components that a key can have are scalars and vectors. -/
theorem leadsBack_component (hs : ∀ s, t.LeadsBack (.scalar s)) (hv : ∀ v, t.LeadsBack (.vector v)) :
    ∀ d ∈ k.component?, t.LeadsBack d := by
  intro d hd
  cases k with
  | vector v | image g =>
    obtain rfl := Option.some.inj hd
    exact hs _
  | matrix m =>
    obtain rfl := Option.some.inj hd
    exact hv _
  | _ => cases hd

/-- The words of a declaration are read as the key that it was made for. -/
theorem decode_declaration (hs : ∀ s, t.LeadsBack (.scalar s)) (hv : ∀ v, t.LeadsBack (.vector v))
    (h : t.declaration k i = .ok op) (p : Nat) :
    t.decode (.ofChunk p op.words) = some k := by
  have hcode : (Instruction.ofChunk p op.words).opcode? = some op.opcode := op.opcode?_words
  exact decode_of_declares (declares_of_leadsBack h hcode rfl (leadsBack_component hs hv))

/-- In a table whose scalars and vectors lead back to themselves, the declaration of a key defines
the id that it is made with and reads as that key, also after the key was recorded with an id that
is new. A key has no declaration exactly if its component is not declared, and then that is named. -/
theorem declaration_read_back (hs : ∀ s, t.LeadsBack (.scalar s))
    (hv : ∀ v, t.LeadsBack (.vector v)) (k : TypeKey) (i : Id) :
    (∀ op, t.declaration k i = .ok op → op.resultId? = some i ∧
      ∀ p, t.decode (.ofChunk p op.words) = some k ∧
        (t.keyOf? i = none → (t.insert k i).decode (.ofChunk p op.words) = some k)) ∧
    ∀ e, t.declaration k i = .error e ↔ t.Lacks k e := by
  refine ⟨fun op hop => ⟨resultId?_declaration hop, fun p => ?_⟩, fun e => declaration_eq_error⟩
  have hdecode := decode_declaration hs hv hop p
  exact ⟨hdecode, decode_insert hdecode⟩

/-- The types after a float and a vector of four of it were declared. -/
def floats : TypeTable :=
  ((Session.create .never ⟨1, 3⟩ 0).performAll
    [.declareType (.scalar (.float 32)), .declareType (.vector ⟨.float 32, 4⟩)]).index.types

theorem declaration_read_back_matrix :
    floats.Linked ∧
      (floats.insert (.matrix ⟨⟨.float 32, 4⟩, 3⟩) ⟨3, by decide⟩).decode
          (.ofChunk 11 (Operation.words ⟨.opTypeMatrix, [3, 2, 3]⟩)) =
        some (.matrix ⟨⟨.float 32, 4⟩, 3⟩) ∧
      floats.declaration (.matrix ⟨⟨.bool, 2⟩, 2⟩) ⟨3, by decide⟩ = .error (.vector ⟨.bool, 2⟩) := by
  have hreached : Reached Session.IdsDistinct ((Session.create .never ⟨1, 3⟩ 0).performAll
      [.declareType (.scalar (.float 32)), .declareType (.vector ⟨.float 32, 4⟩)]) :=
    Reached.performAll (.create _ _ _ (by decide)) (by decide +kernel)
  have hlinked : floats.Linked := hreached.keyed.linked
  have hread (k : TypeKey) := declaration_read_back (fun s => hlinked.leadsBack (.scalar s))
    (fun v => hlinked.leadsBack (.vector v)) k ⟨3, by decide⟩
  refine ⟨hlinked, (((hread _).1 _ ?_).2 11).2 (by decide +kernel), ((hread _).2 _).mpr ?_⟩
  · decide +kernel
  · exact .matrix (by decide +kernel)

end TypeTable

end SpirvModule
