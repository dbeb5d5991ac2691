import SpirvModule.Proofs.Declares

/-!
# Keys of types

Which keys the types of a module have is said by its instructions alone: an instruction gives
its id a key when it declares one, with its component resolved in the same way. The table of
types agrees with a list of instructions when it leads from every key of theirs to an id with
that key, and back.

The table is kept by looking at one instruction at a time, so agreement lasts as long as no
instruction changes what another one declares. A list is well built when ids are distinct and
every component is there and is the only one with its key. An id is free when it is no
component, and no other one has its key.

Results:
* `hasKey_iff`: what it is to have a key.
* `hasKey_insert`, `hasKey_erase`: the keys when an instruction comes or goes.
* `Agrees.register`, `Agrees.unregister`, `Agrees.congr`: when the table goes on agreeing.
* `agrees_ofInstructions`: the table of a module that opens.
-/
namespace SpirvModule

/-- Whether an instruction in `l` gives `id` the key `k`. Whatever the instruction is made of has
the keys that instructions in `l` give it. -/
inductive HasKey (l : List Instruction) : Id → TypeKey → Prop
  | intro {i : Instruction} {id : Id} {k : TypeKey} {resolve : Id → TypeKey → Prop} (hi : i ∈ l)
      (hid : i.resultId? = some id) (hr : ∀ c k', resolve c k' → HasKey l c k')
      (h : i.Declares resolve k) : HasKey l id k

variable {l l' r : List Instruction} {i : Instruction} {id c : Id} {k : TypeKey}

theorem hasKey_iff :
    HasKey l id k ↔ ∃ i ∈ l, i.resultId? = some id ∧ i.Declares (HasKey l) k := by
  constructor
  · rintro ⟨hi, hid, hr, h⟩
    exact ⟨_, hi, hid, h.mono fun c _ k' _ hk => hr c k' hk⟩
  · rintro ⟨i, hi, hid, h⟩
    exact .intro hi hid (fun _ _ hk => hk) h

theorem HasKey.defined (h : HasKey l id k) : id ∈ definedIds l := by
  obtain ⟨i, hi, hid, -⟩ := hasKey_iff.mp h
  exact mem_definedIds hi hid

/-- Keys are a matter of the words of the instructions with ids. -/
theorem HasKey.transfer (h : HasKey l id k)
    (hl : ∀ i ∈ l, i.resultId?.isSome → ∃ j ∈ l', j.words = i.words) : HasKey l' id k := by
  induction h with
  | intro hi hid _ h ih =>
    obtain ⟨j, hj, hw⟩ := hl _ hi (hid ▸ rfl)
    refine .intro hj ?_ ih (h.congr hw)
    rw [← hid]
    exact Instruction.resultId?_congr hw

theorem HasKey.mono (h : HasKey l id k) (hl : l ⊆ l') : HasKey l' id k :=
  h.transfer fun i hi _ => ⟨i, hl hi, rfl⟩

/-! ## Well-built lists -/

/-- Whether no id but `c` has any of the keys of `c`. -/
def Unique (l : List Instruction) (c : Id) : Prop := ∀ k, HasKey l c k → ∀ d, HasKey l d k → d = c

/-- Whether `id` can go without another id changing its key, or having to stand in for it. -/
structure Free (l : List Instruction) (id : Id) : Prop where
  not_component : ∀ i ∈ l, i.component? ≠ some id
  unique : Unique l id

/-- Whether every component is defined. -/
def Closed (l : List Instruction) : Prop := ∀ i ∈ l, ∀ c ∈ i.component?, c ∈ definedIds l

/-- Whether ids are distinct and every component is there and is the only one with its key. -/
structure WellBuilt (l : List Instruction) : Prop where
  distinct : (definedIds l).Nodup
  closed : Closed l
  unique : ∀ i ∈ l, ∀ c ∈ i.component?, Unique l c

theorem Unique.of_subset (h : Unique l' c) (hl : ∀ d k, HasKey l d k → HasKey l' d k) :
    Unique l c := fun k hc d hd => h k (hl c k hc) d (hl d k hd)

/-- Whether no instruction stands in front of one that defines its component. -/
def Ordered (l : List Instruction) : Prop :=
  l.Pairwise fun i j => ∀ c ∈ i.component?, j.resultId? ≠ some c

instance (l : List Instruction) : Decidable (Ordered l) :=
  inferInstanceAs (Decidable (List.Pairwise _ l))

/-- The first instructions of a well-built list are well built when components come first. -/
theorem WellBuilt.left (hw : WellBuilt (l ++ r)) (ho : Ordered (l ++ r)) : WellBuilt l := by
  have hsub : l ⊆ l ++ r := List.subset_append_left l r
  constructor
  · have hd := hw.distinct
    rw [definedIds_append] at hd
    exact hd.of_append_left
  · intro i hi c hc
    have hmem := hw.closed i (hsub hi) c hc
    rw [definedIds_append, List.mem_append] at hmem
    refine hmem.resolve_right fun hr => ?_
    obtain ⟨j, hj, hjc⟩ := List.mem_filterMap.mp hr
    exact (List.pairwise_append.mp ho).2.2 i hi j hj c hc hjc
  · exact fun i hi c hc => (hw.unique i (hsub hi) c hc).of_subset fun d k hd => hd.mono hsub

/-- Whether no other instruction has the opcode of the one that defines `c`. -/
def Sole (l : List Instruction) (c : Id) : Prop :=
  ∀ i ∈ l, i.resultId? = some c → ∀ j ∈ l, j.opcode? = i.opcode? → j.resultId? = some c

instance (l : List Instruction) (c : Id) : Decidable (Sole l c) :=
  inferInstanceAs (Decidable (∀ i ∈ l, _))

instance (l : List Instruction) : Decidable (Closed l) := inferInstanceAs (Decidable (∀ i ∈ l, _))

/-- Types that are declared by different opcodes have different keys. -/
theorem Sole.unique (h : Sole l c) : Unique l c := by
  intro k hc d hd
  obtain ⟨i, hi, hic, hik⟩ := hasKey_iff.mp hc
  obtain ⟨j, hj, hjd, hjk⟩ := hasKey_iff.mp hd
  have hjc := h i hi hic j hj (hjk.opcode.trans hik.opcode.symm)
  exact Option.some.inj (hjd.symm.trans hjc)

/-- Whether ids are distinct, and every component is there and is the only type of its opcode. -/
def SolelyBuilt (l : List Instruction) : Prop :=
  (definedIds l).Nodup ∧ Closed l ∧ ∀ i ∈ l, ∀ c ∈ i.component?, Sole l c

instance (l : List Instruction) : Decidable (SolelyBuilt l) :=
  inferInstanceAs (Decidable (_ ∧ _ ∧ ∀ i ∈ l, _))

theorem SolelyBuilt.wellBuilt (h : SolelyBuilt l) : WellBuilt l :=
  ⟨h.1, h.2.1, fun i hi c hc => (h.2.2 i hi c hc).unique⟩

/-! ## Keys when an instruction comes or goes -/

theorem mem_append_cons {j : Instruction} : j ∈ l ++ i :: r ↔ j = i ∨ j ∈ l ++ r := by
  simp only [List.mem_append, List.mem_cons]
  tauto

theorem subset_append_cons (l r : List Instruction) (i : Instruction) : l ++ r ⊆ l ++ i :: r :=
  fun _ hj => mem_append_cons.mpr (.inr hj)

/-- The id of an instruction is not among the other ones. -/
theorem not_mem_definedIds (hd : (definedIds (l ++ i :: r)).Nodup) (hid : i.resultId? = some id) :
    id ∉ definedIds (l ++ r) := by
  rw [definedIds_append, definedIds_cons, hid] at hd
  rw [definedIds_append]
  exact (List.nodup_cons.mp (List.nodup_middle.mp hd)).1

/-- An instruction that comes gives its id a key, and no other id one it did not have. -/
theorem hasKey_insert (hl : Closed (l ++ r)) (hd : (definedIds (l ++ i :: r)).Nodup) :
    HasKey (l ++ i :: r) id k ↔
      HasKey (l ++ r) id k ∨ (i.resultId? = some id ∧ i.Declares (HasKey (l ++ r)) k) := by
  constructor
  · intro h
    induction h with
    | @intro j id k resolve hj hid _ h ih =>
      rcases mem_append_cons.mp hj with rfl | hj
      · -- its own keys are none that its component could have
        refine .inr ⟨hid, h.mono fun c _ k' hnot hk => ?_⟩
        exact (ih c k' hk).resolve_right fun hi => hnot _ hi.2
      · refine .inl (hasKey_iff.mpr ⟨j, hj, hid, h.mono fun c hc k' _ hk => ?_⟩)
        exact (ih c k' hk).resolve_right fun hi => not_mem_definedIds hd hi.1 (hl j hj c hc)
  · rintro (h | ⟨hid, h⟩)
    · exact h.mono (subset_append_cons l r i)
    · refine hasKey_iff.mpr ⟨i, mem_append_cons.mpr (.inl rfl), hid, h.mono fun c _ k' _ hk => ?_⟩
      exact hk.mono (subset_append_cons l r i)

/-- Where ids are distinct, an id has one instruction. -/
theorem eq_of_resultId? {j : Instruction} (hd : (definedIds l).Nodup) (hi : i ∈ l) (hj : j ∈ l)
    (hid : i.resultId? = some id) (hjid : j.resultId? = some id) : j = i := by
  obtain ⟨a, b, rfl⟩ := List.append_of_mem hi
  rcases mem_append_cons.mp hj with rfl | hj
  · rfl
  · exact absurd (mem_definedIds hj hjid) (not_mem_definedIds hd hid)

/-- Where ids are distinct, the keys of an id are those that its own instruction declares. -/
theorem hasKey_iff_declares (hd : (definedIds l).Nodup) (hi : i ∈ l) (hid : i.resultId? = some id) :
    HasKey l id k ↔ i.Declares (HasKey l) k := by
  constructor
  · intro h
    obtain ⟨j, hj, hjid, hjk⟩ := hasKey_iff.mp h
    exact eq_of_resultId? hd hi hj hid hjid ▸ hjk
  · exact fun h => hasKey_iff.mpr ⟨i, hi, hid, h⟩

/-- An instruction without an id gives no key. -/
theorem hasKey_anonymous (hid : i.resultId? = none) :
    HasKey (l ++ r) id k ↔ HasKey (l ++ i :: r) id k := by
  constructor
  · exact fun h => h.mono (subset_append_cons l r i)
  · intro h
    refine h.transfer fun j hj hjid => ⟨j, (mem_append_cons.mp hj).resolve_left ?_, rfl⟩
    rintro rfl
    rw [hid] at hjid
    cases hjid

/-- An instruction that goes takes the keys of its id along, and no others. -/
theorem hasKey_erase (hd : (definedIds (l ++ i :: r)).Nodup) (hid : i.resultId? = some c)
    (hc : ∀ j ∈ l ++ i :: r, j.component? ≠ some c) :
    HasKey (l ++ r) id k ↔ HasKey (l ++ i :: r) id k ∧ id ≠ c := by
  constructor
  · intro h
    refine ⟨h.mono (subset_append_cons l r i), ?_⟩
    rintro rfl
    exact not_mem_definedIds hd hid h.defined
  · rintro ⟨h, hne⟩
    induction h with
    | @intro j id k resolve hj hjid _ h ih =>
      rcases mem_append_cons.mp hj with rfl | hjr
      · exact absurd (Option.some.inj (hjid.symm.trans hid)) hne
      · refine hasKey_iff.mpr ⟨j, hjr, hjid, h.mono fun d hd k' _ hk => ih d k' hk ?_⟩
        rintro rfl
        exact hc j hj hd

/-- When an instruction goes whose id is free, every component is still defined. -/
theorem Closed.erase (h : Closed (l ++ i :: r)) (hf : ∀ id ∈ i.resultId?, Free (l ++ i :: r) id) :
    Closed (l ++ r) := by
  intro j hj c hc
  have hj := subset_append_cons l r i hj
  obtain ⟨d, hd, hdc⟩ := List.mem_filterMap.mp (h j hj c hc)
  refine List.mem_filterMap.mpr ⟨d, (mem_append_cons.mp hd).resolve_left ?_, hdc⟩
  rintro rfl
  exact (hf c hdc).not_component j hj hc

/-- An instruction without a component may come without further ado. -/
theorem Closed.insert (h : Closed (l ++ r)) (hi : i.component? = none) : Closed (l ++ i :: r) := by
  intro j hj c hc
  rcases mem_append_cons.mp hj with rfl | hj
  · rw [hi] at hc
    cases hc
  · obtain ⟨d, hd, hdc⟩ := List.mem_filterMap.mp (h j hj c hc)
    exact mem_definedIds (subset_append_cons l r i hd) hdc

/-- A part of a well-built list is well built if its components are defined in it. -/
theorem WellBuilt.of_closed (hw : WellBuilt l') (hl : Closed l)
    (hd : (definedIds l).Sublist (definedIds l'))
    (hwords : ∀ i ∈ l, ∃ j ∈ l', j.words = i.words) : WellBuilt l := by
  refine ⟨hw.distinct.sublist hd, hl, fun i hi c hc => ?_⟩
  obtain ⟨j, hj, hji⟩ := hwords i hi
  rw [← Instruction.component?_congr hji] at hc
  exact (hw.unique j hj c hc).of_subset fun d k hk => hk.transfer fun i hi _ => hwords i hi

/-! ## Keys when instructions move along -/

theorem hasKey_shifted (removed added : Nat) :
    HasKey (l ++ r.map (.shifted removed added)) id k ↔ HasKey (l ++ r) id k := by
  constructor
  · intro h
    refine h.transfer fun i hi _ => ?_
    rcases List.mem_append.mp hi with hi | hi
    · exact ⟨i, List.mem_append_left _ hi, rfl⟩
    · obtain ⟨j, hj, rfl⟩ := List.mem_map.mp hi
      exact ⟨j, List.mem_append_right _ hj, rfl⟩
  · intro h
    refine h.transfer fun i hi _ => ?_
    rcases List.mem_append.mp hi with hi | hi
    · exact ⟨i, List.mem_append_left _ hi, rfl⟩
    · exact ⟨i.shifted removed added, List.mem_append_right _ (List.mem_map_of_mem hi), rfl⟩

theorem Closed.shifted (h : Closed (l ++ r)) (removed added : Nat) :
    Closed (l ++ r.map (.shifted removed added)) := by
  intro i hi c hc
  rw [definedIds_append, definedIds_shifted, ← definedIds_append]
  rcases List.mem_append.mp hi with hi | hi
  · exact h i (List.mem_append_left _ hi) c hc
  · obtain ⟨j, hj, rfl⟩ := List.mem_map.mp hi
    exact h j (List.mem_append_right _ hj) c hc

/-- Instructions without ids give no keys. -/
theorem hasKey_pad {n : List Instruction} (hn : definedIds n = []) :
    HasKey (l ++ (n ++ r)) id k ↔ HasKey (l ++ r) id k := by
  constructor
  · intro h
    refine h.transfer fun i hi hid => ⟨i, ?_, rfl⟩
    simp only [List.mem_append] at hi ⊢
    rcases hi with hi | hi | hi
    · exact .inl hi
    · obtain ⟨c, hc⟩ := Option.isSome_iff_exists.mp hid
      have hmem := mem_definedIds hi hc
      rw [hn] at hmem
      cases hmem
    · exact .inr hi
  · refine fun h => h.mono fun i hi => ?_
    simp only [List.mem_append] at hi ⊢
    exact hi.imp_right .inr

/-! ## Agreement of the table -/

namespace TypeTable

/-- Whether keys and ids lead to each other, every recorded key is one that instructions in `l`
give, and every key that they give is recorded. -/
structure Agrees (t : TypeTable) (l : List Instruction) : Prop where
  linked : ∀ id k, t.keyOf? id = some k ↔ t.get? k = some id
  sound : ∀ id k, t.keyOf? id = some k → HasKey l id k
  complete : ∀ id k, HasKey l id k → (t.get? k).isSome

namespace Agrees

variable {t t' : TypeTable}

/-- Structs do not matter. -/
theorem of_same (h : t.Agrees l) (hids : t'.ids = t.ids) (hkeys : t'.keys = t.keys)
    (hl : ∀ id k, HasKey l' id k ↔ HasKey l id k) : t'.Agrees l' := by
  refine ⟨Linked.congr h.linked hids hkeys, fun id k hk => ?_, fun id k hk => ?_⟩
  · rw [keyOf?_congr hkeys] at hk
    exact (hl id k).mpr (h.sound id k hk)
  · rw [get?_congr hids]
    exact h.complete id k ((hl id k).mp hk)

/-- The keys of an id that is the only one to have them are recorded for that id. -/
theorem resolves_iff (h : t.Agrees l) (hc : Unique l c) : t.Resolves c k ↔ HasKey l c k := by
  constructor
  · exact h.sound c k
  · intro hk
    obtain ⟨d, hd⟩ := Option.isSome_iff_exists.mp (h.complete c k hk)
    have hkey := (h.linked d k).mpr hd
    obtain rfl := hc k hk d (h.sound d k hkey)
    exact hkey

theorem decode_iff (h : t.Agrees l) (hc : ∀ c ∈ i.component?, Unique l c) :
    t.decode i = some k ↔ i.Declares (HasKey l) k := by
  rw [decode_eq_some]
  constructor
  · exact fun hi => hi.mono fun c hmem k' _ hk => (h.resolves_iff (hc c hmem)).mp hk
  · exact fun hi => hi.mono fun c hmem k' _ hk => (h.resolves_iff (hc c hmem)).mpr hk

theorem insert (h : t.Agrees l) (hid : id ∉ definedIds l)
    (hl : ∀ d k', HasKey l' d k' ↔ HasKey l d k' ∨ (d = id ∧ k' = k)) :
    (t.insert k id).Agrees l' := by
  cases hk : t.get? k with
  | some d =>
    rw [insert_of_isSome (hk ▸ rfl : (t.get? k).isSome)]
    refine ⟨h.linked, fun d k' hd => (hl d k').mpr (.inl (h.sound d k' hd)), fun d k' hd => ?_⟩
    rcases (hl d k').mp hd with hd | ⟨-, rfl⟩
    · exact h.complete d k' hd
    · exact hk ▸ rfl
  | none =>
    -- neither the key nor the id is in the table
    have hfresh (k' : TypeKey) : t.keyOf? id ≠ some k' := fun h' =>
      hid (h.sound id k' h').defined
    refine ⟨Linked.insert h.linked (Option.eq_none_iff_forall_ne_some.mpr hfresh), ?_, ?_⟩
    · intro d k' hd
      rw [keyOf?_insert hk] at hd
      rw [hl]
      split at hd
      · rename_i heq
        exact .inr ⟨heq.symm, (Option.some.inj hd).symm⟩
      · exact .inl (h.sound d k' hd)
    · intro d k' hd
      rw [get?_insert hk]
      split
      · rfl
      · rename_i hne
        exact h.complete d k' (((hl d k').mp hd).resolve_right fun heq => hne heq.2.symm)

theorem remove (h : t.Agrees l) (hid : Unique l id)
    (hl : ∀ d k', HasKey l' d k' ↔ HasKey l d k' ∧ d ≠ id) : (t.remove id).Agrees l' := by
  have hsound (d : Id) (k' : TypeKey) (hd : (t.remove id).keyOf? d = some k') : HasKey l' d k' := by
    obtain ⟨hne, hd⟩ := resolves_remove.mp hd
    exact (hl d k').mpr ⟨h.sound d k' hd, Ne.symm hne⟩
  cases hk : t.keyOf? id with
  | none =>
    rw [remove_of_none hk] at hsound ⊢
    exact ⟨h.linked, hsound, fun d k' hd => h.complete d k' ((hl d k').mp hd).1⟩
  | some k =>
    refine ⟨Linked.remove h.linked, hsound, fun d k' hd => ?_⟩
    obtain ⟨hd, hne⟩ := (hl d k').mp hd
    rw [get?_remove hk]
    split
    · rename_i heq
      obtain ⟨rfl, -⟩ := heq
      exact absurd (hid k (h.sound id k hk) d hd) hne
    · exact h.complete d k' hd

end Agrees

end TypeTable

namespace Index

/-- The table of types agrees with the instructions. -/
def Agrees (x : Index) (l : List Instruction) : Prop := x.types.Agrees l

variable {x : Index}

theorem Agrees.congr (h : x.Agrees l) (hl : ∀ id k, HasKey l' id k ↔ HasKey l id k) :
    x.Agrees l' := h.of_same rfl rfl hl

theorem Agrees.register (h : x.Agrees (l ++ r)) (policy : StructPolicy) (hl : Closed (l ++ r))
    (hw : WellBuilt (l ++ i :: r)) : (x.register policy i).Agrees (l ++ i :: r) := by
  have hins (id : Id) (k : TypeKey) : HasKey (l ++ i :: r) id k ↔
      HasKey (l ++ r) id k ∨ (i.resultId? = some id ∧ i.Declares (HasKey (l ++ r)) k) :=
    hasKey_insert hl hw.distinct
  have hunique : ∀ c ∈ i.component?, Unique (l ++ r) c := fun c hc =>
    (hw.unique i (mem_append_cons.mpr (.inl rfl)) c hc).of_subset
      fun d k hd => hd.mono (subset_append_cons l r i)
  have hdecode (k : TypeKey) : x.types.decode i = some k ↔ i.Declares (HasKey (l ++ r)) k :=
    TypeTable.Agrees.decode_iff h hunique
  cases x.register_gains policy i with
  | idle hids hkeys hno =>
    -- an instruction that declares nothing gives no key
    refine TypeTable.Agrees.of_same h hids hkeys fun id k => ?_
    rw [hins]
    refine ⟨fun h => h.resolve_right fun ⟨hid, hd⟩ => ?_, .inl⟩
    cases (hno id hid).symm.trans ((hdecode k).mpr hd)
  | @type id k hid hk hu =>
    rw [Agrees, hu]
    refine TypeTable.Agrees.insert h (not_mem_definedIds hw.distinct hid) fun d k' => ?_
    rw [hins, ← hdecode, hk, hid, Option.some.injEq, Option.some.injEq]
    simp only [eq_comm]

theorem Agrees.unregister (h : x.Agrees (l ++ i :: r)) (hd : (definedIds (l ++ i :: r)).Nodup)
    (hf : ∀ id ∈ i.resultId?, Free (l ++ i :: r) id) : (x.unregister i).Agrees (l ++ r) := by
  cases x.unregister_loses i with
  | idle hids hkeys hno =>
    refine TypeTable.Agrees.of_same h hids hkeys fun id k => ?_
    cases hid : i.resultId? with
    | none => exact hasKey_anonymous hid
    | some c =>
      -- an instruction that declares nothing has no key to take along
      rw [hasKey_erase hd hid (hf c hid).not_component]
      refine ⟨And.left, fun hk => ⟨hk, ?_⟩⟩
      rintro rfl
      have hi : i ∈ l ++ i :: r := mem_append_cons.mpr (.inl rfl)
      exact hno id hid _ _ ((hasKey_iff_declares hd hi hid).mp hk)
  | @type id hid hu =>
    have hfree := hf id hid
    rw [Agrees, hu]
    exact TypeTable.Agrees.remove h hfree.unique fun d k => hasKey_erase hd hid hfree.not_component

/-! ## Indexing from scratch -/

theorem agrees_foldl (policy : StructPolicy) (h : x.Agrees l) (hw : WellBuilt (l ++ r))
    (ho : Ordered (l ++ r)) : (r.foldl (register policy) x).Agrees (l ++ r) := by
  induction r generalizing x l with
  | nil => rwa [List.append_nil]
  | cons i r ih =>
    rw [List.append_cons] at hw ho ⊢
    refine ih ?_ hw ho
    have hw' := hw.left ho
    have hl := hw'.left (List.pairwise_append.mp ho).1
    have hx : x.Agrees (l ++ []) := by rwa [List.append_nil]
    exact hx.register policy (by rw [List.append_nil]; exact hl.closed) hw'

/-- The table of a module that is well built and has its components first. -/
theorem agrees_ofInstructions (policy : StructPolicy) (hw : WellBuilt l) (ho : Ordered l) :
    (ofInstructions policy l).Agrees l := by
  refine agrees_foldl (l := []) policy ?_ hw ho
  refine ⟨fun id k => ?_, fun id k hk => ?_, fun id k hk => ?_⟩
  · simp [empty, TypeTable.empty, TypeTable.keyOf?, TypeTable.get?]
  · simp [empty, TypeTable.empty, TypeTable.keyOf?] at hk
  · obtain ⟨i, hi, -⟩ := hasKey_iff.mp hk
    cases hi

end Index

end SpirvModule
