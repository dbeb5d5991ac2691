import SpirvModule.Proofs.Track

/-!
# What an instruction declares

Whether an instruction declares a type with a key can be said without the table of types, if
it is known which keys the constituents have that are part of the key. The table answers
that with the keys it has recorded.

Results:
* `decode_eq_some`: the key that is decoded is the one that the instruction declares when
  constituents have the keys that are recorded for them.
* `Declares.mono`: only the recorded key of one component matters.
* `TypeTable.get?_insert`, `TypeTable.get?_remove`, …: look-ups after a change of the table.
* `TypeTable.Linked.insert`, `TypeTable.Linked.remove`: keys and ids go on leading to each
  other.
* `Index.register_types`, `Index.unregister_types`: what entering or taking out an
  instruction does to the table.
* `Index.register_gains`, `Index.unregister_loses`: what it does to keys and ids.
-/
namespace SpirvModule

/-! ## Declarations -/

/-- The keys of types that an instruction declares, when `resolve` tells the keys of its
constituents. -/
inductive Instruction.Declares (resolve : Id → TypeKey → Prop) (i : Instruction) : TypeKey → Prop
  | void (hop : i.opcode? = some .opTypeVoid) : Declares resolve i (.scalar .void)
  | bool (hop : i.opcode? = some .opTypeBool) : Declares resolve i (.scalar .bool)
  | int {w width signed : Word} {r : List Word} (hop : i.opcode? = some .opTypeInt)
      (h : i.operands = w :: width :: signed :: r) :
      Declares resolve i (.scalar (.int width (signed ≠ 0)))
  | float {w width : Word} (hop : i.opcode? = some .opTypeFloat) (h : i.operands = [w, width]) :
      Declares resolve i (.scalar (.float width))
  | vector {w count : Word} {c : Id} {s : Scalar} {r : List Word}
      (hop : i.opcode? = some .opTypeVector) (h : i.operands = w :: c.value :: count :: r)
      (hc : resolve c (.scalar s)) : Declares resolve i (.vector ⟨s, count⟩)
  | matrix {w count : Word} {c : Id} {v : VectorType} {r : List Word}
      (hop : i.opcode? = some .opTypeMatrix) (h : i.operands = w :: c.value :: count :: r)
      (hc : resolve c (.vector v)) : Declares resolve i (.matrix ⟨v, count⟩)
  | pointer {w : Word} {storage : StorageClass} {base : Id} {r : List Word}
      (hop : i.opcode? = some .opTypePointer)
      (h : i.operands = w :: storage.value :: base.value :: r) :
      Declares resolve i (.pointer base storage)
  | image {w depth arrayed multisampled sampled : Word} {c : Id} {s : Scalar} {dim : Dim}
      {format : ImageFormat} (hop : i.opcode? = some .opTypeImage)
      (h : i.operands =
        [w, c.value, dim.value, depth, arrayed, multisampled, sampled, format.value])
      (hc : resolve c (.scalar s)) :
      Declares resolve i (.image ⟨s, dim, depth, arrayed ≠ 0, multisampled ≠ 0, sampled, format⟩)
  | sampler (hop : i.opcode? = some .opTypeSampler) : Declares resolve i .sampler
  | sampledImage {w : Word} {image : Id} {r : List Word}
      (hop : i.opcode? = some .opTypeSampledImage) (h : i.operands = w :: image.value :: r) :
      Declares resolve i (.sampledImage image)
  | function {w : Word} {result : Id} {arguments : List Id}
      (hop : i.opcode? = some .opTypeFunction)
      (h : i.operands = w :: result.value :: arguments.map Id.value) :
      Declares resolve i (.function result arguments)

/-- The opcode that types with a key are declared by. -/
def TypeKey.opcode : TypeKey → Opcode
  | .scalar .void => .opTypeVoid
  | .scalar .bool => .opTypeBool
  | .scalar (.int _ _) => .opTypeInt
  | .scalar (.float _) => .opTypeFloat
  | .vector _ => .opTypeVector
  | .matrix _ => .opTypeMatrix
  | .pointer _ _ => .opTypePointer
  | .image _ => .opTypeImage
  | .sampler => .opTypeSampler
  | .sampledImage _ => .opTypeSampledImage
  | .function _ _ => .opTypeFunction

/-- The constituent whose key is part of the key of what an instruction declares. -/
def Instruction.component? (i : Instruction) : Option Id :=
  match i.opcode? with
  | none => none
  | some op =>
    if op = .opTypeVector ∨ op = .opTypeMatrix ∨ op = .opTypeImage then i.idOperand? 1 else none

namespace Instruction

variable {resolve resolve' : Id → TypeKey → Prop} {i j : Instruction} {k : TypeKey}

theorem component?_of_operands {op : Opcode} {w : Word} {c : Id} {r : List Word}
    (hop : i.opcode? = some op) (h : op = .opTypeVector ∨ op = .opTypeMatrix ∨ op = .opTypeImage)
    (hr : i.operands = w :: c.value :: r) : i.component? = some c := by
  unfold component?
  simp [hop, h, idOperand?, hr]

theorem Declares.opcode (h : i.Declares resolve k) : i.opcode? = some k.opcode := by
  cases h <;> assumption

/-- Whatever its constituents are, an instruction declares keys of one opcode only. -/
theorem not_declares_of_opcode {op : Opcode} (hop : i.opcode? = some op) (hne : op ≠ k.opcode)
    (other : Id → TypeKey → Prop) : ¬ i.Declares other k :=
  fun h => hne (Option.some.inj (hop.symm.trans h.opcode))

/-- Only the keys of the component matter, and none that the instruction declares itself. -/
theorem Declares.mono (h : i.Declares resolve k)
    (hr : ∀ c ∈ i.component?, ∀ k', (∀ other, ¬ i.Declares other k') → resolve c k' →
      resolve' c k') :
    i.Declares resolve' k := by
  cases h with
  | void hop => exact .void hop
  | bool hop => exact .bool hop
  | int hop h => exact .int hop h
  | float hop h => exact .float hop h
  | @vector w count c s r hop h hc =>
    have hne : Opcode.opTypeVector ≠ (TypeKey.scalar s).opcode := by
      cases s <;> simp +decide only [TypeKey.opcode]
    exact .vector hop h (hr c (component?_of_operands hop (by decide) h) _
      (not_declares_of_opcode hop hne) hc)
  | @matrix w count c v r hop h hc =>
    have hne : Opcode.opTypeMatrix ≠ (TypeKey.vector v).opcode := by
      simp +decide only [TypeKey.opcode]
    exact .matrix hop h (hr c (component?_of_operands hop (by decide) h) _
      (not_declares_of_opcode hop hne) hc)
  | pointer hop h => exact .pointer hop h
  | @image w depth arrayed multisampled sampled c s dim format hop h hc =>
    have hne : Opcode.opTypeImage ≠ (TypeKey.scalar s).opcode := by
      cases s <;> simp +decide only [TypeKey.opcode]
    exact .image hop h (hr c (component?_of_operands hop (by decide) h) _
      (not_declares_of_opcode hop hne) hc)
  | sampler hop => exact .sampler hop
  | sampledImage hop h => exact .sampledImage hop h
  | function hop h => exact .function hop h

/-- Instructions with the same words differ in their place only. -/
theorem eq_of_words (hw : j.words = i.words) : j = { i with offset := j.offset } := by
  obtain ⟨p, w, us⟩ := i
  obtain ⟨q, v, vs⟩ := j
  obtain ⟨rfl, rfl⟩ := List.cons.inj hw
  rfl

theorem resultId?_congr (hw : j.words = i.words) : j.resultId? = i.resultId? := by
  rw [eq_of_words hw]
  rfl

theorem component?_congr (hw : j.words = i.words) : j.component? = i.component? := by
  rw [eq_of_words hw]
  rfl

/-- What an instruction declares does not depend on where it stands. -/
theorem Declares.congr (h : i.Declares resolve k) (hw : j.words = i.words) :
    j.Declares resolve k := by
  rw [eq_of_words hw]
  cases h with
  | void hop => exact .void hop
  | bool hop => exact .bool hop
  | int hop h => exact .int hop h
  | float hop h => exact .float hop h
  | vector hop h hc => exact .vector hop h hc
  | matrix hop h hc => exact .matrix hop h hc
  | pointer hop h => exact .pointer hop h
  | image hop h hc => exact .image hop h hc
  | sampler hop => exact .sampler hop
  | sampledImage hop h => exact .sampledImage hop h
  | function hop h => exact .function hop h

end Instruction

/-! ## Decoding -/

theorem Enumerant.ofWord?_eq_some {ranges : List (Nat × Nat)} {w : Word} {e : Enumerant ranges} :
    Enumerant.ofWord? w = some e ↔ e.value = w := by
  constructor
  · intro h
    unfold Enumerant.ofWord? at h
    split at h
    · cases h
      rfl
    · cases h
  · rintro rfl
    exact Enumerant.ofWord?_value e

theorem mapM_ofWord?_eq_some {ws : List Word} {is : List Id} :
    ws.mapM Id.ofWord? = some is ↔ is.map Id.value = ws := by
  induction ws generalizing is with
  | nil =>
    cases is <;> simp
  | cons w r ih =>
    simp only [List.mapM_cons, Option.bind_eq_bind, Option.bind_eq_some_iff, Option.pure_def,
      Option.some.injEq, Id.ofWord?_eq_some, ih]
    cases is with
    | nil => simp
    | cons i is =>
      simp only [List.cons.injEq, List.map_cons]
      constructor
      · rintro ⟨j, hj, js, hjs, rfl, rfl⟩
        exact ⟨hj, hjs⟩
      · rintro ⟨hi, his⟩
        exact ⟨i, hi, is, his, rfl, rfl⟩

namespace TypeTable

variable {t : TypeTable} {i : Instruction} {k : TypeKey} {c : Id}

theorem scalarOf?_eq_some {s : Scalar} :
    t.scalarOf? c = some s ↔ t.keyOf? c = some (.scalar s) := by
  unfold scalarOf?
  split
  · rename_i h
    simp [h]
  · rename_i hne
    simp only [reduceCtorEq, false_iff]
    exact hne s

theorem vectorOf?_eq_some {v : VectorType} :
    t.vectorOf? c = some v ↔ t.keyOf? c = some (.vector v) := by
  unfold vectorOf?
  split
  · rename_i h
    simp [h]
  · rename_i hne
    simp only [reduceCtorEq, false_iff]
    exact hne v

/-- The keys that are recorded for ids. -/
def Resolves (t : TypeTable) (c : Id) (k : TypeKey) : Prop := t.keyOf? c = some k

section
variable {ws : List Word}

theorem intKey_eq_some : intKey ws = some k ↔ ∃ w width signed r,
    ws = w :: width :: signed :: r ∧ k = .scalar (.int width (signed ≠ 0)) := by
  unfold intKey
  split
  · simp [eq_comm]
  · simp_all

theorem floatKey_eq_some : floatKey ws = some k ↔ ∃ w width,
    ws = [w, width] ∧ k = .scalar (.float width) := by
  unfold floatKey
  split
  · simp [eq_comm]
  · simp_all

theorem vectorKey_eq_some : t.vectorKey ws = some k ↔ ∃ w c count r s,
    ws = w :: Id.value c :: count :: r ∧ t.Resolves c (.scalar s) ∧ k = .vector ⟨s, count⟩ := by
  unfold vectorKey Resolves
  split
  · simp only [Option.bind_eq_bind, Option.bind_eq_some_iff, Id.ofWord?_eq_some, scalarOf?_eq_some,
      Option.pure_def, Option.some.injEq]
    constructor
    · rintro ⟨c, rfl, s, hs, rfl⟩
      exact ⟨_, c, _, _, s, rfl, hs, rfl⟩
    · rintro ⟨_, c, _, _, s, h, hs, rfl⟩
      cases h
      exact ⟨c, rfl, s, hs, rfl⟩
  · simp_all

theorem matrixKey_eq_some : t.matrixKey ws = some k ↔ ∃ w c count r v,
    ws = w :: Id.value c :: count :: r ∧ t.Resolves c (.vector v) ∧ k = .matrix ⟨v, count⟩ := by
  unfold matrixKey Resolves
  split
  · simp only [Option.bind_eq_bind, Option.bind_eq_some_iff, Id.ofWord?_eq_some, vectorOf?_eq_some,
      Option.pure_def, Option.some.injEq]
    constructor
    · rintro ⟨c, rfl, v, hv, rfl⟩
      exact ⟨_, c, _, _, v, rfl, hv, rfl⟩
    · rintro ⟨_, c, _, _, v, h, hv, rfl⟩
      cases h
      exact ⟨c, rfl, v, hv, rfl⟩
  · simp_all

theorem pointerKey_eq_some : pointerKey ws = some k ↔ ∃ w storage base r,
    ws = w :: Enumerant.value storage :: Id.value base :: r ∧ k = .pointer base storage := by
  unfold pointerKey
  split
  · simp only [Option.bind_eq_bind, Option.bind_eq_some_iff, Id.ofWord?_eq_some,
      Enumerant.ofWord?_eq_some, Option.pure_def, Option.some.injEq]
    constructor
    · rintro ⟨storage, rfl, base, rfl, rfl⟩
      exact ⟨_, storage, base, _, rfl, rfl⟩
    · rintro ⟨_, storage, base, _, h, rfl⟩
      cases h
      exact ⟨storage, rfl, base, rfl, rfl⟩
  · simp_all

theorem imageKey_eq_some : t.imageKey ws = some k ↔
    ∃ w c dim depth arrayed multisampled sampled format s,
      ws = [w, Id.value c, Enumerant.value dim, depth, arrayed, multisampled, sampled,
        Enumerant.value format] ∧ t.Resolves c (.scalar s) ∧
      k = .image ⟨s, dim, depth, arrayed ≠ 0, multisampled ≠ 0, sampled, format⟩ := by
  unfold imageKey Resolves
  split
  · simp only [Option.bind_eq_bind, Option.bind_eq_some_iff, Id.ofWord?_eq_some,
      Enumerant.ofWord?_eq_some, scalarOf?_eq_some, Option.pure_def, Option.some.injEq]
    constructor
    · rintro ⟨c, rfl, s, hs, dim, rfl, format, rfl, rfl⟩
      exact ⟨_, c, dim, _, _, _, _, format, s, rfl, hs, rfl⟩
    · rintro ⟨_, c, dim, _, _, _, _, format, s, h, hs, rfl⟩
      cases h
      exact ⟨c, rfl, s, hs, dim, rfl, format, rfl, rfl⟩
  · simp_all

theorem sampledImageKey_eq_some : sampledImageKey ws = some k ↔ ∃ w image r,
    ws = w :: Id.value image :: r ∧ k = .sampledImage image := by
  unfold sampledImageKey
  split
  · simp only [Option.map_eq_some_iff, Id.ofWord?_eq_some]
    constructor
    · rintro ⟨image, rfl, rfl⟩
      exact ⟨_, image, _, rfl, rfl⟩
    · rintro ⟨_, image, _, h, rfl⟩
      cases h
      exact ⟨image, rfl, rfl⟩
  · simp_all

theorem functionKey_eq_some : functionKey ws = some k ↔ ∃ w result arguments,
    ws = w :: Id.value result :: arguments.map Id.value ∧ k = .function result arguments := by
  unfold functionKey
  split
  · simp only [Option.bind_eq_bind, Option.bind_eq_some_iff, Id.ofWord?_eq_some,
      mapM_ofWord?_eq_some, Option.pure_def, Option.some.injEq]
    constructor
    · rintro ⟨result, rfl, arguments, rfl, rfl⟩
      exact ⟨_, result, arguments, rfl, rfl⟩
    · rintro ⟨_, result, arguments, h, rfl⟩
      cases h
      exact ⟨result, rfl, arguments, rfl, rfl⟩
  · simp_all

end

theorem declares_of_decode (h : t.decode i = some k) : i.Declares t.Resolves k := by
  unfold decode at h
  cases hop : i.opcode? with
  | none =>
    rw [hop] at h
    cases h
  | some op =>
    rw [hop] at h
    dsimp only at h
    by_cases heq : op = .opTypeVoid
    · rw [if_pos heq] at h
      cases h
      exact .void (heq ▸ hop)
    rw [if_neg heq] at h
    clear heq
    by_cases heq : op = .opTypeBool
    · rw [if_pos heq] at h
      cases h
      exact .bool (heq ▸ hop)
    rw [if_neg heq] at h
    clear heq
    by_cases heq : op = .opTypeInt
    · rw [if_pos heq] at h
      obtain ⟨w, width, signed, r, hops, rfl⟩ := intKey_eq_some.mp h
      exact .int (heq ▸ hop) hops
    rw [if_neg heq] at h
    clear heq
    by_cases heq : op = .opTypeFloat
    · rw [if_pos heq] at h
      obtain ⟨w, width, hops, rfl⟩ := floatKey_eq_some.mp h
      exact .float (heq ▸ hop) hops
    rw [if_neg heq] at h
    clear heq
    by_cases heq : op = .opTypeVector
    · rw [if_pos heq] at h
      obtain ⟨w, c, count, r, s, hops, hs, rfl⟩ := vectorKey_eq_some.mp h
      exact .vector (heq ▸ hop) hops hs
    rw [if_neg heq] at h
    clear heq
    by_cases heq : op = .opTypeMatrix
    · rw [if_pos heq] at h
      obtain ⟨w, c, count, r, v, hops, hv, rfl⟩ := matrixKey_eq_some.mp h
      exact .matrix (heq ▸ hop) hops hv
    rw [if_neg heq] at h
    clear heq
    by_cases heq : op = .opTypePointer
    · rw [if_pos heq] at h
      obtain ⟨w, storage, base, r, hops, rfl⟩ := pointerKey_eq_some.mp h
      exact .pointer (heq ▸ hop) hops
    rw [if_neg heq] at h
    clear heq
    by_cases heq : op = .opTypeImage
    · rw [if_pos heq] at h
      obtain ⟨w, c, dim, _, _, _, _, format, s, hops, hs, rfl⟩ := imageKey_eq_some.mp h
      exact .image (heq ▸ hop) hops hs
    rw [if_neg heq] at h
    clear heq
    by_cases heq : op = .opTypeSampler
    · rw [if_pos heq] at h
      cases h
      exact .sampler (heq ▸ hop)
    rw [if_neg heq] at h
    clear heq
    by_cases heq : op = .opTypeSampledImage
    · rw [if_pos heq] at h
      obtain ⟨w, image, r, hops, rfl⟩ := sampledImageKey_eq_some.mp h
      exact .sampledImage (heq ▸ hop) hops
    rw [if_neg heq] at h
    clear heq
    by_cases heq : op = .opTypeFunction
    · rw [if_pos heq] at h
      obtain ⟨w, result, arguments, hops, rfl⟩ := functionKey_eq_some.mp h
      exact .function (heq ▸ hop) hops
    rw [if_neg heq] at h
    clear heq
    cases h

theorem decode_of_declares (h : i.Declares t.Resolves k) : t.decode i = some k := by
  rw [decode, h.opcode]
  dsimp only
  -- the opcodes are looked for one after the other
  cases h with
  | void hop => exact if_pos rfl
  | bool hop =>
    rw [TypeKey.opcode, if_neg (by decide)]
    exact if_pos rfl
  | int hop h =>
    rw [TypeKey.opcode]
    iterate 2 rw [if_neg (by decide)]
    exact (if_pos rfl).trans (intKey_eq_some.mpr ⟨_, _, _, _, h, rfl⟩)
  | float hop h =>
    rw [TypeKey.opcode]
    iterate 3 rw [if_neg (by decide)]
    exact (if_pos rfl).trans (floatKey_eq_some.mpr ⟨_, _, h, rfl⟩)
  | vector hop h hc =>
    rw [TypeKey.opcode]
    iterate 4 rw [if_neg (by decide)]
    exact (if_pos rfl).trans (vectorKey_eq_some.mpr ⟨_, _, _, _, _, h, hc, rfl⟩)
  | matrix hop h hc =>
    rw [TypeKey.opcode]
    iterate 5 rw [if_neg (by decide)]
    exact (if_pos rfl).trans (matrixKey_eq_some.mpr ⟨_, _, _, _, _, h, hc, rfl⟩)
  | pointer hop h =>
    rw [TypeKey.opcode]
    iterate 6 rw [if_neg (by decide)]
    exact (if_pos rfl).trans (pointerKey_eq_some.mpr ⟨_, _, _, _, h, rfl⟩)
  | image hop h hc =>
    rw [TypeKey.opcode]
    iterate 7 rw [if_neg (by decide)]
    exact (if_pos rfl).trans (imageKey_eq_some.mpr ⟨_, _, _, _, _, _, _, _, _, h, hc, rfl⟩)
  | sampler hop =>
    rw [TypeKey.opcode]
    iterate 8 rw [if_neg (by decide)]
    exact if_pos rfl
  | sampledImage hop h =>
    rw [TypeKey.opcode]
    iterate 9 rw [if_neg (by decide)]
    exact (if_pos rfl).trans (sampledImageKey_eq_some.mpr ⟨_, _, _, h, rfl⟩)
  | function hop h =>
    rw [TypeKey.opcode]
    iterate 10 rw [if_neg (by decide)]
    exact (if_pos rfl).trans (functionKey_eq_some.mpr ⟨_, _, _, h, rfl⟩)

/-- The key that is decoded is the one that an instruction declares by the recorded keys. -/
theorem decode_eq_some : t.decode i = some k ↔ i.Declares t.Resolves k :=
  ⟨declares_of_decode, decode_of_declares⟩

/-! ## Changes of the table -/

section
variable {k' : TypeKey} {d : Id} {ms : List Id}

theorem insert_of_isSome (h : (t.get? k).isSome) : t.insert k c = t := by
  rw [insert, if_pos h]

theorem insert_of_none (h : t.get? k = none) :
    t.insert k c = { t with ids := t.ids.insert k c, keys := t.keys.insert c k } := by
  rw [insert, h]
  rfl

theorem get?_insert (h : t.get? k = none) :
    (t.insert k c).get? k' = if k = k' then some c else t.get? k' := by
  rw [insert_of_none h, get?, Std.ExtTreeMap.getElem?_insert]
  simp only [Std.compare_eq_iff_eq]
  rfl

theorem keyOf?_insert (h : t.get? k = none) :
    (t.insert k c).keyOf? d = if c = d then some k else t.keyOf? d := by
  rw [insert_of_none h, keyOf?, Std.ExtTreeMap.getElem?_insert]
  simp only [Std.compare_eq_iff_eq]
  rfl

theorem remove_of_none (h : t.keyOf? c = none) : t.remove c = t := by
  rw [remove, h]

theorem keyOf?_remove : (t.remove c).keyOf? d = if c = d then none else t.keyOf? d := by
  unfold remove
  split
  · rename_i hc
    split
    · rename_i heq
      exact heq ▸ hc
    · rfl
  · rw [keyOf?, Std.ExtTreeMap.getElem?_erase]
    simp only [Std.compare_eq_iff_eq]
    rfl

/-- Only the key of an id that is forgotten can lose what it leads to. -/
theorem get?_remove (h : t.keyOf? c = some k) :
    (t.remove c).get? k' = if k = k' ∧ t.get? k = some c then none else t.get? k' := by
  unfold remove
  rw [h]
  dsimp only
  split
  · rename_i hk
    rw [get?, Std.ExtTreeMap.getElem?_erase]
    simp only [Std.compare_eq_iff_eq, hk, and_true]
    rfl
  · rename_i hk
    simp only [hk, and_false, if_false]
    rfl

theorem get?_congr {u : TypeTable} (h : u.ids = t.ids) : u.get? k = t.get? k := by
  rw [get?, h, get?]

theorem keyOf?_congr {u : TypeTable} (h : u.keys = t.keys) : u.keyOf? c = t.keyOf? c := by
  rw [keyOf?, h, keyOf?]

/-- Whether keys and ids lead to each other. -/
def Linked (t : TypeTable) : Prop := ∀ id k, t.keyOf? id = some k ↔ t.get? k = some id

theorem Linked.congr {u : TypeTable} (h : t.Linked) (hids : u.ids = t.ids)
    (hkeys : u.keys = t.keys) : u.Linked := by
  intro id k
  rw [keyOf?_congr hkeys, get?_congr hids]
  exact h id k

/-- A declaration may come in whose id has no key yet. -/
theorem Linked.insert (h : t.Linked) (hc : t.keyOf? c = none) : (t.insert k c).Linked := by
  cases hk : t.get? k with
  | some d => rwa [insert_of_isSome (hk ▸ rfl : (t.get? k).isSome)]
  | none =>
    intro d k'
    rw [keyOf?_insert hk, get?_insert hk]
    by_cases hd : c = d
    · by_cases hk' : k = k'
      · simp [hd, hk']
      · subst hd
        simp [hk', ← h c, hc]
    · by_cases hk' : k = k'
      · subst hk'
        simp [hd, h d, hk]
      · simp [hd, hk', h d]

theorem Linked.remove (h : t.Linked) : (t.remove c).Linked := by
  cases hc : t.keyOf? c with
  | none => rwa [remove_of_none hc]
  | some k =>
    have hget : t.get? k = some c := (h c k).mp hc
    intro d k'
    rw [keyOf?_remove, get?_remove hc]
    simp only [hget, and_true]
    by_cases hd : c = d
    · by_cases hk' : k = k'
      · simp [hd, hk']
      · subst hd
        simp [hk', ← h c, hc]
    · by_cases hk' : k = k'
      · subst hk'
        simp [hd, h d, hget]
      · simp [hd, hk', h d]

theorem ids_insertStruct : (t.insertStruct ms c).ids = t.ids := by
  unfold insertStruct
  split <;> rfl

theorem keys_insertStruct : (t.insertStruct ms c).keys = t.keys := by
  unfold insertStruct
  split <;> rfl

theorem ids_removeStruct : (t.removeStruct ms c).ids = t.ids := by
  unfold removeStruct
  split <;> rfl

theorem keys_removeStruct : (t.removeStruct ms c).keys = t.keys := by
  unfold removeStruct
  split <;> rfl

theorem structs_insert : (t.insert k c).structs = t.structs := by
  unfold insert
  split <;> rfl

theorem structs_remove : (t.remove c).structs = t.structs := by
  unfold remove
  split <;> rfl

theorem ext {u : TypeTable} (hids : ∀ k, t.get? k = u.get? k) (hkeys : ∀ c, t.keyOf? c = u.keyOf? c)
    (hstructs : ∀ ms, t.getStruct? ms = u.getStruct? ms) : t = u := by
  obtain ⟨ids, keys, structs⟩ := t
  obtain ⟨ids', keys', structs'⟩ := u
  obtain rfl : ids = ids' := Std.ExtTreeMap.ext_getElem? fun {k} => hids k
  obtain rfl : keys = keys' := Std.ExtTreeMap.ext_getElem? fun {c} => hkeys c
  obtain rfl : structs = structs' := Std.ExtTreeMap.ext_getElem? fun {ms} => hstructs ms
  rfl

/-- Every id but the one that is forgotten keeps its key. -/
theorem resolves_remove : (t.remove c).Resolves d k ↔ c ≠ d ∧ t.Resolves d k := by
  rw [Resolves, Resolves, keyOf?_remove]
  split <;> simp [*]

/-- What is decoded without the key of an id is decoded with it. -/
theorem decode_of_remove (h : (t.remove c).decode i = some k) : t.decode i = some k := by
  rw [decode_eq_some] at h ⊢
  exact h.mono fun d _ k' _ hk => (resolves_remove.mp hk).2

end

end TypeTable

/-! ## What registering does to the table -/

/-- The opcodes of all keys. -/
def TypeKey.opcodes : List Opcode :=
  [.opTypeVoid, .opTypeBool, .opTypeInt, .opTypeFloat, .opTypeVector, .opTypeMatrix,
    .opTypePointer, .opTypeImage, .opTypeSampler, .opTypeSampledImage, .opTypeFunction]

theorem TypeKey.opcode_mem (k : TypeKey) : k.opcode ∈ opcodes := by
  cases k with
  | scalar s => cases s <;> simp [opcode, opcodes]
  | _ => simp [opcode, opcodes]

/-- An instruction that declares a type tells no fact and is no struct. -/
theorem Instruction.Declares.plain {resolve : Id → TypeKey → Prop} {i : Instruction} {k : TypeKey}
    (h : i.Declares resolve k) :
    Fact.ofInstruction? i = none ∧ i.opcode? ≠ some .opTypeStruct := by
  have hall : ∀ op ∈ TypeKey.opcodes, op ∉ [Opcode.opDecorate, .opName, .opMemberName,
      .opExtInstImport, .opEntryPoint, .opTypeStruct] := by decide
  have hnot := hall _ k.opcode_mem
  simp only [List.mem_cons, List.not_mem_nil, or_false, not_or] at hnot
  rw [Fact.ofInstruction?, h.opcode]
  simp [hnot]

/-- What an instruction adds to an index, as far as it does not depend on the declared types. -/
inductive Instruction.Role (i : Instruction) : Prop
  | fact (f : Fact) (hd : ∀ resolve k, ¬ i.Declares resolve k)
      (h : ∀ t, Contribution.of t i = .fact f)
  | struct (id : Id) (members : List Id) (hid : i.resultId? = some id)
      (hop : i.opcode? = some .opTypeStruct) (h : ∀ t, Contribution.of t i = .struct id members)
  | anonymous (hid : i.resultId? = none) (h : ∀ t, Contribution.of t i = .nothing)
  | decoded (id : Id) (hid : i.resultId? = some id)
      (h : ∀ t, Contribution.of t i = match t.decode i with
        | some k => .type id k
        | none => .nothing)

theorem Instruction.role (i : Instruction) : i.Role := by
  cases hf : Fact.ofInstruction? i with
  | some f =>
    refine .fact f (fun resolve k h => ?_) fun t => Index.contribution_fact i t hf
    cases hf.symm.trans h.plain.1
  | none =>
    cases hid : i.resultId? with
    | none =>
      refine .anonymous hid fun t => ?_
      rw [Contribution.of, hf, hid]
    | some id =>
      by_cases hop : i.opcode? = some .opTypeStruct
      · refine .struct id ((i.operands.drop 1).filterMap Id.ofWord?) hid hop fun t => ?_
        rw [Contribution.of, hf, hid]
        exact if_pos hop
      · refine .decoded id hid fun t => ?_
        rw [Contribution.of, hf, hid]
        exact if_neg hop

namespace Index

variable (policy : StructPolicy) (x : Index) (i : Instruction)

theorem register_types :
    (x.register policy i).types = match Contribution.of x.types i with
      | .fact _ | .nothing => x.types
      | .struct id members =>
        if policy = .byMembers then x.types.insertStruct members id else x.types
      | .type id k => x.types.insert k id := by
  unfold register
  cases i.resultId? with
  | none | some =>
    dsimp only
    cases Contribution.of x.types i with
    | struct =>
      dsimp only
      split <;> rfl
    | _ => rfl

theorem unregister_types :
    (x.unregister i).types = match Contribution.of x.types i with
      | .fact _ => x.types
      | .struct id members => x.types.removeStruct members id
      | .type id _ => x.types.remove id
      | .nothing => match i.resultId? with
        | none => x.types
        | some id => x.types.remove id := by
  unfold unregister
  cases i.resultId? with
  | none =>
    dsimp only
    cases Contribution.of x.types i <;> rfl
  | some id =>
    by_cases h : x.definitions[id]? = some i.offset
    all_goals
      simp only [h, if_true, if_false]
      cases Contribution.of x.types i <;> rfl

end Index

/-- What entering an instruction does to keys and ids: nothing, or it declares a key. -/
inductive TypeTable.Gains (t : TypeTable) (i : Instruction) (u : TypeTable) : Prop
  | idle (hids : u.ids = t.ids) (hkeys : u.keys = t.keys)
      (hno : ∀ id ∈ i.resultId?, t.decode i = none) : Gains t i u
  | type {id : Id} {k : TypeKey} (hid : i.resultId? = some id) (hk : t.decode i = some k)
      (hu : u = t.insert k id) : Gains t i u

/-- What taking an instruction out does to keys and ids: nothing, or its id is forgotten. -/
inductive TypeTable.Loses (t : TypeTable) (i : Instruction) (u : TypeTable) : Prop
  | idle (hids : u.ids = t.ids) (hkeys : u.keys = t.keys)
      (hno : ∀ id ∈ i.resultId?, ∀ resolve k, ¬ i.Declares resolve k) : Loses t i u
  | type {id : Id} (hid : i.resultId? = some id) (hu : u = t.remove id) : Loses t i u

namespace Index

variable (policy : StructPolicy) (x : Index) (i : Instruction)

theorem register_gains : x.types.Gains i (x.register policy i).types := by
  have hidle (hno : ∀ resolve k, ¬ i.Declares resolve k) : x.types.decode i = none := by
    rw [Option.eq_none_iff_forall_ne_some]
    exact fun k hk => hno _ k (TypeTable.declares_of_decode hk)
  rw [register_types]
  cases i.role with
  | fact f hno h =>
    rw [h]
    exact .idle rfl rfl fun _ _ => hidle hno
  | struct id members hid hop h =>
    rw [h]
    dsimp only
    have hno : ∀ id ∈ i.resultId?, x.types.decode i = none :=
      fun _ _ => hidle fun _ _ hd => hd.plain.2 hop
    split
    · exact .idle TypeTable.ids_insertStruct TypeTable.keys_insertStruct hno
    · exact .idle rfl rfl hno
  | anonymous hid h =>
    rw [h]
    exact .idle rfl rfl (by simp [hid])
  | decoded id hid h =>
    rw [h]
    cases hk : x.types.decode i with
    | none => exact .idle rfl rfl fun _ _ => hk
    | some k => exact .type hid hk rfl

theorem unregister_loses : x.types.Loses i (x.unregister i).types := by
  rw [unregister_types]
  cases i.role with
  | fact f hno h =>
    rw [h]
    exact .idle rfl rfl fun _ _ => hno
  | struct id members hid hop h =>
    rw [h]
    exact .idle TypeTable.ids_removeStruct TypeTable.keys_removeStruct
      fun _ _ _ _ hd => hd.plain.2 hop
  | anonymous hid h =>
    rw [h, hid]
    exact .idle rfl rfl (by simp [hid])
  | decoded id hid h =>
    rw [h, hid]
    cases x.types.decode i <;> exact .type hid rfl

end Index

end SpirvModule
