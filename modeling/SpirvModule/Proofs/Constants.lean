import SpirvModule.Proofs.Declaring

/-!
# Constants

A constant is added behind the declaration of its type, which is added as well if it is not
there. The number under which it may be overridden is told by a decoration in an earlier
section, so that the constant moves along, and its place with it. Constants are never shared:
each has an id of its own, while all of a type have the id of that type in common.

* `Scalar.declaration`, `Operation.immediate`, `Operation.overriding`: what is added.
* `Session.AddsConstant`: what a constant that was added does to a session.
* `Session.ClosesWith`: the last instruction of a section, and the id that is located there.
* `Session.replies`: the answers to some commands.

Results:
* `Edit.typedConstant_yields`: a constant and its type are added.
* `AddsConstant.decorated`: what a decoration changes afterwards.
* `Reached.immediates_added`: what every call adds, and what several calls add.
-/
namespace SpirvModule

open Session

/-! ## What is added -/

/-- The operation that declares a scalar as `i`. -/
def Scalar.declaration (c : Scalar) (i : Id) : Operation :=
  match c with
  | .void => ⟨.opTypeVoid, [i.value]⟩
  | .bool => ⟨.opTypeBool, [i.value]⟩
  | .int width signed => ⟨.opTypeInt, [i.value, width, if signed then 1 else 0]⟩
  | .float width => ⟨.opTypeFloat, [i.value, width]⟩

/-- A scalar is declared in the same way in every module. -/
theorem TypeTable.declaration_scalar (t : TypeTable) (c : Scalar) (i : Id) :
    t.declaration (.scalar c) i = .ok (c.declaration i) := by
  cases c <;> rfl

/-- A decoration defines no id. -/
theorem Operation.resultId?_decorate (i : Id) (d : Decoration) (ws : List Word) :
    (decorate i d ws).resultId? = none := by
  have hindex : Opcode.resultIndex? .opDecorate = none := by decide +kernel
  simp [resultId?, decorate, hindex]

/-- Adds a constant that holds `v`. One with a number may be overridden under it. -/
def Command.immediate (v : Immediate) : Option Word → Command
  | none => .addConstantImmediate v
  | some n => .addSpecConstantImmediate v n

namespace Operation

/-- The constant `i` of type `type` that holds `v`. -/
def immediate (type i : Id) (v : Immediate) : Option Word → Operation
  | none => .constant type i v.words
  | some _ => .specConstant type i v.words

/-- The decoration that tells under which number `i` may be overridden. -/
def overriding (i : Id) (number : Option Word) : List Operation :=
  (number.map fun n => decorate i .specId [n]).toList

/-- The constants of type `type` that hold `v`, one for each id. -/
def immediates (type : Id) (v : Immediate) (is : List Id) (numbers : List (Option Word)) :
    List Operation :=
  List.zipWith (fun i number => immediate type i v number) is numbers

end Operation

namespace Session

/-- The declaration of a scalar as `type`, if it is not there. -/
def lacking (s : Session) (c : Scalar) (type : Id) : List Operation :=
  if (s.getType? (.scalar c)).isSome then [] else [c.declaration type]

/-- What the constant `op` of type `c`, added with the id `i` and some decorations, makes of `s`. -/
structure AddsConstant (s : Session) (c : Scalar) (op : Operation) (notes : List Operation)
    (type i : Id) (t : Session) : Prop where
  found : t.getType? (.scalar c) = some type
  shared : ∀ j, s.getType? (.scalar c) = some j → j = type
  types : t.contents .types =
    s.contents .types ++ (s.lacking c type ++ [op]).map Operation.words
  annotations : t.contents .annotations = s.contents .annotations ++ notes.map Operation.words
  others : ∀ sec, sec ≠ .types → sec ≠ .annotations → t.contents sec = s.contents sec
  allocated : s.bound ≤ i.value
  newest : i.succ? = some t.fresh
  located : ∃ j, (t.instructions .types).getLast? = some j ∧ t.locate? i = some j.offset
  frame : t.frame = s.frame

/-- What the search for a scalar makes of `s` if it ends with the id `type`. -/
structure FindsScalar (s : Session) (c : Scalar) (type : Id) (t : Session) : Prop where
  found : t.getType? (.scalar c) = some type
  shared : ∀ j, s.getType? (.scalar c) = some j → j = type
  contents : t.contents = s.contents.append .types ((s.lacking c type).map Operation.words)
  rises : s.bound ≤ t.bound
  frame : t.frame = s.frame

/-- Whether section `sec` ends with the words `d`, which are where `i` is located. -/
def ClosesWith (t : Session) (sec : Section) (d : List Word) (i : Id) : Prop :=
  ∃ cs, t.contents sec = cs ++ [d] ∧
    t.locate? i = some (t.contents.start sec + cs.flatten.length)

variable {s t u : Session} {m m' : Outline} {sec : Section} {op note : Operation} {c : Scalar}
  {notes : List Operation} {type i : Id} {d : List Word}

namespace ClosesWith

/-- The end of a section moves along when an operation without an id comes to an earlier one. -/
theorem grows {late : Section} (h : t.ClosesWith late d i) (ht : t.Shows m)
    (htu : t.Grows sec note u) (hu : u.Shows m') (hsec : sec ∈ late.before)
    (hnote : note.resultId? = none) : u.ClosesWith late d i := by
  obtain ⟨cs, hcontents, hlocated⟩ := h
  have hne : late ≠ sec := fun heq => Section.not_mem_before late (heq ▸ hsec)
  have hcontents' : u.contents late = cs ++ [d] := by
    rw [htu.contents, Contents.append, Function.update_of_ne hne, hcontents]
  have hbehind : t.sectionStop sec ≤ t.contents.start late := by
    rw [ht.sectionStop_contents]
    exact t.contents.stop_le_start hsec
  have hstart : u.contents.start late = t.contents.start late + note.wordCount := by
    have hstop := htu.sectionStop ht hu late
    rw [hu.sectionStop_contents, ht.sectionStop_contents, Contents.stop, Contents.stop, hcontents,
      hcontents', if_pos (Fin.le_of_lt (Section.index_lt_of_mem hsec))] at hstop
    omega
  refine ⟨cs, hcontents', ?_⟩
  have hplace : t.index.definitions[i]? = some (t.contents.start late + cs.flatten.length) :=
    hlocated
  rw [locate?, Index.definition?, htu.index, Index.definitions_admitted, hnote,
    if_neg (Option.some_ne_none i).symm, hplace, Option.map_some, if_neg (by omega), hstart]
  congr 1
  omega

theorem getLast? (h : t.ClosesWith sec d i) (ht : t.Shows m) :
    ∃ j, (t.instructions sec).getLast? = some j ∧ t.locate? i = some j.offset := by
  obtain ⟨cs, hcontents, hlocated⟩ := h
  exact ⟨_, ht.getLast?_instructions hcontents, hlocated⟩

/-- What is read where the id is located is the end of the section. -/
theorem instruction? (h : t.ClosesWith sec d i) (ht : t.Shows m) :
    ∃ p, t.locate? i = some p ∧ t.instruction? p = some (.ofChunk p d) := by
  obtain ⟨cs, hcontents, hlocated⟩ := h
  have hsplit : m.Splits sec (t.contents.start sec + cs.flatten.length) cs [d] [] := by
    rw [ht.contents_eq] at hcontents ⊢
    exact ⟨by simpa using hcontents, rfl⟩
  exact ⟨_, hlocated, ht.instruction?_of_splits hsplit⟩

end ClosesWith

/-- A constant that was added is the end of the types. -/
theorem AddsConstant.closesWith (hst : s.AddsConstant c op notes type i t) (ht : t.Shows m) :
    t.ClosesWith .types op.words i := by
  obtain ⟨cs, htypes⟩ : ∃ cs, t.contents .types = cs ++ [op.words] :=
    ⟨_, by rw [hst.types, List.map_append, ← List.append_assoc]; rfl⟩
  obtain ⟨j, hj, hlocated⟩ := hst.located
  obtain rfl := Option.some.inj ((ht.getLast?_instructions htypes).symm.trans hj)
  exact ⟨cs, htypes, hlocated⟩

/-- A decoration moves the constant along, and leaves everything else but its own section alone. -/
theorem AddsConstant.decorated (hst : s.AddsConstant c op [] type i t) (ht : t.Shows m)
    (htu : t.Grows .annotations note u) (hu : u.Shows m') (hnote : note.resultId? = none) :
    s.AddsConstant c op [note] type i u := by
  have hsec (sec : Section) (h : sec ≠ .annotations) : u.contents sec = t.contents sec := by
    rw [htu.contents, Contents.append, Function.update_of_ne h]
  have hfresh : u.fresh = t.fresh := by
    rw [htu.fresh, Operation.freshAfter, hnote]
    rfl
  have hcloses := (hst.closesWith ht).grows ht htu hu (by decide) hnote
  refine ⟨?_, hst.shared, (hsec .types (by decide)).trans hst.types, ?_,
    fun sec h h' => (hsec sec h').trans (hst.others sec h h'), hst.allocated, ?_,
    hcloses.getLast? hu, htu.frame.trans hst.frame⟩
  · rw [getType?, htu.types_of_ne (by decide)]
    exact hst.found
  · rw [htu.contents, Contents.append, Function.update_self, hst.annotations]
    simp
  · rw [hfresh]
    exact hst.newest

end Session

namespace Edit

variable {s u : Session} {m : Outline} {op : Operation} {c : Scalar} {type i : Id}

/-- A scalar is found, or declared with the next id. -/
theorem declareScalar_answers (h : s.Sound m) (hs : s.Editable) (c : Scalar) {b : Id}
    (hb : s.getType? (.scalar c) = none → s.fresh.succ? = some b) :
    (declareType (.scalar c)).Answers s fun type t =>
      (s.FindsScalar c type t ∧ ∃ m', t.Sound m') ∧
      type = (s.getType? (.scalar c)).getD s.fresh ∧
      t.fresh = if (s.getType? (.scalar c)).isSome then s.fresh else b := by
  cases hk : s.getType? (.scalar c) with
  | some type =>
    refine ⟨type, s, declareType_found hk, ⟨⟨hk, fun j hj => ?_, ?_, UInt32.le_refl _, rfl⟩, m, h⟩,
      rfl, rfl⟩
    · exact Option.some.inj (hj.symm.trans hk)
    · have hnone : s.lacking c type = [] := by simp [lacking, hk]
      rw [hnone]
      exact (Contents.append_nil _ _).symm
  | none =>
    have hb := hb hk
    have hshort : (TypeKey.scalar c).wordCount ≤ maxWords := by
      cases c <;> simp [TypeKey.wordCount, maxWords]
    obtain ⟨_, t, hrun, rfl, op, hop, hgrows, hget, -, hsound⟩ :=
      declareNew_answers h hs hk rfl hb hshort (by simp [TypeKey.component?])
    have hfresh : t.fresh = b := hgrows.fresh_of_newId hb (TypeTable.resultId?_declaration hop)
    rw [← declareType_run_new hk] at hrun
    rw [TypeTable.declaration_scalar] at hop
    obtain rfl := Except.ok.inj hop
    obtain ⟨l, hadds, -⟩ := (declareType_appends h _).answer hrun
    refine ⟨_, t, hrun, ⟨⟨hget, fun j hj => ?_, ?_, h.bound_le_moves (hadds.moves h),
      hgrows.frame⟩, hsound⟩, rfl, hfresh⟩
    · cases hk.symm.trans hj
    · have hsome : s.lacking c s.fresh = [c.declaration s.fresh] := by simp [lacking, hk]
      rw [hgrows.contents, hsome, (h.raised b).shows.contents_eq, h.shows.contents_eq]
      rfl

/-- It is found or declared unless no id is left for it. -/
theorem declareScalar_settles (h : s.Sound m) (hs : s.Editable) (c : Scalar) :
    (declareType (.scalar c)).Settles s fun type t =>
      s.FindsScalar c type t ∧ ∃ m', t.Sound m' := by
  by_cases hlast : s.getType? (.scalar c) = none ∧ s.fresh.succ? = none
  · refine .inl ⟨.idsExhausted, ?_⟩
    rw [Stops, declareType_run_new hlast.1]
    exact declareNew_exhausted hs rfl hlast.2
  · have hb (hk : s.getType? (.scalar c) = none) :
        s.fresh.succ? = some (s.fresh.succ?.getD s.fresh) := by
      obtain ⟨b, hb⟩ := Option.ne_none_iff_exists'.mp fun hb => hlast ⟨hk, hb⟩
      rw [hb]
      rfl
    exact .inr ((declareScalar_answers h hs c hb).mono fun _ _ ht => ht.1)

theorem addConstant_yields (h : s.Sound m) (op : Operation) :
    (addConstant op).Yields s fun i t =>
      op.resultId? = some i ∧ s.Grows .types op t ∧ ∃ m', t.Sound m' :=
  checkSection_yields fun hh => appendDefining_yields h hh

theorem addDecoration_yields (h : s.Sound m) (op : Operation) :
    (addDecoration op).Yields s fun _ t => s.Grows .annotations op t ∧ ∃ m', t.Sound m' :=
  checkSection_yields fun hh => append_done_yields h hh

/-- A constant that comes behind the search for its type, with an id that was handed out for it. -/
theorem addsConstant_of_growsFresh {t : Session} {f : Id → Operation}
    (hsu : s.FindsScalar c type u) (hu : u.Sound m) (hid : (f i).resultId? = some i)
    (hop : (f i).opcode ∉ .opTypeStruct :: TypeKey.opcodes) (hut : u.GrowsFresh .types f i t) :
    s.AddsConstant c (f i) [] type i t := by
  obtain ⟨b, -, hgrows⟩ := hut.grows
  obtain ⟨m', ht⟩ := hut.sound
  have hother (sec : Section) (h : sec ≠ .types) : t.contents sec = s.contents sec := by
    rw [hut.contents hu, hsu.contents, Contents.append_append, Contents.append,
      Function.update_of_ne h]
  refine ⟨?_, hsu.shared, ?_, ?_, fun sec hsec _ => hother sec hsec, hut.fresh ▸ hsu.rises,
    hut.succ? hid, ⟨_, hgrows.getLast?_instructions (hu.raised b).shows ht.shows,
      hgrows.locate?_eq hid⟩, hut.frame.trans hsu.frame⟩
  · rw [getType?, hgrows.index, Index.types_admitted_of_opcode hop]
    exact hsu.found
  · rw [hut.contents hu, hsu.contents, Contents.append_append, Contents.append,
      Function.update_self, List.map_append]
    rfl
  · rw [hother .annotations (by decide)]
    exact (List.append_nil _).symm

/-- A constant gets its type, an id and its place, in this order. -/
theorem typedConstant_yields (h : s.Sound m) (hs : s.Editable) (c : Scalar)
    {f : Id → Id → Operation} (hid : ∀ type i, (f type i).resultId? = some i)
    (hop : ∀ type i, (f type i).opcode ∉ .opTypeStruct :: TypeKey.opcodes) :
    (declareType (.scalar c) >>= fun type => newId >>= fun i => addConstant (f type i)).Yields s
      fun i t => ∃ type, s.AddsConstant c (f type i) [] type i t ∧ ∃ m', t.Sound m' := by
  refine (declareScalar_settles h hs c).yields.bind ?_
  rintro type u ⟨hsu, m₁, hu⟩
  have hlive : u.breach = none := (congrArg (·.breach) hsu.frame).trans hs.1
  refine (newId_bind_yields hlive (hid type) fun i b => addConstant_yields (hu.raised b) _).mono ?_
  exact fun i t hut =>
    ⟨type, addsConstant_of_growsFresh hsu hu (hid type i) (hop type i) hut, hut.sound⟩

/-- A constant that may be overridden is added as any other, and a decoration after it. -/
theorem addSpecConstantImmediate_eq (v : Immediate) (n : Word) :
    addSpecConstantImmediate v n = (declareType (.scalar v.type.scalar) >>= fun type =>
      newId >>= fun i => addConstant (.specConstant type i v.words)) >>= fun i =>
        addDecoration (.decorate i .specId [n]) >>= fun _ => pure i := by
  simp only [addSpecConstantImmediate, bind_assoc]

/-- A constant is added with its type, and with a decoration if it may be overridden. -/
theorem immediate_yields (h : s.Sound m) (hs : s.Editable) (v : Immediate) (number : Option Word) :
    (Command.immediate v number).edit.Yields s fun a t => ∃ type i, a = .id i ∧
      s.AddsConstant v.type.scalar (.immediate type i v number)
        (Operation.overriding i number) type i t ∧ ∃ m', t.Sound m' := by
  have hconstant : Opcode.opConstant ∉ .opTypeStruct :: TypeKey.opcodes := by decide
  have hspecConstant : Opcode.opSpecConstant ∉ .opTypeStruct :: TypeKey.opcodes := by decide
  cases number with
  | none =>
    refine Yields.bind (typedConstant_yields h hs v.type.scalar
      (fun type i => resultId?_constant type i v.words) fun _ _ => hconstant) ?_
    rintro i t ⟨type, hst⟩
    exact yields_pure ⟨type, i, rfl, hst⟩
  | some n =>
    have hadded : (addSpecConstantImmediate v n).Yields s fun i t => ∃ type,
        s.AddsConstant v.type.scalar (.specConstant type i v.words)
          [.decorate i .specId [n]] type i t ∧ ∃ m', t.Sound m' := by
      rw [addSpecConstantImmediate_eq]
      refine (typedConstant_yields h hs v.type.scalar
        (fun type i => resultId?_specConstant type i v.words) fun _ _ => hspecConstant).bind ?_
      rintro i t ⟨type, hst, m₁, ht⟩
      refine (addDecoration_yields ht _).bind ?_
      rintro _ u ⟨htu, m₂, hu⟩
      have hdecorated := hst.decorated ht.shows htu hu.shows (Operation.resultId?_decorate ..)
      exact yields_pure ⟨type, hdecorated, m₂, hu⟩
    refine hadded.bind ?_
    rintro i t ⟨type, hst⟩
    exact yields_pure ⟨type, i, rfl, hst⟩

end Edit

/-! ## Several constants -/

namespace Session

/-- The answers to some commands, given one after the other. -/
def replies (s : Session) : List Command → List (Except Failure Answer)
  | [] => []
  | c :: cs => (s.perform c).1 :: (s.perform c).2.replies cs

variable {s t : Session} {m : Outline} {c : Scalar} {op : Operation} {notes : List Operation}
  {v : Immediate} {type i : Id}

theorem AddsConstant.editable (hst : s.AddsConstant c op notes type i t) (hs : s.Editable) :
    t.Editable := hs.of_frame hst.frame

theorem AddsConstant.lt_bound (hst : s.AddsConstant c op notes type i t) : i.value < t.bound :=
  Id.lt_of_succ? hst.newest

/-- Calls with one value share the type of their constants, and each has a larger id than the one
before. -/
theorem Sound.constants_added (h : s.Sound m) (hs : s.Editable) {number : Option Word}
    {numbers : List (Option Word)} {is : List Id} {cs : List Command}
    (hcs : cs = (number :: numbers).map (.immediate v))
    (hreplies : s.replies cs = is.map fun i => .ok (.id i)) :
    (∀ i ∈ is, s.bound ≤ i.value) ∧ is.Pairwise (·.value < ·.value) ∧ ∃ type,
      (∀ j, s.getType? (.scalar v.type.scalar) = some j → j = type) ∧
      (s.performAll cs).getType? (.scalar v.type.scalar) = some type ∧
      (s.performAll cs).contents .types = s.contents .types ++ (s.lacking v.type.scalar type ++
        Operation.immediates type v is (number :: numbers)).map Operation.words := by
  subst hcs
  induction numbers generalizing s m number is with
  | nil =>
    obtain ⟨i, is, rfl, hi, hrest⟩ := List.map_eq_cons_iff.mp hreplies.symm
    obtain rfl := List.map_eq_nil_iff.mp hrest
    obtain ⟨type, _, ⟨⟩, hst, -⟩ := Edit.immediate_yields h hs v number _ _ (Prod.ext hi.symm rfl)
    exact ⟨by simpa using hst.allocated, by simp, type, hst.shared, hst.found, hst.types⟩
  | cons next numbers ih =>
    obtain ⟨i, is, rfl, hi, hrest⟩ := List.map_eq_cons_iff.mp hreplies.symm
    obtain ⟨type, _, ⟨⟩, hst, m', ht⟩ :=
      Edit.immediate_yields h hs v number _ _ (Prod.ext hi.symm rfl)
    obtain ⟨hge, hasc, type', hshared, hfound, htypes⟩ := ih ht (hst.editable hs) hrest.symm
    obtain rfl := hshared type hst.found
    have hlt (j : Id) (hj : j ∈ is) : i.value < j.value :=
      UInt32.lt_of_lt_of_le hst.lt_bound (hge j hj)
    refine ⟨List.forall_mem_cons.mpr ⟨hst.allocated, fun j hj => ?_⟩,
      List.pairwise_cons.mpr ⟨hlt, hasc⟩, type, hst.shared, hfound, htypes.trans ?_⟩
    · exact UInt32.le_of_lt (UInt32.lt_of_le_of_lt hst.allocated (hlt j hj))
    · -- the type is declared once the first constant is there
      have hnone : Session.lacking _ v.type.scalar type = [] := if_pos (by rw [hst.found]; rfl)
      rw [hst.types, hnone]
      simp [Operation.immediates]

end Session

/-- Every call that adds a constant appends the declaration of its type if it is not there, then the
constant, with the last id that was allocated, and the decoration if it may be overridden. The
constant is located where it stands. Calls with the same value give ascending ids to constants of one
type. -/
theorem Reached.immediates_added {s : Session} (h : Reachable s) (hs : s.Editable) (v : Immediate) :
    (∀ number i t, s.perform (.immediate v number) = (.ok (.id i), t) → ∃ type,
      s.AddsConstant v.type.scalar (.immediate type i v number) (Operation.overriding i number)
        type i t) ∧
    ∀ (numbers : List (Option Word)) (is : List Id), numbers ≠ [] →
      s.replies (numbers.map (.immediate v)) = is.map (fun i => .ok (.id i)) →
      let t := s.performAll (numbers.map (.immediate v))
      is.Pairwise (·.value < ·.value) ∧ ∃ type, t.getType? (.scalar v.type.scalar) = some type ∧
        t.contents .types = s.contents .types ++ (s.lacking v.type.scalar type ++
          Operation.immediates type v is numbers).map Operation.words := by
  obtain ⟨m, hm⟩ := h.sound
  constructor
  · intro number i t hrun
    obtain ⟨type, _, ⟨⟩, hst, -⟩ := Edit.immediate_yields hm hs v number _ _ hrun
    exact ⟨type, hst⟩
  · intro numbers is hne hreplies
    obtain ⟨number, numbers, rfl⟩ := List.exists_cons_of_ne_nil hne
    obtain ⟨-, hasc, type, -, hfound, htypes⟩ := hm.constants_added hs rfl hreplies
    exact ⟨hasc, type, hfound, htypes⟩

/-- A negative number comes twice, the second time to be overridden. Its type comes once. -/
theorem immediates_added_twice :
    let s := Session.create .never ⟨1, 3⟩ 0
    let t := s.performAll [.addConstantImmediate (.i16 (-2)), .addSpecConstantImmediate (.i16 (-2)) 7]
    (∃ type u, s.AddsConstant (.int 16 true) (.specConstant type ⟨2, by decide⟩ [0xFFFFFFFE])
      [.decorate ⟨2, by decide⟩ .specId [7]] type ⟨2, by decide⟩ u) ∧
    ∃ type, t.getType? (.scalar (.int 16 true)) = some type ∧
      t.contents .types = [⟨.opTypeInt, [type.value, 16, 1]⟩,
        ⟨.opConstant, [type.value, 2, 0xFFFFFFFE]⟩,
        ⟨.opSpecConstant, [type.value, 3, 0xFFFFFFFE]⟩].map Operation.words := by
  have h := (Reached.create .never ⟨1, 3⟩ 0 trivial).immediates_added ⟨rfl, rfl⟩ (.i16 (-2))
  obtain ⟨type, hone⟩ := h.1 (some 7) ⟨2, by decide⟩ _ (Prod.ext (by decide +kernel) rfl)
  obtain ⟨-, type', hfound, htwo⟩ := h.2 [none, some 7] [⟨2, by decide⟩, ⟨3, by decide⟩] nofun
    (by decide +kernel)
  exact ⟨⟨type, _, hone⟩, type', hfound, htwo⟩

end SpirvModule
