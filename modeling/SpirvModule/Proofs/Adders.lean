import SpirvModule.Proofs.Live
import SpirvModule.Proofs.Steps

/-!
# Edits that append

Most edits do nothing but append operations to sections. `Adds` is what they can do to a
session, labelled with the operations they append; `Appends` says of an edit that it does
nothing else, whether it answers or not, and what it has appended if it answers.

Results:
* `Adds.sound`: the contents of a session after some operations were appended.
* `Adds.tracks`: the changes of its index.
* `append_appends`, `declareType_appends`, …: what each edit appends.
-/
namespace SpirvModule

open Session (Move Moves)

/-! ## Appending -/

/-- The sessions that `s` is turned into by operations appended to sections. -/
inductive Adds (s : Session) : List (Section × Operation) → Session → Prop
  | refl : Adds s [] s
  | breach {l : List (Section × Operation)} {t : Session} (h : Adds s l t) (e : EditError) :
      Adds s l (t.breached e)
  | raise {l : List (Section × Operation)} {t : Session} {i b : Id} (h : Adds s l t)
      (ht : t.breach = none) (hb : i.succ? = some b) : Adds s l (t.raised b)
  | append {l : List (Section × Operation)} {t : Session} {sec : Section} {op : Operation}
      (h : Adds s l t) (ht : t.Editable) (hh : op.opcode.home?.all (· = sec))
      (hl : op.wordCount ≤ Edit.maxWords) (hb : ∀ i, op.resultId? = some i → i.value < t.bound) :
      Adds s (l ++ [(sec, op)]) (t.inserted sec (t.sectionStop sec) op)

/-- The contents with the words of some operations appended. -/
def Contents.appendAll (c : Contents) (l : List (Section × Operation)) : Contents :=
  l.foldl (fun c e => c.append e.1 [e.2.words]) c

theorem Contents.appendAll_append (c : Contents) (l k : List (Section × Operation)) :
    c.appendAll (l ++ k) = (c.appendAll l).appendAll k := List.foldl_append

variable {s t u : Session} {l k : List (Section × Operation)} {m : Outline} {sec : Section}
  {op : Operation}

/-- A raised bound is no concern of the live instructions. -/
theorem Edit.Raised.live (h : s.Sound m) (ht : Edit.Raised s t) : t.live = s.live := by
  rcases ht with rfl | ⟨i, b, -, -, rfl⟩
  · rfl
  · exact h.live_congr (h.raised b) rfl

theorem Edit.Raised.index (ht : Edit.Raised s t) : t.index = s.index := by
  rcases ht with rfl | ⟨i, b, -, -, rfl⟩ <;> rfl

/-- The end of a section splits it. -/
theorem splits_sectionStop (h : s.Shows m) (sec : Section) :
    m.Splits sec (s.sectionStop sec) (m.contents sec) [] [] := by
  refine ⟨by simp, ?_⟩
  rw [h.sectionStop_eq, Contents.stop]

namespace Adds

theorem trans (h : Adds s l u) (h' : Adds u k t) : Adds s (l ++ k) t := by
  induction h' with
  | refl => rwa [List.append_nil]
  | breach _ e ih => exact ih.breach e
  | raise _ ht hb ih => exact ih.raise ht hb
  | append _ ht hh hl hb ih =>
    rw [← List.append_assoc]
    exact ih.append ht hh hl hb

theorem of_refused (h : Edit.Refused s t) : Adds s [] t := by
  rcases h with rfl | ⟨e, rfl⟩
  · exact .refl
  · exact .breach .refl e

theorem of_raised (h : Edit.Raised s t) : Adds s [] t := by
  rcases h with rfl | ⟨i, b, hb, hs, rfl⟩
  · exact .refl
  · exact .raise .refl hs hb

/-- A session stays sound when operations are appended, and they are what its contents gain. -/
theorem sound (h : s.Sound m) (hst : Adds s l t) :
    ∃ m', t.Sound m' ∧ m'.contents = m.contents.appendAll l := by
  induction hst with
  | refl => exact ⟨m, h, rfl⟩
  | breach _ e ih =>
    obtain ⟨m', h', hc⟩ := ih
    exact ⟨m', h'.breached e, hc⟩
  | raise _ _ _ ih =>
    obtain ⟨m', h', hc⟩ := ih
    exact ⟨m', h'.raised _, hc⟩
  | @append l t sec op _ ht hh hl _ ih =>
    obtain ⟨m', h', hc⟩ := ih
    have hf := fits_singleton (fits_words hh hl)
    refine ⟨_, h'.inserted ht (splits_sectionStop h'.shows sec) hf, ?_⟩
    rw [Contents.appendAll_append, ← hc, Outline.Splits.exchange_contents, List.append_nil]
    rfl

theorem moves (h : s.Sound m) (hst : Adds s l t) : Moves s t := by
  induction hst with
  | refl => exact .refl
  | breach _ e ih => exact ih.tail (.breach e)
  | raise _ ht hb ih => exact ih.tail (.raise ht hb)
  | append hadds ht hh hl hb ih =>
    obtain ⟨m', h', -⟩ := hadds.sound h
    exact ih.tail (.insert ht (Session.isPlace_sectionStop ..) (h'.shows.accepts_sectionStop _)
      hh hl hb)

/-- Live ids only come in when operations are appended, so that they are all there in the end. -/
theorem tracks (h : s.Sound m) (hst : Adds s l t) :
    s.Tracks t ∧ List.Sublist s.liveIds t.liveIds := by
  -- what one more step does, after the steps before
  have more {t u : Session} (ih : s.Tracks t ∧ List.Sublist s.liveIds t.liveIds)
      (htu : t.Tracks u) (hids : List.Sublist t.liveIds u.liveIds) :
      s.Tracks u ∧ List.Sublist s.liveIds u.liveIds :=
    ⟨ih.1.trans htu (.inr hids), ih.2.trans hids⟩
  have same {t u : Session} (hlive : u.live = t.live) : List.Sublist t.liveIds u.liveIds := by
    rw [Session.liveIds, Session.liveIds, hlive]
  induction hst with
  | refl => exact ⟨.of_eq rfl rfl, .refl _⟩
  | breach hadds e ih =>
    obtain ⟨m', h', -⟩ := hadds.sound h
    have hlive := h'.live_congr (h'.breached e) rfl
    exact more ih (.of_eq rfl hlive) (same hlive)
  | @raise l t i b hadds ht hb ih =>
    obtain ⟨m', h', -⟩ := hadds.sound h
    have hlive := h'.live_congr (h'.raised b) rfl
    exact more ih (.of_eq rfl hlive) (same hlive)
  | @append l t sec op hadds ht hh hl hb ih =>
    obtain ⟨m', h', -⟩ := hadds.sound h
    have hm := splits_sectionStop h'.shows sec
    have hf := fits_singleton (fits_words hh hl)
    exact more ih (h'.tracks_inserted ht hm hf) (h'.liveIds_inserted ht hm hf)

end Adds

/-! ## Edits that do nothing else -/

namespace Edit

variable {α β : Type} {e : Edit α} {f : α → Edit β} {P : α → List (Section × Operation) → Prop}
  {Q : β → List (Section × Operation) → Prop}

/-- Whether `e` only appends operations, and if it answers, answer and operations satisfy `P`. -/
def Appends (e : Edit α) (s : Session) (P : α → List (Section × Operation) → Prop) : Prop :=
  ∃ r l t, e.run s = (r, t) ∧ Adds s l t ∧ ∀ a, r = .ok a → P a l

theorem Appends.mono {P' : α → List (Section × Operation) → Prop} (he : e.Appends s P)
    (hP : ∀ a l, P a l → P' a l) : e.Appends s P' := by
  obtain ⟨r, l, t, hrun, hadds, ha⟩ := he
  exact ⟨r, l, t, hrun, hadds, fun a hr => hP a l (ha a hr)⟩

/-- The operations of the second part come behind those of the first. -/
theorem Appends.bind (h : s.Sound m) (he : e.Appends s P)
    (hf : ∀ a l u m', Adds s l u → u.Sound m' → P a l →
      (f a).Appends u fun b k => Q b (l ++ k)) : (e >>= f).Appends s Q := by
  obtain ⟨r, l, u, hrun, hadds, ha⟩ := he
  cases r with
  | error x => exact ⟨.error x, l, u, by rw [run_bind, hrun], hadds, nofun⟩
  | ok a =>
    obtain ⟨m', h', -⟩ := hadds.sound h
    obtain ⟨r, k, t, hrun', hadds', hb⟩ := hf a l u m' hadds h' (ha a rfl)
    exact ⟨r, l ++ k, t, by rw [run_bind, hrun, ← hrun'], hadds.trans hadds', hb⟩

theorem Ends.appends (he : e.Ends s fun a t => ∃ l, Adds s l t ∧ P a l) : e.Appends s P := by
  rcases he with ⟨x, t, hrun, ht⟩ | ⟨a, t, hrun, l, hadds, ha⟩
  · exact ⟨.error x, [], t, hrun, .of_refused ht, nofun⟩
  · refine ⟨.ok a, l, t, hrun, hadds, fun b hb => ?_⟩
    cases hb
    exact ha

theorem Ends.bind_appends {A : α → Prop} (he : e.Ends s fun a t => t = s ∧ A a)
    (hf : ∀ a, A a → (f a).Appends s Q) : (e >>= f).Appends s Q := by
  rcases he with ⟨x, t, hrun, ht⟩ | ⟨a, t, hrun, rfl, ha⟩
  · exact ⟨.error x, [], t, by rw [run_bind, hrun], .of_refused ht, nofun⟩
  · obtain ⟨r, l, u, hrun', hadds, hb⟩ := hf a ha
    exact ⟨r, l, u, by rw [run_bind, hrun, ← hrun'], hadds, hb⟩

theorem appends_get {f : Session → Edit α} (h : (f s).Appends s P) : (get >>= f).Appends s P := h

theorem appends_pure {a : α} (h : P a []) : (pure a : Edit α).Appends s P :=
  ⟨.ok a, [], s, rfl, .refl, fun b hb => by cases hb; exact h⟩

theorem appends_violate (x : EditError) : (violate x : Edit α).Appends s P :=
  ⟨_, [], s.breached x, rfl, .of_refused (.inr ⟨x, rfl⟩), nofun⟩

/-- An edit whose answer is passed on in some other form appends the same. -/
theorem Appends.map (he : e.Appends s P) {g : α → β} (hQ : ∀ a l, P a l → Q (g a) l) :
    (e >>= fun a => pure (g a)).Appends s Q := by
  obtain ⟨r, l, t, hrun, hadds, ha⟩ := he
  cases r with
  | error x => exact ⟨.error x, l, t, by rw [run_bind, hrun], hadds, nofun⟩
  | ok a =>
    refine ⟨.ok (g a), l, t, by rw [run_bind, hrun]; rfl, hadds, fun b hb => ?_⟩
    cases hb
    exact hQ a l (ha a rfl)

/-! ## What each edit appends -/

theorem append_appends (h : s.Sound m) (hh : op.opcode.home?.all (· = sec)) :
    (append sec op).Appends s fun a l => a = op.resultId? ∧ l = [(sec, op)] := by
  refine Ends.appends ?_
  refine (append_settles h.shows sec op).ends.mono fun a t ⟨hs, hl, u, hu, hb, _, ht, ha⟩ => ?_
  have hstop : s.sectionStop sec = u.sectionStop sec := by
    rw [h.shows.sectionStop_eq, (hu.sound h).shows.sectionStop_eq]
  refine ⟨[(sec, op)], ?_, ha, rfl⟩
  rw [ht, hstop]
  exact (Adds.of_raised hu).append (hu.editable hs) hh hl hb

theorem newId_appends : newId.Appends s fun i l => i = s.fresh ∧ l = [] := by
  refine Ends.appends (newId_settles.ends.mono fun i t ⟨_, hi, ht, _⟩ => ?_)
  exact ⟨[], .of_raised ht, hi, rfl⟩

theorem appendDefining_appends (h : s.Sound m) (hh : op.opcode.home?.all (· = sec)) :
    (appendDefining sec op).Appends s fun i l => op.resultId? = some i ∧ l = [(sec, op)] := by
  refine (append_appends h hh).bind h fun a l u m' _ _ hal => ?_
  obtain ⟨rfl, rfl⟩ := hal
  cases hid : op.resultId? with
  | none => exact appends_violate _
  | some i => exact appends_pure ⟨rfl, rfl⟩

theorem checkSection_settles (op : Operation) (sec : Section) :
    (checkSection op sec).Settles s fun _ t => t = s ∧ op.opcode.home?.all (· = sec) := by
  unfold checkSection
  split
  · exact settles_get (settles_violate _)
  · rename_i hh
    exact settles_pure ⟨rfl, by simpa using hh⟩

theorem setResultId_opcode (op : Operation) (i : Id) : (op.setResultId i).opcode = op.opcode := by
  unfold Operation.setResultId
  split <;> rfl

/-- The opcodes that a section lists are at home there. -/
theorem home_of_mem {o : Opcode} (h : o ∈ sec.residents) : o.home?.all (· = sec) := by
  have hall : ∀ sec ∈ Section.all, ∀ o ∈ sec.residents, o.home?.all (· = sec) := by
    decide +kernel
  exact hall sec sec.mem_all o h

/-- Types are declared by instructions that are at home in the types. -/
theorem home_declaration {t : TypeTable} {k : TypeKey} {i : Id} {op : Operation}
    (h : t.declaration k i = .ok op) (j : Id) :
    (op.setResultId j).opcode.home?.all (· = .types) := by
  rw [setResultId_opcode]
  refine home_of_mem ?_
  unfold TypeTable.declaration at h
  split at h
  case h_5 | h_6 | h_8 =>
    split at h <;> cases h
    simp [Section.residents]
  all_goals
    cases h
    simp [Section.residents]

theorem home_typeStruct (i : Id) (members : List Id) :
    (Operation.typeStruct i members).opcode.home?.all (· = .types) :=
  home_of_mem (by simp [Operation.typeStruct, Section.residents])

theorem home_extInstImport (i : Id) (name : String) :
    (Operation.extInstImport i name).opcode.home?.all (· = .extInstImports) :=
  home_of_mem (by simp [Operation.extInstImport, Section.residents])

/-- Whether `l` declares the type with key `k` as `i`, with nothing to append when it is known. -/
def Declared (s : Session) (k : TypeKey) (i : Id) (l : List (Section × Operation)) : Prop :=
  (s.getType? k = some i ∧ l = []) ∨
    ∃ op, s.index.types.declaration k i = .ok op ∧ l = [(.types, op.setResultId i)]

/-- A type that is declared already is found, whatever state the session is in. -/
theorem declareType_found {k : TypeKey} {i : Id} (hk : s.getType? k = some i) :
    (declareType k).run s = (.ok i, s) := by
  rw [declareType, run_get_bind, hk]
  rfl

/-- So is a struct that is shared. -/
theorem declareStruct_found {members : List Id} {i : Id} (hp : s.policy = .byMembers)
    (hi : s.index.types.getStruct? members = some i) :
    (declareStruct members).run s = (.ok i, s) := by
  rw [declareStruct, run_get_bind, if_pos hp, hi]
  rfl

/-- And so is an instruction set that is imported. -/
theorem importExtInst_found {name : String} {i : Id} (hi : s.index.imported? name = some i) :
    (importExtInst name).run s = (.ok i, s) := by
  rw [importExtInst, run_get_bind, hi]
  rfl

theorem declareType_appends (h : s.Sound m) (k : TypeKey) :
    (declareType k).Appends s (Declared s k) := by
  refine appends_get ?_
  cases hk : s.getType? k with
  | some i => exact appends_pure (.inl ⟨hk, rfl⟩)
  | none =>
    refine ensureNoBracket_settles.ends.bind_appends fun _ _ => appends_get ?_
    dsimp only
    split
    · exact appends_violate _
    · split
      · exact appends_violate _
      · rename_i op hop
        refine newId_appends.bind h fun i l u m₁ _ h₁ hi => ?_
        obtain ⟨rfl, rfl⟩ := hi
        refine (append_appends h₁ (home_declaration hop _)).bind h₁
          fun a l u m₂ _ h₂ hl => appends_get ?_
        obtain ⟨-, rfl⟩ := hl
        split
        · exact ⟨.error .crash, [], u, rfl, .refl, nofun⟩
        · exact appends_pure (.inr ⟨op, hop, rfl⟩)

theorem declareStruct_appends (h : s.Sound m) (members : List Id) :
    (declareStruct members).Appends s fun i l =>
      l = [] ∨ l = [(.types, .typeStruct i members)] := by
  refine appends_get ?_
  split
  · exact appends_pure (.inl rfl)
  · refine ensureNoBracket_settles.ends.bind_appends fun _ _ => appends_get ?_
    split
    · exact appends_violate _
    · refine newId_appends.bind h fun i l u m₁ _ h₁ hi => ?_
      obtain ⟨-, rfl⟩ := hi
      exact (append_appends h₁ (home_typeStruct i members)).map fun a l hl => .inr hl.2

theorem addType_appends (h : s.Sound m) (op : Operation) :
    (addType op).Appends s fun i l => op.resultId? = some i ∧ l = [(.types, op)] :=
  (checkSection_settles op .types).ends.bind_appends fun _ hh => appendDefining_appends h hh

theorem addConstant_appends (h : s.Sound m) (op : Operation) :
    (addConstant op).Appends s fun i l => op.resultId? = some i ∧ l = [(.types, op)] :=
  (checkSection_settles op .types).ends.bind_appends fun _ hh => appendDefining_appends h hh

theorem addVariable_appends (h : s.Sound m) (op : Operation) :
    (addVariable op).Appends s fun i l => op.resultId? = some i ∧ l = [(.types, op)] := by
  unfold addVariable
  split
  · exact appends_violate _
  · rename_i hop
    refine appendDefining_appends h ?_
    rw [not_not.mp hop]
    decide +kernel

theorem addDecoration_appends (h : s.Sound m) (op : Operation) :
    (addDecoration op).Appends s fun _ l => l = [(.annotations, op)] :=
  (checkSection_settles op .annotations).ends.bind_appends fun _ hh =>
    (append_appends h hh).map fun _ _ hl => hl.2

theorem addExecutionMode_appends (h : s.Sound m) (op : Operation) :
    (addExecutionMode op).Appends s fun _ l => l = [(.executionModes, op)] :=
  (checkSection_settles op .executionModes).ends.bind_appends fun _ hh =>
    (append_appends h hh).map fun _ _ hl => hl.2

theorem resultId?_constant (type i : Id) (ws : List Word) :
    (Operation.constant type i ws).resultId? = some i := by
  have h : Opcode.resultIndex? .opConstant = some 1 := by decide +kernel
  simp [Operation.resultId?, Operation.constant, h]

theorem resultId?_specConstant (type i : Id) (ws : List Word) :
    (Operation.specConstant type i ws).resultId? = some i := by
  have h : Opcode.resultIndex? .opSpecConstant = some 1 := by decide +kernel
  simp [Operation.resultId?, Operation.specConstant, h]

theorem resultId?_extInstImport (i : Id) (name : String) :
    (Operation.extInstImport i name).resultId? = some i := by
  have h : Opcode.resultIndex? .opExtInstImport = some 0 := by decide +kernel
  simp [Operation.resultId?, Operation.extInstImport, h]

theorem resultId?_typeStruct (i : Id) (members : List Id) :
    (Operation.typeStruct i members).resultId? = some i := by
  have h : Opcode.resultIndex? .opTypeStruct = some 0 := by decide +kernel
  simp [Operation.resultId?, Operation.typeStruct, h]

/-- A constant comes behind its type. -/
theorem addConstantImmediate_appends (h : s.Sound m) (v : Immediate) :
    (addConstantImmediate v).Appends s fun i l => ∃ type k,
      Declared s (.scalar v.type.scalar) type k ∧
        l = k ++ [(.types, .constant type i v.words)] := by
  refine (declareType_appends h _).bind h fun type k u m₁ _ h₁ hk => ?_
  refine newId_appends.bind h₁ fun i l u m₂ _ h₂ hi => ?_
  obtain ⟨-, rfl⟩ := hi
  refine (addConstant_appends h₂ _).mono fun j l hj => ⟨type, k, hk, ?_⟩
  rw [resultId?_constant] at hj
  obtain ⟨hij, rfl⟩ := hj
  rw [Option.some.inj hij, List.nil_append]

/-- The number of a specialization constant is told by a decoration, in another section. -/
theorem addSpecConstantImmediate_appends (h : s.Sound m) (v : Immediate) (n : Word) :
    (addSpecConstantImmediate v n).Appends s fun i l => ∃ type k,
      Declared s (.scalar v.type.scalar) type k ∧
        l = k ++ [(.types, .specConstant type i v.words),
          (.annotations, .decorate i .specId [n])] := by
  refine (declareType_appends h _).bind h fun type k u m₁ _ h₁ hk => ?_
  refine newId_appends.bind h₁ fun i l u m₂ _ h₂ hi => ?_
  obtain ⟨-, rfl⟩ := hi
  refine (addConstant_appends h₂ _).bind h₂ fun j l u m₃ _ h₃ hj => ?_
  rw [resultId?_specConstant] at hj
  obtain ⟨hij, rfl⟩ := hj
  obtain rfl := Option.some.inj hij
  refine (addDecoration_appends h₃ _).map fun _ l hl => ⟨type, k, hk, ?_⟩
  rw [hl]
  rfl

theorem append_done (h : s.Sound m) (ho : op.opcode ∈ sec.residents) :
    (append sec op >>= fun _ => pure ()).Appends s fun _ l => l = [(sec, op)] :=
  (append_appends h (home_of_mem ho)).map fun _ _ hl => hl.2

theorem addCapability_appends (h : s.Sound m) (c : Capability) :
    (addCapability c).Appends s fun _ l => l = [(.capabilities, .capability c)] :=
  append_done h (by simp [Operation.capability, Section.residents])

theorem addExtension_appends (h : s.Sound m) (name : String) :
    (addExtension name).Appends s fun _ l => l = [(.extensions, .extension name)] :=
  append_done h (by simp [Operation.extension, Section.residents])

theorem setName_appends (h : s.Sound m) (i : Id) (text : String) :
    (setName i text).Appends s fun _ l => l = [(.debugNames, .name i text)] :=
  append_done h (by simp [Operation.name, Section.residents])

theorem setMemberName_appends (h : s.Sound m) (i : Id) (member : Word) (text : String) :
    (setMemberName i member text).Appends s fun _ l =>
      l = [(.debugNames, .memberName i member text)] :=
  append_done h (by simp [Operation.memberName, Section.residents])

theorem decorateStorageBuffer_appends (h : s.Sound m) (i : Id) :
    (decorateStorageBuffer i).Appends s fun _ l => l = [(.annotations, .decorate i
      (if s.storageBufferClass = .storageBuffer then .block else .bufferBlock) [])] :=
  appends_get (addDecoration_appends h _)

/-- An instruction set is imported once. -/
theorem importExtInst_appends (h : s.Sound m) (name : String) :
    (importExtInst name).Appends s fun i l => (s.index.imported? name = some i ∧ l = []) ∨
      l = [(.extInstImports, .extInstImport i name)] := by
  refine appends_get ?_
  cases hi : s.index.imported? name with
  | some i => exact appends_pure (.inl ⟨rfl, rfl⟩)
  | none =>
    refine ensureNoBracket_settles.ends.bind_appends fun _ _ => ?_
    refine newId_appends.bind h fun i l u m₁ _ h₁ hl => ?_
    obtain ⟨-, rfl⟩ := hl
    refine (appendDefining_appends h₁ (home_extInstImport i name)).mono fun j l hj => .inr ?_
    obtain ⟨hij, rfl⟩ := hj
    rw [resultId?_extInstImport] at hij
    rw [Option.some.inj hij]
    rfl

theorem checkSections_settles (ops : List Operation) (sec : Section) :
    (ops.forM fun op => checkSection op sec).Settles s fun _ t =>
      t = s ∧ ∀ op ∈ ops, op.opcode.home?.all (· = sec) := by
  induction ops with
  | nil => exact settles_pure ⟨rfl, nofun⟩
  | cons op ops ih =>
    refine (checkSection_settles op sec).bind_guard fun _ hh => ?_
    exact ih.mono fun _ t ht => ⟨ht.1, List.forall_mem_cons.mpr ⟨hh, ht.2⟩⟩

theorem appendEach_appends (h : s.Sound m) {ops : List Operation} {sec : Section}
    (hh : ∀ op ∈ ops, op.opcode.home?.all (· = sec)) :
    (ops.forM fun op => append sec op >>= fun _ => pure ()).Appends s fun _ l =>
      l = ops.map (sec, ·) := by
  induction ops generalizing s m with
  | nil => exact appends_pure rfl
  | cons op ops ih =>
    obtain ⟨hop, hops⟩ := List.forall_mem_cons.mp hh
    have hfirst : (append sec op >>= fun _ => pure ()).Appends s fun _ l => l = [(sec, op)] :=
      (append_appends h hop).map fun _ _ hl => hl.2
    refine hfirst.bind h fun _ l u m₁ _ h₁ hl => (ih h₁ hops).mono fun _ k hk => ?_
    rw [hl, hk]
    rfl

/-- The instructions of a function come one behind the other. -/
theorem addFunction_appends (h : s.Sound m) (ops : List Operation) :
    (addFunction ops).Appends s fun _ l => l = ops.map (.functions, ·) :=
  (checkSections_settles ops .functions).ends.bind_appends fun _ hh => appendEach_appends h hh

end Edit

end SpirvModule
