import SpirvModule.Proofs.Allocation
import SpirvModule.Proofs.Bracket
import SpirvModule.Proofs.Links

/-!
# Commands that crash

An edit crashes when words or entries are not where it takes them to be. The words always are:
sections, instructions, the open bracket and the places of ids lie within the words of a session.
An entry may not be: a type is declared by the id of its component, and read back by the key of
that id. Where an id is defined more than once, the key may be another one than the id was found
under, and then the type is not found under the key that it was declared for. Other than that,
only a change of operands that breaks off by itself crashes.

* `TypeTable.LeadsBack`: that the id found under a key has that key.
* `Command.BreaksOff`, `Command.Misreads`: the two ways to crash.

Results:
* `TypeTable.declares_declaration`: when a declaration is read back.
* `perform_crash_iff`: a command crashes in these two ways only.
* `Reached.crashes_iff`: so it is all along a run, where all words are in range.
-/
namespace SpirvModule

open Session

/-! ## Declarations that are read back -/

/-- The key of a type that has to be declared before, since it is part of the key. -/
def TypeKey.component? : TypeKey → Option TypeKey
  | vector v => some (.scalar v.scalar)
  | matrix m => some (.vector m.column)
  | image g => some (.scalar g.sampledType)
  | _ => none

namespace TypeTable

variable {t : TypeTable} {k d : TypeKey} {i c : Id} {op : Operation} {j : Instruction}

/-- Whether the id that is found under `k`, if any, leads back to `k`. -/
def LeadsBack (t : TypeTable) (k : TypeKey) : Prop := ∀ c ∈ t.get? k, t.keyOf? c = some k

theorem Linked.leadsBack (h : t.Linked) (k : TypeKey) : t.LeadsBack k :=
  fun c hc => (h c k).mpr hc

theorem scalarId_eq_ok {s : Scalar} : t.scalarId s = .ok c ↔ t.get? (.scalar s) = some c := by
  unfold scalarId
  split <;> simp [*]

/-- A declaration defines the id that it is made with. -/
theorem declaration_head (h : t.declaration k i = .ok op) :
    op.opcode = k.opcode ∧ ∃ r, op.operands = i.value :: r := by
  unfold declaration at h
  split at h
  case h_5 | h_6 | h_8 =>
    split at h <;> cases h
    exact ⟨rfl, _, rfl⟩
  all_goals
    cases h
    exact ⟨rfl, _, rfl⟩

theorem resultIndex?_opcode (k : TypeKey) : k.opcode.resultIndex? = some 0 := by
  have hall : ∀ op ∈ TypeKey.opcodes, op.resultIndex? = some 0 := by decide +kernel
  exact hall _ k.opcode_mem

theorem resultId?_declaration (h : t.declaration k i = .ok op) : op.resultId? = some i := by
  obtain ⟨hcode, r, hops⟩ := declaration_head h
  simp [Operation.resultId?, hcode, hops, resultIndex?_opcode]

theorem setResultId_declaration (h : t.declaration k i = .ok op) : op.setResultId i = op := by
  obtain ⟨hcode, r, hops⟩ := declaration_head h
  obtain ⟨code, operands⟩ := op
  obtain rfl : code = k.opcode := hcode
  obtain rfl : operands = i.value :: r := hops
  simp [Operation.setResultId, resultIndex?_opcode]

/-- A type whose component is found can be declared, and refers to no other id. -/
theorem declaration_of_component (hd : k.component? = some d) (hc : t.get? d = some c) (i : Id) :
    k.references = [] ∧ ∃ op, t.declaration k i = .ok op ∧ op.wordCount ≤ Edit.maxWords := by
  cases k with
  | vector v =>
    obtain rfl := Option.some.inj hd
    refine ⟨rfl, ⟨.opTypeVector, [i.value, c.value, v.count]⟩, ?_, ?_⟩
    · rw [declaration, scalarId_eq_ok.mpr hc]
    · simp +decide [Operation.wordCount]
  | matrix m =>
    obtain rfl := Option.some.inj hd
    refine ⟨rfl, ⟨.opTypeMatrix, [i.value, c.value, m.count]⟩, ?_, ?_⟩
    · rw [declaration, hc]
    · simp +decide [Operation.wordCount]
  | image g =>
    obtain rfl := Option.some.inj hd
    refine ⟨rfl, ⟨.opTypeImage, [i.value, c.value, g.dim.value, g.depth,
      if g.arrayed then 1 else 0, if g.multisampled then 1 else 0, g.sampled, g.format.value]⟩,
      ?_, ?_⟩
    · rw [declaration, scalarId_eq_ok.mpr hc]
    · simp +decide [Operation.wordCount]
  | _ => cases hd

/-- A declaration names its component by the id that is found. -/
theorem declaration_component (h : t.declaration k i = .ok op) (hd : k.component? = some d) :
    ∃ c r, t.get? d = some c ∧ op.operands = i.value :: c.value :: r := by
  cases k with
  | vector v | matrix m | image g =>
    obtain rfl := Option.some.inj hd
    rw [declaration] at h
    split at h
    · cases h
    · rename_i c hc
      cases h
      exact ⟨c, _, by simpa only [scalarId_eq_ok] using hc, rfl⟩
  | _ => cases hd

/-- What is read as a type with a component has the component's key under its second operand. -/
theorem declares_component {resolve : Id → TypeKey → Prop} {w : Word} {r : List Word}
    (h : j.Declares resolve k) (hd : k.component? = some d)
    (hops : j.operands = w :: c.value :: r) : resolve c d := by
  have second {w w' : Word} {c c' : Id} {r r' : List Word}
      (h : w :: c.value :: r = w' :: c'.value :: r') : c = c' :=
    Id.ext_value (List.cons.inj (List.cons.inj h).2).1
  cases h with
  | vector _ hr hres | matrix _ hr hres | image _ hr hres =>
    obtain rfl := Option.some.inj hd
    rw [second (hops.symm.trans hr)]
    exact hres
  | _ => cases hd

/-- An instruction that is written for a key declares that key if the id of its component leads
back to the component. -/
theorem declares_of_leadsBack (h : t.declaration k i = .ok op)
    (hcode : j.opcode? = some op.opcode) (hops : j.operands = op.operands)
    (hback : ∀ d ∈ k.component?, t.LeadsBack d) : j.Declares t.Resolves k := by
  have flag (b : Bool) : ((if b then 1 else 0 : Word) ≠ 0 : Bool) = b := by cases b <;> rfl
  cases k with
  | scalar s =>
    cases s with
    | void =>
      cases h
      exact .void hcode
    | bool =>
      cases h
      exact .bool hcode
    | int width signed =>
      cases h
      rw [← flag signed]
      exact .int hcode hops
    | float width =>
      cases h
      exact .float hcode hops
  | vector v =>
    rw [declaration] at h
    split at h
    · cases h
    · rename_i c hc
      cases h
      exact .vector hcode hops (hback _ rfl c (scalarId_eq_ok.mp hc))
  | matrix m =>
    rw [declaration] at h
    split at h
    · cases h
    · rename_i c hc
      cases h
      exact .matrix hcode hops (hback _ rfl c hc)
  | image g =>
    rw [declaration] at h
    split at h
    · cases h
    · rename_i c hc
      cases h
      have hj : j.Declares t.Resolves _ := .image hcode hops (hback _ rfl c (scalarId_eq_ok.mp hc))
      rwa [flag, flag] at hj
  | pointer base storage =>
    cases h
    exact .pointer hcode hops
  | sampler =>
    cases h
    exact .sampler hcode
  | sampledImage g =>
    cases h
    exact .sampledImage hcode hops
  | function result arguments =>
    cases h
    exact .function hcode hops

/-- It does so in no other case. -/
theorem declares_declaration (h : t.declaration k i = .ok op) (hcode : j.opcode? = some op.opcode)
    (hops : j.operands = op.operands) :
    j.Declares t.Resolves k ↔ ∀ d ∈ k.component?, t.LeadsBack d := by
  refine ⟨fun hj d hd c hc => ?_, declares_of_leadsBack h hcode hops⟩
  obtain ⟨c', r, hc', hop⟩ := declaration_component h hd
  obtain rfl : c' = c := Option.some.inj (hc'.symm.trans hc)
  exact declares_component hj hd (hops.trans hop)

end TypeTable

/-- What is entered is found under a key that was not there exactly if it is read as that key. -/
theorem Index.get?_register_iff {x : Index} {policy : StructPolicy} {j : Instruction} {i : Id}
    {k : TypeKey} (hid : j.resultId? = some i) (hk : x.types.get? k = none) :
    (x.register policy j).types.get? k = some i ↔ x.types.decode j = some k := by
  cases x.register_gains policy j with
  | idle hids hkeys hno =>
    rw [TypeTable.get?_congr hids, hk, hno i hid]
    simp
  | @type c k' hc hk' hu =>
    obtain rfl : c = i := Option.some.inj (hc.symm.trans hid)
    rw [hu, hk', Option.some.injEq]
    cases hget : x.types.get? k' with
    | some d =>
      rw [TypeTable.insert_of_isSome (hget ▸ rfl : (x.types.get? k').isSome), hk]
      refine iff_of_false nofun ?_
      rintro rfl
      cases hk.symm.trans hget
    | none =>
      rw [TypeTable.get?_insert hget, hk]
      split <;> simp [*]

/-! ## Edits that do not crash -/

namespace Edit

variable {α β : Type} {e : Edit α} {f : α → Edit β} {s t : Session} {m : Outline}
  {P : α → Session → Prop}

/-- Whether `e` crashes. -/
def Crashes (e : Edit α) (s : Session) : Prop := (e.run s).1 = .error .crash

theorem pure_not_crashes (a : α) : ¬ (pure a : Edit α).Crashes s := nofun

theorem violate_not_crashes (x : EditError) : ¬ (violate x : Edit α).Crashes s := nofun

theorem Stops.not_crashes {x : EditError} (h : e.Stops x s) : ¬ e.Crashes s := by
  rw [Crashes, h]
  exact nofun

theorem Answers.not_crashes (h : e.Answers s P) : ¬ e.Crashes s := by
  obtain ⟨a, t, hrun, -⟩ := h
  rw [Crashes, hrun]
  exact nofun

theorem Settles.not_crashes (h : e.Settles s P) : ¬ e.Crashes s := by
  rcases h with ⟨x, hx⟩ | ha
  · exact hx.not_crashes
  · exact ha.not_crashes

theorem crashes_bind_left (h : e.Crashes s) : (e >>= f).Crashes s := by
  rw [Crashes] at h ⊢
  rw [run_bind]
  rcases hrun : e.run s with ⟨r, t⟩
  rw [hrun] at h
  cases h
  rfl

theorem crashes_get {f : Session → Edit α} : (get >>= f).Crashes s ↔ (f s).Crashes s := Iff.rfl

/-- Behind a part that answers the edit crashes if the rest does. -/
theorem crashes_bind {a : α} (h : e.run s = (.ok a, t)) :
    (e >>= f).Crashes s ↔ (f a).Crashes t := by
  rw [Crashes, run_bind, h]
  rfl

/-- An edit whose first part settles crashes in the rest only. -/
theorem Settles.of_crashes_bind (he : e.Settles s P) (h : (e >>= f).Crashes s) :
    ∃ a u, P a u ∧ (f a).Crashes u := by
  rcases he with ⟨x, hx⟩ | ⟨a, u, hrun, ha⟩
  · exact absurd h (hx.bind f).not_crashes
  · exact ⟨a, u, ha, (crashes_bind hrun).mp h⟩

/-- An answer that is passed on in some other form crashes nothing. -/
theorem crashes_map (g : α → β) : (e >>= fun a => pure (g a)).Crashes s ↔ e.Crashes s := by
  rw [Crashes, run_bind, Crashes]
  rcases e.run s with ⟨r, t⟩
  cases r with
  | ok a => exact iff_of_false nofun nofun
  | error x => exact ⟨fun h => by cases h; rfl, fun h => by cases h; rfl⟩

/-! ### Declarations of types -/

/-- A type that was declared is found unless its component leads elsewhere. -/
theorem getType?_declared {k : TypeKey} {i : Id} {op : Operation} {p : Nat}
    (hop : s.index.types.declaration k i = .ok op) (hk : s.getType? k = none)
    (ht : t.index = s.index) : (t.inserted .types p op).getType? k = some i ↔
      ∀ d ∈ k.component?, s.index.types.LeadsBack d := by
  have hid : (Instruction.ofChunk p op.words).resultId? = some i :=
    (resultId?_words p op).trans (TypeTable.resultId?_declaration hop)
  rw [← ht] at hop ⊢
  rw [Session.getType?, ← ht] at hk
  -- types have no places, so that they are the same after words have moved
  show ((t.exchanged .types p 0 op).index.register t.policy (.ofChunk p op.words)).types.get? k =
    some i ↔ _
  rw [Index.get?_register_iff (x := (t.exchanged .types p 0 op).index) hid hk,
    TypeTable.decode_eq_some]
  exact TypeTable.declares_declaration hop op.opcode?_words rfl

/-- Declares a type that is not found. -/
def declareNew (k : TypeKey) : Edit Id := do
  ensureNoBracket
  let s ← get
  match firstUndefined? s k.references with
  | some i => violate (.missingDependency k (.id i))
  | none =>
    match s.index.types.declaration k s.fresh with
    | .error missing => violate (.missingDependency k missing)
    | .ok op =>
      let i ← newId
      let _ ← append .types (op.setResultId i)
      if (← get).getType? k ≠ some i then throw .crash
      return i

theorem declareType_run_new {k : TypeKey} (hk : s.getType? k = none) :
    (declareType k).run s = (declareNew k).run s := by
  rw [declareType, run_get_bind, hk]
  rfl

/-- A type is declared in vain if its component is found under an id with another key. -/
theorem declareNew_crashes (h : s.Sound m) {k d : TypeKey} {b : Id} (hk : s.getType? k = none)
    (hs : s.Editable) (hb : s.fresh.succ? = some b) (hd : d ∈ k.component?)
    (hback : ¬ s.index.types.LeadsBack d) : (declareNew k).Crashes s := by
  obtain ⟨c, hc, -⟩ : ∃ c, s.index.types.get? d = some c ∧ s.index.types.keyOf? c ≠ some d := by
    simpa [TypeTable.LeadsBack] using hback
  obtain ⟨hrefs, op, hop, hl⟩ := TypeTable.declaration_of_component hd hc s.fresh
  obtain ⟨_, u, hguard, rfl⟩ := ensureNoBracket_answers hs
  obtain ⟨i, v, hnew, rfl, rfl⟩ := newId_answers hs.1 hb
  -- what was handed out is below the bound, so that the declaration is put in
  have hbelow (j : Id) (hj : op.resultId? = some j) : j.value < (u.raised b).bound := by
    rw [TypeTable.resultId?_declaration hop] at hj
    rw [← Option.some.inj hj]
    exact Id.lt_max_succ hb u.fresh
  have hshows := (h.raised b).shows
  obtain ⟨hp, hlen⟩ := bounds_of_accepts hshows (hshows.accepts_sectionStop .types)
  have happends : (append .types op).Answers (u.raised b) fun _ t =>
      t = (u.raised b).inserted .types ((u.raised b).sectionStop .types) op :=
    answers_get (insertInto_answers hs hl hbelow hp hlen)
  obtain ⟨_, w, happend, rfl⟩ := happends
  have hmiss : ((u.raised b).inserted .types ((u.raised b).sectionStop .types) op).getType? k ≠
      some u.fresh := by
    rw [ne_eq, getType?_declared (t := u.raised b) hop hk rfl]
    exact fun hall => hback (hall d hd)
  rw [declareNew, crashes_bind hguard, crashes_get]
  simp only [hrefs, firstUndefined?, List.find?_nil, hop]
  rw [crashes_bind hnew, TypeTable.setResultId_declaration hop, crashes_bind happend, crashes_get,
    if_pos hmiss]
  rfl

/-- There is no other way for a declaration to crash. -/
theorem of_declareNew_crashes (h : s.Sound m) {k : TypeKey} (hk : s.getType? k = none)
    (hcrash : (declareNew k).Crashes s) : s.Editable ∧ s.fresh.succ? ≠ none ∧
      ∃ d ∈ k.component?, ¬ s.index.types.LeadsBack d := by
  obtain ⟨_, u, ⟨rfl, hs⟩, hrest⟩ := ensureNoBracket_settles.of_crashes_bind hcrash
  replace hrest := crashes_get.mp hrest
  split at hrest
  · exact absurd hrest (violate_not_crashes _)
  split at hrest
  · exact absurd hrest (violate_not_crashes _)
  rename_i op hop
  obtain ⟨i, v, ⟨-, rfl, hv, hlt⟩, hrest⟩ := newId_settles.of_crashes_bind hrest
  obtain ⟨_, w, ⟨-, -, x, hx, -, -, rfl, -⟩, hrest⟩ :=
    (append_settles (hv.sound h).shows .types _).of_crashes_bind hrest
  replace hrest := crashes_get.mp hrest
  rw [TypeTable.setResultId_declaration hop] at hrest
  split at hrest
  · rename_i hmiss
    have hindex : x.index = u.index := hx.index.trans hv.index
    rw [ne_eq, getType?_declared hop hk hindex] at hmiss
    simp only [not_forall] at hmiss
    obtain ⟨d, hd, hback⟩ := hmiss
    refine ⟨hs, fun hmax => ?_, d, hd, hback⟩
    -- no bound is above the largest word
    rw [Id.succ?_eq_none.mp hmax, UInt32.lt_iff_toNat_lt] at hlt
    have := v.bound.toNat_lt
    simp only [UInt32.reduceToNat] at hlt
    omega
  · exact absurd hrest (pure_not_crashes _)

theorem declareType_crashes_iff (h : s.Sound m) (k : TypeKey) :
    (declareType k).Crashes s ↔ s.Editable ∧ s.getType? k = none ∧ s.fresh.succ? ≠ none ∧
      ∃ d ∈ k.component?, ¬ s.index.types.LeadsBack d := by
  cases hk : s.getType? k with
  | some i =>
    refine iff_of_false ?_ (by simp)
    rw [Crashes, declareType_found hk]
    exact nofun
  | none =>
    rw [Crashes, declareType_run_new hk, ← Crashes]
    constructor
    · intro hcrash
      obtain ⟨hs, hsucc, hback⟩ := of_declareNew_crashes h hk hcrash
      exact ⟨hs, rfl, hsucc, hback⟩
    · rintro ⟨hs, -, hsucc, d, hd, hback⟩
      obtain ⟨b, hb⟩ := Option.ne_none_iff_exists'.mp hsucc
      exact declareNew_crashes h hk hs hb hd hback

/-! ### Edits that never crash -/

/-- A part that does not crash may be followed by one that does not. -/
theorem not_crashes_bind (he : ¬ e.Crashes s)
    (hf : ∀ a t, e.run s = (.ok a, t) → ¬ (f a).Crashes t) : ¬ (e >>= f).Crashes s := by
  rw [Crashes, run_bind]
  rcases hrun : e.run s with ⟨r, t⟩
  cases r with
  | error x =>
    intro h
    cases h
    exact he (by rw [Crashes, hrun])
  | ok a => exact hf a t hrun

/-- What comes behind a part that appends is tried in a sound session. -/
theorem Appends.bind_not_crashes {R : α → List (Section × Operation) → Prop} (h : s.Sound m)
    (ha : e.Appends s R) (he : ¬ e.Crashes s)
    (hf : ∀ a u m', u.Sound m' → ¬ (f a).Crashes u) : ¬ (e >>= f).Crashes s := by
  refine not_crashes_bind he fun a t hrun => ?_
  obtain ⟨l, hadds, -⟩ := ha.answer hrun
  obtain ⟨m', h', -⟩ := hadds.sound h
  exact hf a t m' h'

theorem Settles.bind_not_crashes {A : α → Prop} (he : e.Settles s fun a t => t = s ∧ A a)
    (hf : ∀ a, A a → ¬ (f a).Crashes s) : ¬ (e >>= f).Crashes s := by
  intro hcrash
  obtain ⟨a, u, ⟨rfl, ha⟩, hrest⟩ := he.of_crashes_bind hcrash
  exact hf a ha hrest

section
variable {sec : Section} {op : Operation} (h : s.Sound m)
include h

theorem newId_bind_not_crashes {f : Id → Edit α} (hf : ∀ i u, u.Sound m → ¬ (f i).Crashes u) :
    ¬ (newId >>= f).Crashes s := by
  intro hcrash
  obtain ⟨i, u, ⟨-, -, hu, -⟩, hrest⟩ := newId_settles.of_crashes_bind hcrash
  exact hf i u (hu.sound h) hrest

theorem append_bind_not_crashes (sec : Section) (op : Operation) {f : Option Id → Edit α}
    (hf : ∀ a u, ¬ (f a).Crashes u) : ¬ (append sec op >>= f).Crashes s :=
  not_crashes_bind (append_settles h.shows sec op).not_crashes fun a u _ => hf a u

theorem appendDefining_not_crashes (sec : Section) (op : Operation) :
    ¬ (appendDefining sec op).Crashes s := by
  refine append_bind_not_crashes h sec op fun a u => ?_
  cases a with
  | some i => exact pure_not_crashes i
  | none => exact violate_not_crashes _

theorem checked_append_not_crashes (home sec : Section) (op : Operation) :
    ¬ (checkSection op home >>= fun _ => append sec op >>= fun _ => pure ()).Crashes s :=
  (checkSection_settles op home).bind_not_crashes fun _ _ =>
    append_bind_not_crashes h sec op fun _ _ => pure_not_crashes ()

theorem addConstant_not_crashes (op : Operation) : ¬ (addConstant op).Crashes s :=
  (checkSection_settles op .types).bind_not_crashes fun _ _ => appendDefining_not_crashes h _ op

theorem addVariable_not_crashes (op : Operation) : ¬ (addVariable op).Crashes s := by
  unfold addVariable
  split
  · exact violate_not_crashes _
  · exact appendDefining_not_crashes h _ op

theorem declareStruct_not_crashes (members : List Id) : ¬ (declareStruct members).Crashes s := by
  rw [declareStruct, crashes_get]
  split
  · exact pure_not_crashes _
  · refine ensureNoBracket_settles.bind_not_crashes fun _ _ => ?_
    rw [crashes_get]
    split
    · exact violate_not_crashes _
    · refine newId_bind_not_crashes h fun i u hu => ?_
      exact append_bind_not_crashes hu _ _ fun _ _ => pure_not_crashes i

theorem importExtInst_not_crashes (name : String) : ¬ (importExtInst name).Crashes s := by
  rw [importExtInst, crashes_get]
  split
  · exact pure_not_crashes _
  · refine ensureNoBracket_settles.bind_not_crashes fun _ _ => ?_
    exact newId_bind_not_crashes h fun i u hu => appendDefining_not_crashes hu _ _

/-- The declaration of a scalar depends on no other type. -/
theorem typed_not_crashes {v : Scalar} {g : Id → Id → Edit α}
    (hg : ∀ type i u m', u.Sound m' → ¬ (g type i).Crashes u) :
    ¬ (declareType (.scalar v) >>= fun type => newId >>= g type).Crashes s := by
  refine (declareType_appends h _).bind_not_crashes h ?_ fun type u m' hu => ?_
  · rw [declareType_crashes_iff h]
    simp [TypeKey.component?]
  · exact newId_bind_not_crashes hu fun i w hw => hg type i w m' hw

theorem addConstantImmediate_not_crashes (v : Immediate) :
    ¬ (addConstantImmediate v).Crashes s :=
  typed_not_crashes h fun _ _ _ _ hu => addConstant_not_crashes hu _

theorem addSpecConstantImmediate_not_crashes (v : Immediate) (n : Word) :
    ¬ (addSpecConstantImmediate v n).Crashes s := by
  refine typed_not_crashes h fun type i u m' hu => ?_
  refine (addConstant_appends hu _).bind_not_crashes hu (addConstant_not_crashes hu _) ?_
  intro j w m'' hw
  refine not_crashes_bind (checked_append_not_crashes hw .annotations .annotations _) ?_
  exact fun _ _ _ => pure_not_crashes j

theorem decorateStorageBuffer_not_crashes (i : Id) : ¬ (decorateStorageBuffer i).Crashes s := by
  rw [decorateStorageBuffer, crashes_get]
  exact checked_append_not_crashes h .annotations .annotations _

/-- Operations that are at home in a section are appended to it one after the other. -/
theorem appendEach_not_crashes {ops : List Operation}
    (hh : ∀ op ∈ ops, op.opcode.home?.all (· = sec)) :
    ¬ (ops.forM fun op => append sec op >>= fun _ => pure ()).Crashes s := by
  induction ops generalizing s m with
  | nil => exact pure_not_crashes ()
  | cons op ops ih =>
    obtain ⟨hop, hops⟩ := List.forall_mem_cons.mp hh
    have hfirst : (append sec op >>= fun _ => pure ()).Appends s fun _ _ => True :=
      (append_appends h hop).map fun _ _ _ => trivial
    refine hfirst.bind_not_crashes h ?_ fun _ u m' hu => ih hu hops
    exact append_bind_not_crashes h sec op fun _ _ => pure_not_crashes ()

theorem addFunction_not_crashes (ops : List Operation) : ¬ (addFunction ops).Crashes s :=
  (checkSections_settles ops .functions).bind_not_crashes fun _ hh => appendEach_not_crashes h hh

end

end Edit

/-! ## Commands -/

/-- Whether the change of operands that a command asks for breaks off where the command makes it. -/
def Command.BreaksOff (s : Session) : Command → Prop
  | operands p change => s.breach = none ∧ s.BreaksOff p change
  | modifyOperands p change =>
    s.Editable ∧ ∃ i ∈ s.instruction? p, change.apply i.operands = none
  | _ => False

/-- Whether a command declares a new type by the id of a component that has another key. -/
def Command.Misreads (s : Session) : Command → Prop
  | declareType k => s.Editable ∧ s.getType? k = none ∧ s.fresh.succ? ≠ none ∧
      ∃ d ∈ k.component?, ¬ s.index.types.LeadsBack d
  | _ => False

namespace Edit

variable {s : Session} {m : Outline} {p : Nat}

theorem operands_crashes_iff (change : OperandChange) : (operands p change).Crashes s ↔
    (Command.operands p change).BreaksOff s := by
  constructor
  · intro hcrash
    rcases operands_run (s := s) change with hrun | ⟨b, hb, hp, hnone, -⟩
    · exact absurd hcrash hrun.not_crashes
    · refine ⟨?_, b, hb, hp, hnone⟩
      by_contra hs
      have haborted : s.aborted := Option.isSome_iff_ne_none.mpr hs
      exact ((ensureLive_stops haborted).bind _).not_crashes hcrash
  · rintro ⟨hs, b, hb, rfl, hnone⟩
    rw [Crashes, operands_run_of_bracket hs hb, hnone]

/-- The bracket opens before the change of operands is tried. -/
theorem modifyOperands_crashes_iff (h : s.Sound m) (hp : s.IsPlace p) (change : OperandChange) :
    (modifyOperands p change).Crashes s ↔ (Command.modifyOperands p change).BreaksOff s := by
  constructor
  · intro hcrash
    obtain ⟨_, u, ⟨hs, i, hi, -⟩, -⟩ := beginModify_settles.of_crashes_bind hcrash
    refine ⟨hs, i, hi, ?_⟩
    by_contra hsome
    obtain ⟨new, hnew⟩ := Option.ne_none_iff_exists'.mp hsome
    exact (modifyOperands_answers h hs hp hi hnew).not_crashes hcrash
  · rintro ⟨hs, i, hi, hnone⟩
    obtain ⟨_, u, hopen, rfl⟩ := beginModify_answers hs hi
    obtain ⟨sec, xs, c, zs, hm, rfl⟩ := h.shows.split_of_instruction? hp hi
    cases c with
    | nil => exact (hm.isChunk (List.mem_singleton_self _)).elim
    | cons w us =>
      have hops := operands_of_splits (h.opened hm).shows hm
      rw [modifyOperands, crashes_bind hopen]
      refine crashes_bind_left ((operands_crashes_iff change).mpr ⟨hs.1, _, rfl, rfl, ?_⟩)
      rw [← hnone]
      exact congrArg change.apply hops

end Edit

/-- A command with proper places crashes exactly if its change of operands breaks off or it misreads
the type that it declares. -/
theorem perform_crash_iff {s : Session} {m : Outline} (h : s.Sound m) {c : Command}
    (hc : c.Proper s) : (s.perform c).1 = .error .crash ↔ c.BreaksOff s ∨ c.Misreads s := by
  -- what never crashes neither breaks off nor misreads
  have never {α : Type} {e : Edit α} {g : α → Answer} (he : ¬ e.Crashes s)
      (heq : c.edit = e >>= fun a => pure (g a)) (hno : ¬ (c.BreaksOff s ∨ c.Misreads s)) :
      (s.perform c).1 = .error .crash ↔ c.BreaksOff s ∨ c.Misreads s := by
    rw [Session.perform, heq]
    exact iff_of_false ((Edit.crashes_map g).not.mpr he) hno
  have no : ¬ (False ∨ False) := by simp
  cases c with
  | newId => exact never Edit.newId_settles.not_crashes rfl no
  | insert p op => exact never (Edit.insert_settles h.shows).not_crashes rfl no
  | replace p op => exact never Edit.replace_settles.not_crashes rfl no
  | remove p => exact never Edit.remove_settles.not_crashes rfl no
  | beginModify p => exact never Edit.beginModify_settles.not_crashes rfl no
  | endModify p => exact never (Edit.endModify_settles h).not_crashes rfl no
  | operands p change =>
    have hiff := (Edit.crashes_map Answer.operands).trans
      (Edit.operands_crashes_iff (s := s) (p := p) change)
    exact hiff.trans (or_iff_left not_false).symm
  | modifyOperands p change =>
    have hiff := (Edit.crashes_map fun _ => Answer.done).trans
      (Edit.modifyOperands_crashes_iff h (hc p rfl) change)
    exact hiff.trans (or_iff_left not_false).symm
  | declareType k =>
    have hiff := (Edit.crashes_map Answer.id).trans (Edit.declareType_crashes_iff h k)
    exact hiff.trans (or_iff_right not_false).symm
  | declareStruct members => exact never (Edit.declareStruct_not_crashes h members) rfl no
  | addType op => exact never (Edit.addConstant_not_crashes h op) rfl no
  | addConstant op => exact never (Edit.addConstant_not_crashes h op) rfl no
  | addVariable op => exact never (Edit.addVariable_not_crashes h op) rfl no
  | addConstantImmediate v => exact never (Edit.addConstantImmediate_not_crashes h v) rfl no
  | addSpecConstantImmediate v n =>
    exact never (Edit.addSpecConstantImmediate_not_crashes h v n) rfl no
  | addDecoration op => exact never (Edit.checked_append_not_crashes h _ _ op) rfl no
  | addExecutionMode op => exact never (Edit.checked_append_not_crashes h _ _ op) rfl no
  | addCapability c =>
    exact never (Edit.append_bind_not_crashes h _ _ fun _ _ => Edit.pure_not_crashes ()) rfl no
  | addExtension name =>
    exact never (Edit.append_bind_not_crashes h _ _ fun _ _ => Edit.pure_not_crashes ()) rfl no
  | importExtInst name => exact never (Edit.importExtInst_not_crashes h name) rfl no
  | decorateStorageBuffer i =>
    exact never (Edit.decorateStorageBuffer_not_crashes h i) rfl no
  | setName i text =>
    exact never (Edit.append_bind_not_crashes h _ _ fun _ _ => Edit.pure_not_crashes ()) rfl no
  | setMemberName i n text =>
    exact never (Edit.append_bind_not_crashes h _ _ fun _ _ => Edit.pure_not_crashes ()) rfl no
  | addFunction ops => exact never (Edit.addFunction_not_crashes h ops) rfl no

/-! ## Runs -/

/-- Whether all that a session reads or moves lies within its words. -/
structure Session.InRange (s : Session) : Prop where
  header : headerWords ≤ s.words.length
  sections : ∀ sec, headerWords ≤ s.sectionStart sec ∧ s.sectionStart sec ≤ s.sectionStop sec ∧
    s.sectionStop sec ≤ s.words.length
  instructions : ∀ p, ∀ i ∈ s.instruction? p, headerWords ≤ p ∧ p + i.wordCount ≤ s.words.length
  bracket : ∀ b ∈ s.bracket, headerWords ≤ b.offset ∧ 0 < b.wordCount ∧
    b.offset + b.wordCount ≤ s.words.length
  located : ∀ id, ∀ p ∈ s.locate? id, (s.instruction? p).isSome

namespace Reached

variable {s : Session}

theorem inRange (h : Reachable s) : s.InRange := by
  obtain ⟨m, hm⟩ := h.sound
  refine ⟨hm.shows.header, fun sec => ?_, fun p i hi => at?_bounds hi, fun b hb => ?_,
    fun id p hp => ?_⟩
  · have hstart : headerWords ≤ m.contents.start sec := Nat.le_add_right ..
    rw [hm.shows.sectionStart_eq]
    refine ⟨hstart, ?_, (Edit.bounds_of_accepts hm.shows (hm.shows.accepts_sectionStop sec)).2⟩
    rw [hm.shows.sectionStop_eq]
    exact m.contents.start_le_stop sec
  · obtain ⟨sec, xs, w, us, zs, hsplit, hl⟩ := hm.split_of_bracket hb
    obtain ⟨hp, hlen⟩ := at?_bounds (hm.shows.instruction?_of_splits hsplit)
    rw [hl]
    exact ⟨hp, Nat.succ_pos _, hlen⟩
  · obtain ⟨i, hi, rfl, -⟩ := h.reflects.exists_of_definition id p hp
    obtain ⟨sec, xs, c, zs, hsplit, -⟩ := hm.shows.split_of_mem_listing (List.mem_of_mem_filter hi)
    rw [hm.shows.instruction?_of_splits hsplit]
    rfl

/-- At every point of a run a command crashes exactly if its change of operands breaks off, or if
it declares a type whose component is found under an id with another key. That takes an id that is
defined more than once. All words that are read or moved are there. -/
theorem crashes_iff (hs : Reachable s) {c : Command} (hc : c.Proper s) :
    ((s.perform c).1 = .error .crash ↔ c.BreaksOff s ∨ c.Misreads s) ∧
      (Reached IdsDistinct s → ¬ c.Misreads s) ∧ s.InRange := by
  obtain ⟨m, hm⟩ := hs.sound
  refine ⟨perform_crash_iff hm hc, fun hd hmis => ?_, hs.inRange⟩
  cases c with
  | declareType k =>
    obtain ⟨-, -, -, d, -, hback⟩ := hmis
    exact hback (hd.keyed.linked.leadsBack d)
  | _ => exact hmis

/-- A type is declared and a bracket opens around it. -/
def bracketedFloat : List Command := [.declareType (.scalar (.float 32)), .beginModify 5]

/-- To ask for an operand that is not there is a crash, to declare a vector of the type is not. -/
theorem crashes_iff_bracketedFloat :
    (((Session.create .never ⟨1, 3⟩ 0).performAll bracketedFloat).perform
        (.operands 5 (.demand 7 some))).1 = .error .crash ∧
      (((Session.create .never ⟨1, 3⟩ 0).performAll (bracketedFloat.take 1)).perform
        (.declareType (.vector ⟨.float 32, 4⟩))).1 ≠ .error .crash := by
  have h : Reachable ((Session.create .never ⟨1, 3⟩ 0).performAll bracketedFloat) :=
    Reached.performAll (.create _ _ _ trivial) (by decide +kernel)
  have hd : Reached IdsDistinct
      ((Session.create .never ⟨1, 3⟩ 0).performAll (bracketedFloat.take 1)) :=
    Reached.performAll (.create _ _ _ (by decide)) (by decide +kernel)
  constructor
  · refine (h.crashes_iff (by decide +kernel)).1.mpr (.inl ⟨by decide +kernel, ⟨5, 3⟩, ?_⟩)
    exact ⟨by decide +kernel, rfl, by decide +kernel⟩
  · obtain ⟨hiff, hmis, -⟩ :=
      hd.reachable.crashes_iff (c := .declareType (.vector ⟨.float 32, 4⟩)) (by decide +kernel)
    rw [ne_eq, hiff]
    exact fun hcrash => hcrash.elim id (hmis hd)

/-- A module in which one id is defined as an integer type and as a float type. -/
def twiceDefined : List Word :=
  [SpirvModule.magic, Version.word ⟨1, 3⟩, 0, 2, 0] ++
    [⟨.opTypeInt, [1, 32, 0]⟩, (⟨.opTypeFloat, [1, 32]⟩ : Operation)].flatMap Operation.words

/-- A vector of the integers cannot be declared in that module, for it is read back as a vector of
floats. -/
theorem declared_vector_crashes : ¬ ∀ (s : Session) (c : Command), Reachable s → c.Proper s →
    ¬ c.BreaksOff s → (s.perform c).1 ≠ .error .crash := by
  intro h
  have hopens : (Session.ofWords .never twiceDefined).isOk := by decide +kernel
  have hcrash : (Session.ofWords .never twiceDefined).toOption.map
      (fun s => (s.perform (.declareType (.vector ⟨.int 32 false, 4⟩))).1) =
        some (.error .crash) := by decide +kernel
  cases hs : Session.ofWords .never twiceDefined with
  | error e =>
    rw [hs] at hopens
    cases hopens
  | ok s =>
    rw [hs] at hcrash
    exact h s (.declareType _) (.ofWords hs trivial) nofun not_false (Option.some.inj hcrash)

end Reached

end SpirvModule
