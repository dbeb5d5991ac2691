import SpirvModule.Proofs.Constants
import SpirvModule.Proofs.Imports
import SpirvModule.Proofs.Persistence
import SpirvModule.Proofs.Sweeping

/-!
# A named constant that is added

The scenario that adds a constant needs at most two ids: one for the type, if that is not declared
yet, and one for the constant. If they are left, nothing can go wrong: the operations have no flaw,
and each comes to the end of its section, in front of the constant or where it stood. The constant is
the end of the types, so that it is found there and read back, and its name is found if no other
instruction gives the same name.

* `Instruction.uintId?`: the id that an instruction declares the unsigned word as.
* `Scenario.injected`: the operations that come to each section.

Results:
* `Session.getType?_uint`: the type that is found is the first that is declared.
* `Edit.addSpecConstantImmediate_answers`: when a constant can be added, and its ids.
* `Scenario.specConstant_adds_instructions`: the module that comes of it.
-/
namespace SpirvModule

open Session

/-! ## The type of the constant -/

/-- Unsigned integers of one word. -/
def TypeKey.uint : TypeKey := .scalar (.int 32 false)

/-- The id that an instruction declares the unsigned integers of one word as. -/
def Instruction.uintId? (i : Instruction) : Option Id :=
  if i.opcode? = some .opTypeInt ∧ i.operands[1]? = some 32 ∧ i.operands[2]? = some 0 then
    i.resultId?
  else none

/-- A type of integers does not depend on those that are declared. -/
theorem TypeTable.decode_uint {t : TypeTable} {i : Instruction} : t.decode i = some .uint ↔
    i.opcode? = some .opTypeInt ∧ i.operands[1]? = some 32 ∧ i.operands[2]? = some 0 := by
  rw [decode_eq_some]
  constructor
  · intro h
    generalize hk : TypeKey.uint = k at h
    cases h with
    | int hop h =>
      obtain ⟨rfl, hsigned⟩ := Scalar.int.inj (TypeKey.scalar.inj hk)
      have hzero := of_decide_eq_false hsigned.symm
      exact ⟨hop, by rw [h]; rfl, by rw [h, not_not.mp hzero]; rfl⟩
    | _ => cases hk
  · rintro ⟨hop, hwidth, hsigned⟩
    match hops : i.operands with
    | [] | [_] | [_, _] => simp [hops] at hwidth hsigned
    | w :: width :: signed :: r =>
      rw [hops] at hwidth hsigned
      obtain rfl : width = 32 := Option.some.inj hwidth
      obtain rfl : signed = 0 := Option.some.inj hsigned
      exact .int hop hops

namespace Index

variable {policy : StructPolicy}

/-- The first declaration counts. -/
theorem get?_uint_register (x : Index) (i : Instruction) :
    (x.register policy i).types.get? .uint = (x.types.get? .uint).or i.uintId? := by
  cases hget : x.types.get? .uint with
  | some d => exact get?_register policy hget
  | none =>
    rw [Option.none_or, Instruction.uintId?]
    simp only [← TypeTable.decode_uint (t := x.types)]
    cases x.register_gains policy i with
    | idle hids _ hno =>
      rw [TypeTable.get?_congr hids, hget]
      split
      · rename_i hdecode
        cases hid : i.resultId? with
        | none => rfl
        | some id => cases (hno id hid).symm.trans hdecode
      · rfl
    | @type id k hid hk hu =>
      rw [hu, hk, hid]
      cases hget' : x.types.get? k with
      | some d =>
        rw [TypeTable.insert_of_isSome (hget' ▸ rfl : (x.types.get? k).isSome), hget, if_neg]
        rintro ⟨⟩
        cases hget.symm.trans hget'
      | none =>
        rw [TypeTable.get?_insert hget', hget]
        simp only [Option.some.injEq]

theorem get?_uint_foldl (x : Index) (l : List Instruction) :
    (l.foldl (register policy) x).types.get? .uint =
      (x.types.get? .uint).or (l.findSome? (·.uintId?)) := by
  induction l generalizing x with
  | nil => simp
  | cons i r ih =>
    rw [List.foldl_cons, ih, get?_uint_register, List.findSome?_cons, Option.or_assoc]
    cases i.uintId? <;> rfl

end Index

/-- In a module that was opened, the first declaration is found. -/
theorem Session.getType?_uint {policy : StructPolicy} {ws : List Word} {s : Session}
    (hs : ofWords policy ws = .ok s) : s.getType? .uint = s.listing.findSome? (·.uintId?) := by
  obtain ⟨m, -, -, hindex, -⟩ := ofWords_sound hs
  rw [getType?, hindex, Index.ofInstructions, Index.get?_uint_foldl]
  simp [Index.empty, TypeTable.empty, TypeTable.get?]

/-! ## Adding the constant -/

/-- Two ids follow on an id that is not one of the last two. -/
theorem Id.exists_two_above {i : Id} (h : i.value ≤ 0xFFFFFFFD) :
    ∃ b d, i.succ? = some b ∧ b.succ? = some d := by
  rw [UInt32.le_iff_toNat_le] at h
  simp only [UInt32.reduceToNat] at h
  have hlast {c : Id} (hc : c.value.toNat ≤ 0xFFFFFFFE) : ∃ b, c.succ? = some b := by
    refine Option.ne_none_iff_exists'.mp (mt Id.succ?_eq_none.mp fun heq => ?_)
    rw [heq] at hc
    simp at hc
  obtain ⟨b, hb⟩ := hlast (c := i) (by omega)
  have hvalue : b.value = i.value + 1 := Id.ofWord?_eq_some.mp hb
  obtain ⟨d, hd⟩ := hlast (c := b) (by rw [hvalue, UInt32.toNat_add]; simp; omega)
  exact ⟨b, d, hb, hd⟩

/-- No instruction of a module that was opened defines an id from the bound on. -/
theorem Session.ne_of_bound_le {policy : StructPolicy} {ws : List Word} {s : Session}
    (hs : ofWords policy ws = .ok s) {j : Instruction} (hj : j ∈ s.listing) {id c : Id}
    (hid : id ∈ j.resultId?) (hc : s.bound ≤ c.value) : id ≠ c := by
  rintro rfl
  exact UInt32.not_lt.mpr hc (idsBelow_ofWords hs id (mem_definedIds hj hid))

namespace Edit

variable {s : Session} {m : Outline} {sec : Section} {op : Operation}

theorem checkSection_answers (h : op.mayStandIn sec) :
    (checkSection op sec).Answers s fun _ t => t = s :=
  ⟨(), s, checkSection_run h, rfl⟩

/-- An operation without a flaw is appended, also where nobody asks for its id. -/
theorem append_done_answers (h : s.Sound m) (hs : s.Editable) (hh : op.mayStandIn sec)
    (hop : op.flawless) : (append sec op >>= fun _ => pure ()).Answers s fun _ t =>
      s.Grows sec op t ∧ ∃ m', t.Sound m' := by
  obtain ⟨a, t, hrun, hgrows, -, ht⟩ := append_flawless h hs hh hop
  exact ⟨(), t, run_map hrun fun _ => (), hgrows, ht⟩

/-- A constant without a flaw is added. -/
theorem addConstant_answers (h : s.Sound m) (hs : s.Editable) (hh : op.mayStandIn .types)
    (hop : op.flawless) {i : Id} (hid : op.resultId? = some i) :
    (addConstant op).Answers s fun j t => j = i ∧ s.Grows .types op t ∧ ∃ m', t.Sound m' := by
  unfold addConstant appendDefining
  refine (checkSection_answers hh).bind fun _ u hu => ?_
  subst hu
  obtain ⟨a, t, hrun, hgrows, -, ht⟩ := append_flawless h hs hh hop
  obtain ⟨rfl, -⟩ := append_yields h hh _ _ hrun
  refine Answers.bind (P := fun a u => a = some i ∧ u = t) ⟨_, t, hrun, hid, rfl⟩ ?_
  rintro _ _ ⟨rfl, rfl⟩
  exact answers_pure ⟨rfl, hgrows, ht⟩

/-- So is a decoration. -/
theorem addDecoration_answers (h : s.Sound m) (hs : s.Editable) (hh : op.mayStandIn .annotations)
    (hop : op.flawless) :
    (addDecoration op).Answers s fun _ t => s.Grows .annotations op t ∧ ∃ m', t.Sound m' := by
  unfold addDecoration
  refine (checkSection_answers hh).bind fun _ u hu => ?_
  subst hu
  exact append_done_answers h hs hh hop

/-- And a name. -/
theorem setName_answers (h : s.Sound m) (hs : s.Editable) {i : Id} {text : String}
    (hop : (Operation.name i text).flawless) :
    (setName i text).Answers s fun _ t =>
      s.Grows .debugNames (.name i text) t ∧ ∃ m', t.Sound m' :=
  append_done_answers h hs (home_of_mem (by simp [Operation.name, Section.residents])) hop

/-- What defines no id has no flaw if it is short enough. -/
theorem flawless_of_anonymous (hshort : op.wordCount ≤ maxWords) (hid : op.resultId? = none) :
    op.flawless :=
  Operation.flawless_iff.mpr ⟨hshort, by simp [hid]⟩

/-- With two ids left, a constant gets its type, an id and its place. The type is found, or declared
with the first of the ids. -/
theorem typedConstant_answers (h : s.Sound m) (hs : s.Editable) (c : Scalar)
    {f : Id → Id → Operation} (hid : ∀ type i, (f type i).resultId? = some i)
    (hop : ∀ type i, (f type i).opcode ∉ .opTypeStruct :: TypeKey.opcodes)
    (hhome : ∀ type i, (f type i).mayStandIn .types)
    (hshort : ∀ type i, (f type i).wordCount ≤ maxWords) {b d : Id}
    (hb : s.fresh.succ? = some b) (hd : b.succ? = some d) :
    (declareType (.scalar c) >>= fun type => newId >>= fun i => addConstant (f type i)).Answers s
      fun i t => ∃ type, type = (s.getType? (.scalar c)).getD s.fresh ∧
        i = (if (s.getType? (.scalar c)).isSome then s.fresh else b) ∧
        s.AddsConstant c (f type i) [] type i t ∧ ∃ m', t.Sound m' := by
  refine (declareScalar_answers h hs c fun _ => hb).bind ?_
  rintro type u ⟨⟨hsu, m₁, hu⟩, htype, hfresh⟩
  have hedit : u.Editable := hs.of_frame hsu.frame
  obtain ⟨e, he⟩ : ∃ e, u.fresh.succ? = some e := by
    rw [hfresh]
    split
    · exact ⟨b, hb⟩
    · exact ⟨d, hd⟩
  refine (newId_answers hedit.1 he).bind ?_
  rintro i _ ⟨rfl, rfl⟩
  have hflawless : (f type u.fresh).flawless := by
    refine Operation.flawless_iff.mpr ⟨hshort type u.fresh, fun j hj => ?_⟩
    rw [← Option.some.inj ((hid type u.fresh).symm.trans hj), he]
    exact Option.some_ne_none e
  refine (addConstant_answers (hu.raised e) (s := u.raised e) hedit (hhome type u.fresh) hflawless
    (hid type u.fresh)).mono ?_
  rintro _ t ⟨rfl, hgrows, m₂, ht⟩
  exact ⟨type, htype, hfresh, addsConstant_of_growsFresh hsu hu (hid type u.fresh)
    (hop type u.fresh) ⟨rfl, ⟨e, he, hgrows⟩, m₂, ht⟩, m₂, ht⟩

/-- So with two ids left, a constant is added with a number under which it may be overridden. -/
theorem addSpecConstantImmediate_answers (h : s.Sound m) (hs : s.Editable) (v : Immediate)
    (n : Word) {b d : Id} (hb : s.fresh.succ? = some b) (hd : b.succ? = some d) :
    (addSpecConstantImmediate v n).Answers s fun i t => ∃ type,
      type = (s.getType? (.scalar v.type.scalar)).getD s.fresh ∧
      i = (if (s.getType? (.scalar v.type.scalar)).isSome then s.fresh else b) ∧
      s.AddsConstant v.type.scalar (.specConstant type i v.words) [.decorate i .specId [n]] type i
        t ∧ ∃ m', t.Sound m' := by
  have hopcode : Opcode.opSpecConstant ∉ .opTypeStruct :: TypeKey.opcodes := by decide
  rw [addSpecConstantImmediate_eq]
  refine (typedConstant_answers h hs v.type.scalar
    (fun type i => resultId?_specConstant type i v.words) (fun _ _ => hopcode)
    (fun _ _ => home_of_mem (by simp [Operation.specConstant, Section.residents]))
    (fun _ _ => ?_) hb hd).bind ?_
  · cases v <;> simp [Operation.wordCount, Operation.specConstant, Immediate.words,
      Immediate.halves, maxWords]
  rintro i t ⟨type, htype, hi, hst, m₁, ht⟩
  have hnote := Operation.resultId?_decorate i .specId [n]
  have hhome : (Operation.decorate i .specId [n]).mayStandIn .annotations :=
    home_of_mem (by simp [Operation.decorate, Section.residents])
  have hflawless : (Operation.decorate i .specId [n]).flawless :=
    flawless_of_anonymous (by simp [Operation.wordCount, Operation.decorate, maxWords]) hnote
  refine (addDecoration_answers ht (hst.editable hs) hhome hflawless).bind ?_
  rintro _ u ⟨htu, m₂, hu⟩
  exact answers_pure ⟨type, htype, hi, hst.decorated ht.shows htu hu.shows hnote, m₂, hu⟩

end Edit

/-! ## The name of the constant -/

/-- A name defines no id. -/
theorem Operation.resultId?_name (i : Id) (text : String) : (name i text).resultId? = none := by
  have hindex : Opcode.resultIndex? .opName = none := by decide +kernel
  simp [resultId?, name, hindex]

/-- A name that is written is read up to its first NUL. -/
theorem Operation.nameOf?_name (p : Nat) (i u : Id) (text : String) :
    (Instruction.ofChunk p (name i text).words).nameOf? u =
      if u = i then some (Literal.upToNul text) else none := by
  have hop : (Instruction.ofChunk p (name i text).words).opcode? = some .opName :=
    (name i text).opcode?_words
  have htarget : (Instruction.ofChunk p (name i text).words).idOperand? 0 = some i :=
    Id.ofWord?_value i
  have htext := Operation.stringOperand?_pack p .opName i.value text
  rw [Instruction.nameOf?, htarget]
  refine if_congr ?_ htext rfl
  rw [and_iff_right hop, Option.some.injEq, eq_comm]

/-- Names are at home in one section. -/
theorem Session.Shows.exists_nameOf? {s : Session} {m : Outline} (h : s.Shows m) (u : Id)
    (text : String) : (∃ j ∈ s.listing, j.nameOf? u = some text) ↔
      ∃ c ∈ s.contents .debugNames, (Instruction.ofChunk 0 c).nameOf? u = some text := by
  constructor
  · rintro ⟨j, hj, hname⟩
    obtain ⟨sec, -, hj⟩ := List.mem_flatMap.mp hj
    rw [h.instructions_eq] at hj
    obtain ⟨cs, c, r, hcs, rfl⟩ := place_split hj
    have hc : c ∈ m.contents sec := hcs ▸ List.mem_append_right _ List.mem_cons_self
    have hop := (Option.ite_none_right_eq_some.mp hname).1.1
    obtain rfl : .debugNames = sec := by
      refine (m.fits sec c hc).home (p := m.contents.start sec + cs.flatten.length) ?_
      rw [Instruction.home?, hop]
      rfl
    exact ⟨c, h.contents_eq ▸ hc, hname⟩
  · rintro ⟨c, hc, hname⟩
    obtain ⟨j, hj, rfl⟩ := List.mem_map.mp hc
    exact ⟨j, List.mem_flatMap.mpr ⟨_, Section.mem_all _, hj⟩, hname⟩

/-- A name that comes to the others is the only one that is new. -/
theorem Session.Shows.exists_nameOf?_append {s t : Session} {m m' : Outline} (h : s.Shows m)
    (ht : t.Shows m') {i : Id} {text : String}
    (hst : t.contents .debugNames = s.contents .debugNames ++ [(Operation.name i text).words])
    (u : Id) (text' : String) : (∃ j ∈ t.listing, j.nameOf? u = some text') ↔
      (∃ j ∈ s.listing, j.nameOf? u = some text') ∨ (u = i ∧ text' = Literal.upToNul text) := by
  rw [ht.exists_nameOf?, h.exists_nameOf?, hst]
  simp only [List.mem_append, List.mem_singleton, or_and_right, exists_or, exists_eq_left,
    Operation.nameOf?_name, Option.ite_none_right_eq_some, Option.some.injEq,
    eq_comm (a := Literal.upToNul text)]

/-! ## The scenario -/

namespace Scenario

/-- The operations that come to a section when a constant with the id `i` and a type `type` is added
to a module, and the type as well unless it is `declared`. -/
def injected (declared : Bool) (type i : Id) (value specId : Word) : Section → List Operation
  | .debugNames => [.name i constantName]
  | .annotations => [.decorate i .specId [specId]]
  | .types => (if declared then [] else [⟨.opTypeInt, [type.value, 32, 0]⟩]) ++
      [.specConstant type i [value]]
  | _ => []

/-- What a module is like to which the constant was added. -/
structure Injects (s : Session) (value specId : Word) (type i : Id) (t : Session) : Prop where
  reached : ReachedUnder (fun _ => True) (fun s c => c.Answered s ∧ ¬ c.Strays s) t
  moves : Moves s t
  editable : t.Editable
  newest : i.succ? = some t.fresh
  contents : ∀ sec, t.contents sec = s.contents sec ++
    (injected (s.getType? .uint).isSome type i value specId sec).map Operation.words
  closes : t.ClosesWith .types (Operation.specConstant type i [value]).words i

variable {s u t : Session} {m m₁ m₂ : Outline} {value specId : Word} {type i b d : Id}

/-- The sections of a module to which a constant was added and then its name. -/
theorem contents_named
    (hsu : s.AddsConstant (.int 32 false) (.specConstant type i [value])
      [.decorate i .specId [specId]] type i u)
    (hut : u.Grows .debugNames (.name i constantName) t) (sec : Section) :
    t.contents sec = s.contents sec ++
      (injected (s.getType? .uint).isSome type i value specId sec).map Operation.words := by
  rw [hut.contents, Contents.append]
  cases sec with
  | debugNames =>
    rw [Function.update_self, hsu.others _ (by decide) (by decide)]
    rfl
  | types =>
    rw [Function.update_of_ne (by decide)]
    exact hsu.types
  | annotations =>
    rw [Function.update_of_ne (by decide)]
    exact hsu.annotations
  | _ =>
    rw [Function.update_of_ne (by decide), hsu.others _ (by decide) (by decide)]
    exact (List.append_nil _).symm

/-- A run goes on with a command that finds its place itself and brings no operation along. -/
theorem goes_on (hs : ReachedUnder (fun _ => True) (fun s c => c.Answered s ∧ ¬ c.Strays s) s)
    {c : Command} {a : Answer} (hrun : s.perform c = (.ok a, t)) (hplace : c.offset? = none)
    (hgiven : c.given? s = none) :
    ReachedUnder (fun _ => True) (fun s c => c.Answered s ∧ ¬ c.Strays s) t ∧ Moves s t := by
  have hc : c.Proper s := by simp [Command.Proper, hplace]
  have hstray : ¬ c.Strays s := by simp [Command.Strays, hgiven]
  obtain ⟨m, hm⟩ := hs.reachable.sound
  have hmoves := (perform_leads hm hc).1
  rw [hrun] at hmoves
  exact ⟨hs.next hrun hc ⟨⟨a, by rw [hrun]⟩, hstray⟩, hmoves⟩

/-- The constant is added in two edits. -/
theorem injects_of_edits
    (hs : ReachedUnder (fun _ => True) (fun s c => c.Answered s ∧ ¬ c.Strays s) s)
    (hedit : s.Editable)
    (hadd : (Edit.addSpecConstantImmediate (.u32 value) specId).run s = (.ok i, u))
    (hsu : s.AddsConstant (.int 32 false) (.specConstant type i [value])
      [.decorate i .specId [specId]] type i u) (hu : u.Sound m₁)
    (hname : (Edit.setName i constantName).run u = (.ok (), t))
    (hut : u.Grows .debugNames (.name i constantName) t) (ht : t.Sound m₂) :
    Injects s value specId type i t := by
  have hnote : (Operation.name i constantName).resultId? = none := Operation.resultId?_name ..
  have hadded : s.perform (.addSpecConstantImmediate (.u32 value) specId) = (.ok (.id i), u) :=
    Edit.run_map hadd Answer.id
  have hnamed : u.perform (.setName i constantName) = (.ok .done, t) :=
    Edit.run_map hname fun _ => Answer.done
  obtain ⟨hreached, hmoves⟩ := goes_on hs hadded rfl rfl
  obtain ⟨hreached', hmoves'⟩ := goes_on hreached hnamed rfl rfl
  refine ⟨hreached', hmoves.trans hmoves', (hsu.editable hedit).of_frame hut.frame, ?_,
    contents_named hsu hut,
    (hsu.closesWith hu.shows).grows hu.shows hut ht.shows (by decide) hnote⟩
  have hfresh : t.fresh = u.fresh := by
    rw [hut.fresh, Operation.freshAfter, hnote]
    rfl
  rw [hfresh]
  exact hsu.newest

namespace Injects

/-- The name is found, if it was not there before. -/
theorem findByName (h : Injects s value specId type i t) (hm : s.Shows m)
    (hnone : ∀ j ∈ s.listing, j.opcode? = some .opName → j.stringOperand? 1 ≠ some constantName) :
    t.findByName? constantName = some i := by
  have hreached : Reachable t := h.reached.reachable
  obtain ⟨m', ht⟩ := hreached.sound
  have hscans := hreached.scans_listing h.editable.2
  have hnames (u : Id) : (∃ j ∈ t.listing, j.nameOf? u = some constantName) ↔ u = i := by
    rw [hm.exists_nameOf?_append ht.shows (h.contents .debugNames), or_iff_right]
    · exact and_iff_left (by decide +kernel)
    · rintro ⟨j, hj, hname⟩
      obtain ⟨⟨hop, -⟩, htext⟩ := Option.ite_none_right_eq_some.mp hname
      exact hnone j hj hop htext
  rw [hscans.findByName, hnames]
  exact ⟨rfl, fun u hu => (hnames u).mp hu ▸ UInt32.le_refl _⟩

/-- The header changes in its bound. -/
theorem header_eq (h : Injects s value specId type i t) (hm : s.Sound m) :
    t.header = s.header.set boundWord (i.value + 1) := by
  have hbound : t.bound = i.value + 1 := Id.ofWord?_eq_some.mp h.newest
  have hlen : boundWord < s.header.length := by
    rw [hm.shows.length_header]
    decide
  refine List.ext_getElem? fun k => ?_
  by_cases hk : k = boundWord
  · subst hk
    rw [List.getElem?_set_self hlen, Session.header, List.getElem?_take, if_pos (by decide),
      h.reached.reachable.boundWord_eq, hbound]
  · rw [List.getElem?_set_ne (Ne.symm hk), Session.header, Session.header, List.getElem?_take,
      List.getElem?_take]
    split
    · exact hm.header_moves h.moves ‹_› hk
    · rfl

/-- The words are those of the module, with what was added at the ends of the sections. -/
theorem words_eq {policy : StructPolicy} {ws : List Word} (h : Injects s value specId type i t)
    (hs : Session.ofWords policy ws = .ok s) :
    t.words = (ws.take headerWords).set boundWord (i.value + 1) ++
      (Section.all.flatMap fun sec => s.contents sec ++
        (injected (s.getType? .uint).isSome type i value specId sec).map Operation.words).flatten := by
  obtain ⟨m, hm, -⟩ := ofWords_sound hs
  obtain ⟨m', ht⟩ := h.reached.reachable.sound
  have hheader : s.header = (ws.take headerWords).set boundWord s.bound := by
    rw [Session.header, ofWords_words hs, List.take_set]
  rw [ht.shows.words_eq, h.header_eq hm, hheader, List.set_set, ← ht.shows.contents_eq,
    Contents.chunks, funext h.contents]

end Injects

/-- With two ids left, the constant is added and found. -/
theorem addConstant_passes {ws : List Word} (hs : Session.ofWords .never ws = .ok s)
    (hnone : ∀ j ∈ s.listing, j.opcode? = some .opName → j.stringOperand? 1 ≠ some constantName)
    (hb : s.fresh.succ? = some b) (hd : b.succ? = some d) (value specId : Word) :
    (addConstant value specId).Passes s fun _ t => ∃ type i,
      type = (s.getType? .uint).getD s.fresh ∧
      i = (if (s.getType? .uint).isSome then s.fresh else b) ∧
      Injects s value specId type i t := by
  obtain ⟨m, hm, -⟩ := ofWords_sound hs
  have hedit : s.Editable := (Steady.ofWords hs).editable
  obtain ⟨i, u, hadd, type, htype, hi, hsu, m₁, hu⟩ :=
    Edit.addSpecConstantImmediate_answers hm hedit (.u32 value) specId hb hd
  have hflawless : (Operation.name i constantName).flawless :=
    Edit.flawless_of_anonymous (by
      rw [Operation.wordCount, Operation.name, List.length_cons]
      decide +kernel) (Operation.resultId?_name ..)
  obtain ⟨⟨⟩, t, hname, hut, m₂, ht⟩ := Edit.setName_answers hu (hsu.editable hedit) hflawless
  have h : Injects s value specId type i t :=
    injects_of_edits (.ofWords hs trivial) hedit hadd hsu hu hname hut ht
  obtain ⟨p, hlocated, hread⟩ := h.closes.instruction? ht.shows
  refine (Trial.passes_edit (P := fun j v => j = i ∧ v = u) ⟨i, u, hadd, rfl, rfl⟩).bind ?_
  rintro i u ⟨rfl, rfl⟩
  refine (Trial.passes_edit (P := fun _ v => v = t) ⟨(), t, hname, rfl⟩).bind ?_
  rintro _ t rfl
  refine Trial.passes_get ((Trial.passes_ensure _ ?_).bind ?_)
  · exact decide_eq_true (h.findByName hm.shows hnone)
  · rintro _ _ rfl
    rw [hlocated]
    dsimp only
    rw [hread]
    exact (Trial.passes_ensure _ (decide_eq_true rfl)).mono fun _ v hv =>
      hv ▸ ⟨type, i, htype, hi, h⟩

/-- The scenario that adds a constant goes through for every module that opens, gives no id the name
of the constant and has two ids left. What comes of it is the module with a larger bound, where the
name, the number and the constant come to the ends of their sections, the constant behind its type if
that is not declared. They speak of an id that is not defined before, and the words read as a module
again. -/
theorem specConstant_adds_instructions {ws : List Word} (hs : Session.ofWords .never ws = .ok s)
    (hnone : ∀ j ∈ s.listing, j.opcode? = some .opName → j.stringOperand? 1 ≠ some constantName)
    (hroom : s.bound ≤ 0xFFFFFFFD) (value specId : Word) :
    let declared := s.listing.findSome? (·.uintId?)
    ∃ (out : List Word) (type i : Id),
      run (.specConstant value specId) (some ws) = (.ok out, none) ∧
      ws = ws.take headerWords ++ (Section.all.flatMap s.contents).flatten ∧
      out = (ws.take headerWords).set boundWord (i.value + 1) ++
        (Section.all.flatMap fun sec => s.contents sec ++
          (injected declared.isSome type i value specId sec).map Operation.words).flatten ∧
      type = declared.getD s.fresh ∧
      i.value = (if declared.isSome then s.bound else s.bound + 1) ∧
      (∀ j ∈ s.listing, ∀ id ∈ j.resultId?, id ≠ i ∧ (declared = none → id ≠ type)) ∧
      ∃ v, ModuleView.parse out = .ok v := by
  intro declared
  have hfound : s.getType? .uint = declared := getType?_uint hs
  obtain ⟨b, d, hb, hd⟩ := Id.exists_two_above (i := s.fresh) hroom
  have hbvalue : b.value = s.bound + 1 := Id.ofWord?_eq_some.mp hb
  obtain ⟨t, ⟨type, i, htype, hi, ht⟩, hrun⟩ :=
    onModule_eq hs (addConstant_passes hs hnone hb hd value specId) (by
      rintro t ⟨type, i, -, -, ht⟩
      exact ht.editable.1)
  have hwords := ht.words_eq hs
  rw [hfound] at htype hi hwords
  have hivalue : i.value = if declared.isSome then s.bound else s.bound + 1 := by
    rw [hi]
    split
    · rfl
    · exact hbvalue
  have hinew : s.bound ≤ i.value := by
    rw [hi]
    split
    · exact UInt32.le_refl _
    · exact UInt32.le_of_lt (Id.lt_of_succ? hb)
  refine ⟨t.words, type, i, hrun, words_of_ofWords hs, hwords, htype, hivalue, ?_, ht.reached.loads⟩
  intro j hj id hid
  refine ⟨ne_of_bound_le hs hj hid hinew, fun hnot => ne_of_bound_le hs hj hid ?_⟩
  rw [htype, hnot]
  exact UInt32.le_refl _

/-- A module with a signed integer that has a name, before and after a constant was added. -/
def signedModule : List Word :=
  [magic, Version.word ⟨1, 3⟩, 0, 0, 0] ++
    [.name .one "x", (⟨.opTypeInt, [1, 32, 1]⟩ : Operation)].flatMap Operation.words

def signedModuleInjected : List Word :=
  [magic, Version.word ⟨1, 3⟩, 0, 4, 0] ++
    [.name .one "x", .name ⟨3, by decide⟩ "injected_constant",
      .decorate ⟨3, by decide⟩ .specId [7], ⟨.opTypeInt, [1, 32, 1]⟩, ⟨.opTypeInt, [2, 32, 0]⟩,
      (⟨.opSpecConstant, [2, 3, 42]⟩ : Operation)].flatMap Operation.words

theorem specConstant_adds_instructions_signed :
    ∃ s, Session.ofWords .never signedModule = .ok s ∧
      (∀ j ∈ s.listing, j.opcode? = some .opName → j.stringOperand? 1 ≠ some constantName) ∧
      s.bound ≤ 0xFFFFFFFD ∧
      run (.specConstant 42 7) (some signedModule) = (.ok signedModuleInjected, none) ∧
      ∃ v, ModuleView.parse signedModuleInjected = .ok v := by
  obtain ⟨s, hs, hchecked⟩ : ∃ s, Session.ofWords .never signedModule = .ok s ∧
      decide (s.fresh = ⟨2, by decide⟩ ∧
        (∀ j ∈ s.listing, j.opcode? = some .opName → j.stringOperand? 1 ≠ some constantName) ∧
        s.listing.findSome? (·.uintId?) = none ∧
        ∀ sec ∈ Section.all, s.contents sec = if sec = .debugNames then
          [(Operation.name .one "x").words] else if sec = .types then
          [(⟨.opTypeInt, [1, 32, 1]⟩ : Operation).words] else []) :=
    Session.opens_of_any (by decide +kernel)
  obtain ⟨hfresh, hnone, hdeclared, hcontents⟩ := of_decide_eq_true hchecked
  have hbound : s.bound = 2 := congrArg Id.value hfresh
  have hroom : s.bound ≤ 0xFFFFFFFD := by
    rw [hbound]
    decide
  obtain ⟨out, type, i, hrun, -, hout, htype, hi, -, hparse⟩ :=
    specConstant_adds_instructions hs hnone hroom 42 7
  rw [hdeclared] at htype hi hout
  obtain rfl : type = ⟨2, by decide⟩ := htype.trans hfresh
  obtain rfl : i = ⟨3, by decide⟩ := Id.ext_value (by rw [hi, hbound]; rfl)
  obtain rfl : out = signedModuleInjected := by
    rw [hout, List.flatMap_congr fun sec hsec => congrArg (· ++ _) (hcontents sec hsec)]
    decide +kernel
  exact ⟨s, hs, hnone, hroom, hrun, hparse⟩

end Scenario

end SpirvModule
