import SpirvModule.Proofs.Keys
import SpirvModule.Proofs.Refine
import SpirvModule.Proofs.Restore

/-!
# Types along a run

The table of types of a session agrees with its live instructions when the module opens well
built, and it does so as long as every command leaves a well-built module behind and takes out
instructions with free ids only.

Results:
* `perform_agrees`: what a command keeps.
* `ReachedUnder.types_agree`: along such a run, keys are found exactly if instructions give
  them, at an id with that key.
* `ReachedUnder.restored`: instructions that are taken out and entered again leave the index
  as it was.
-/
namespace SpirvModule

namespace Session

/-- Whether the table of types agrees with the live instructions. -/
def TypesAgree (s : Session) : Prop := s.index.Agrees s.live

variable {s t : Session} {m : Outline} {sec : Section} {p : Nat} {op : Operation}
  {c : List Word} {xs ys zs : List (List Word)}

theorem TypesAgree.of_eq (h : s.TypesAgree) (hi : t.index = s.index) (hl : t.live = s.live) :
    t.TypesAgree := by
  rw [TypesAgree, hi, hl]
  exact h

/-! ## Moves -/

/-- The table after an exchange of words, when the instruction that went is out of the index. -/
theorem agrees_exchange (m : Outline) {x : Index} (policy : StructPolicy) (old : Nat)
    (op : Operation) (h : x.Agrees (m.ahead sec xs ++ m.behind sec (p + old) zs))
    (hl : Closed (m.ahead sec xs ++ m.behind sec (p + old) zs))
    (hw : WellBuilt
      (m.ahead sec xs ++ .ofChunk p op.words :: m.behind sec (p + op.wordCount) zs)) :
    ((x.relocate (p + min old op.wordCount) (old - op.wordCount) (op.wordCount - old)).register
      policy (.ofChunk p op.words)).Agrees
        (m.ahead sec xs ++ .ofChunk p op.words :: m.behind sec (p + op.wordCount) zs) := by
  -- the types do not move
  have hmoved : (x.relocate (p + min old op.wordCount) (old - op.wordCount)
      (op.wordCount - old)).Agrees (m.ahead sec xs ++ m.behind sec (p + op.wordCount) zs) := by
    rw [← m.behind_shifted sec p old op.wordCount]
    exact h.congr fun id k => hasKey_shifted _ _
  have hclosed : Closed (m.ahead sec xs ++ m.behind sec (p + op.wordCount) zs) := by
    rw [← m.behind_shifted sec p old op.wordCount]
    exact hl.shifted _ _
  exact Index.Agrees.register hmoved policy hclosed hw

theorem Sound.agrees_inserted (h : s.Sound m) (hs : s.Editable) (hm : m.Splits sec p xs [] zs)
    (hf : ∀ d ∈ [op.words], Fits sec d) (ha : s.TypesAgree) (hl : Closed s.live)
    (hw : WellBuilt (s.inserted sec p op).live) : (s.inserted sec p op).TypesAgree := by
  have hlive := h.live_of_splits hs.2 hm
  have hlive' := (h.inserted hs hm hf).live_of_splits hs.2 (hm.splits_exchange hf)
  rw [hm.ahead_exchange hf, hm.behind_exchange hf, List.flatten_singleton] at hlive'
  rw [TypesAgree, hlive] at ha
  rw [hlive] at hl
  rw [hlive'] at hw
  rw [TypesAgree, hlive']
  exact agrees_exchange m s.policy 0 op ha hl hw

theorem Sound.agrees_opened (h : s.Sound m) (hs : s.Editable) (hm : m.Splits sec p xs [c] zs)
    (ha : s.TypesAgree) (hd : (definedIds s.live).Nodup)
    (hfree : ∀ id ∈ (Instruction.ofChunk p c).resultId?, Free s.live id) :
    (s.opened (.ofChunk p c)).TypesAgree := by
  have hlive := h.live_of_splits hs.2 hm
  rw [List.flatten_singleton, place_cons, place_nil, List.singleton_append] at hlive
  rw [TypesAgree, hlive] at ha
  rw [hlive] at hd hfree
  rw [TypesAgree, (h.opened hm).live_of_bracket rfl hm]
  exact Index.Agrees.unregister ha hd hfree

theorem Sound.closed_opened (h : s.Sound m) (hs : s.Editable) (hm : m.Splits sec p xs [c] zs)
    (hl : Closed s.live)
    (hfree : ∀ id ∈ (Instruction.ofChunk p c).resultId?, Free s.live id) :
    Closed (s.opened (.ofChunk p c)).live := by
  have hlive := h.live_of_splits hs.2 hm
  rw [List.flatten_singleton, place_cons, place_nil, List.singleton_append] at hlive
  rw [hlive] at hl hfree
  rw [(h.opened hm).live_of_bracket rfl hm]
  exact hl.erase hfree

theorem Sound.agrees_closed (h : s.Sound m) {b : Bracket} {i : Instruction}
    (hb : s.bracket = some b) (hi : s.instruction? b.offset = some i) (ha : s.TypesAgree)
    (hl : Closed s.live) (hw : WellBuilt (s.closed i).live) : (s.closed i).TypesAgree := by
  obtain ⟨sec, xs, w, us, zs, hm, -⟩ := h.split_of_bracket hb
  obtain rfl := Option.some.inj ((h.shows.instruction?_of_splits hm).symm.trans hi)
  have hlive := h.live_of_bracket hb hm
  have hlive' := (h.closed (.ofChunk b.offset (w :: us))).live_of_splits rfl hm
  rw [List.flatten_singleton, place_cons, place_nil, List.singleton_append] at hlive'
  rw [TypesAgree, hlive] at ha
  rw [hlive] at hl
  rw [hlive'] at hw
  rw [TypesAgree, hlive']
  exact Index.Agrees.register ha s.policy hl hw

theorem Sound.agrees_blanked (h : s.Sound m) (hs : s.Editable) (hm : m.Splits sec p xs [c] zs)
    (ha : s.TypesAgree) (hd : (definedIds s.live).Nodup)
    (hfree : ∀ id ∈ (Instruction.ofChunk p c).resultId?, Free s.live id) :
    (s.blanked (.ofChunk p c)).TypesAgree := by
  have hf := fits_nops sec c.length
  have hlive' := (h.blanked hs hm).live_of_splits hs.2 (hm.splits_exchange hf)
  rw [hm.ahead_exchange hf, hm.behind_exchange hf, flatten_replicate_singleton,
    List.length_replicate] at hlive'
  have hopened := h.agrees_opened hs hm ha hd hfree
  rw [TypesAgree, (h.opened hm).live_of_bracket rfl hm] at hopened
  rw [TypesAgree, hlive']
  exact hopened.congr fun id k => hasKey_pad (definedIds_place_nops p c.length)

theorem Sound.agrees_replaced (h : s.Sound m) (hs : s.Editable) (hm : m.Splits sec p xs [c] zs)
    (hf : ∀ d ∈ [op.words], Fits sec d) (ha : s.TypesAgree) (hws : WellBuilt s.live)
    (hfree : ∀ id ∈ (Instruction.ofChunk p c).resultId?, Free s.live id)
    (hw : WellBuilt (s.replaced sec (.ofChunk p c) op).live) :
    (s.replaced sec (.ofChunk p c) op).TypesAgree := by
  have hc : IsChunk c := hm.isChunk (List.mem_singleton_self c)
  have hlive' := (h.replaced hs hm hf).live_of_splits hs.2 (hm.splits_exchange hf)
  rw [hm.ahead_exchange hf, hm.behind_exchange hf, List.flatten_singleton] at hlive'
  have hopened := h.agrees_opened hs hm ha hws.distinct hfree
  have hclosed := h.closed_opened hs hm hws.closed hfree
  have hrest := (h.opened hm).live_of_bracket rfl hm
  rw [TypesAgree, hrest] at hopened
  rw [hrest] at hclosed
  rw [hlive'] at hw
  have hagrees := agrees_exchange m s.policy c.length op hopened hclosed hw
  rw [← Instruction.ofChunk_wordCount p hc] at hagrees
  rw [TypesAgree, hlive']
  exact hagrees

theorem Sound.agrees_modified (h : s.Sound m) (hs : s.Editable) {w : Word} {us vs : List Word}
    (hm : m.Splits sec p xs [w :: us] zs) (hv : vs.length = us.length) (ha : s.TypesAgree)
    (hws : WellBuilt s.live)
    (hfree : ∀ id ∈ (Instruction.ofChunk p (w :: us)).resultId?, Free s.live id)
    (hw : WellBuilt (s.modified (.ofChunk p (w :: us)) vs).live) :
    (s.modified (.ofChunk p (w :: us)) vs).TypesAgree := by
  have hf := hm.fits_operands hv
  have h₁ := h.opened hm
  have h₂ := h₁.overwritten (b := ⟨p, us.length + 1⟩) rfl hm rfl hf hv
  have hlive : ((s.opened (.ofChunk p (w :: us))).overwritten (p + 1) us.length vs).live =
      (s.opened (.ofChunk p (w :: us))).live :=
    (h₁.live_overwritten (b := ⟨p, us.length + 1⟩) rfl hv).2
  have hagrees := (h.agrees_opened hs hm ha hws.distinct hfree).of_eq
    (t := (s.opened (.ofChunk p (w :: us))).overwritten (p + 1) us.length vs) rfl hlive
  have hclosed := h.closed_opened hs hm hws.closed hfree
  rw [← hlive] at hclosed
  exact h₂.agrees_closed (b := ⟨p, us.length + 1⟩) rfl
    (h₂.shows.instruction?_of_splits (hm.splits_exchange hf)) hagrees hclosed hw

end Session

/-! ## Operations that are appended -/

open Session

/-- Whether an operation is made without regard to the key of any other type. -/
def Operation.Plain (op : Operation) : Prop := (Instruction.ofChunk 0 op.words).component? = none

theorem Operation.plain_of_opcode {op : Operation} (h : op.opcode ≠ .opTypeVector ∧
    op.opcode ≠ .opTypeMatrix ∧ op.opcode ≠ .opTypeImage) : op.Plain := by
  have hop : (Instruction.ofChunk 0 op.words).opcode? = some op.opcode := op.opcode?_words
  rw [Operation.Plain, Instruction.component?, hop]
  simp [h]

/-- The operations with a component are at home in the types. -/
theorem Operation.plain_of_home {op : Operation} {sec : Section}
    (hh : op.opcode.home?.all (· = sec)) (hsec : sec ≠ .types) : op.Plain := by
  have hall : ∀ o ∈ [Opcode.opTypeVector, .opTypeMatrix, .opTypeImage],
      o.home? = some .types := by decide +kernel
  have hne (o : Opcode) (ho : o ∈ [Opcode.opTypeVector, .opTypeMatrix, .opTypeImage]) :
      op.opcode ≠ o := by
    rintro rfl
    exact Opcode.home?_ne hh hsec (hall _ ho)
  exact plain_of_opcode ⟨hne _ (by simp), hne _ (by simp), hne _ (by simp)⟩

/-- The live instructions when one comes, outside a bracket. -/
theorem Session.Sound.live_inserted {s : Session} {m : Outline} {sec : Section} {p : Nat}
    {op : Operation} {xs zs : List (List Word)} (h : s.Sound m) (hs : s.Editable)
    (hm : m.Splits sec p xs [] zs) (hf : ∀ d ∈ [op.words], Fits sec d) :
    ∃ l r, s.live = l ++ r ∧ (s.inserted sec p op).live =
      l ++ .ofChunk p op.words :: r.map (.shifted 0 op.wordCount) := by
  have hlive := h.live_of_splits hs.2 hm
  have hlive' := (h.inserted hs hm hf).live_of_splits hs.2 (hm.splits_exchange hf)
  have hbehind := m.behind_shifted sec p 0 op.wordCount zs
  rw [hm.ahead_exchange hf, hm.behind_exchange hf, List.flatten_singleton] at hlive'
  rw [Nat.zero_sub, Nat.sub_zero] at hbehind
  refine ⟨_, _, hlive, ?_⟩
  rw [hlive']
  exact congrArg (fun r => m.ahead sec xs ++ Instruction.ofChunk p op.words :: r) hbehind.symm

namespace Adds

variable {s t : Session} {m : Outline} {l : List (Section × Operation)}

theorem homes (hst : Adds s l t) : ∀ e ∈ l, e.2.opcode.home?.all (· = e.1) := by
  induction hst with
  | refl => exact nofun
  | breach _ _ ih => exact ih
  | raise _ _ _ ih => exact ih
  | append _ _ hh _ _ ih =>
    intro e he
    rcases List.mem_append.mp he with he | he
    · exact ih e he
    · rw [List.mem_singleton.mp he]
      exact hh

/-- Plain operations leave no component undefined. -/
theorem closed (h : s.Sound m) (hst : Adds s l t) (hplain : ∀ e ∈ l, e.2.Plain)
    (hl : Closed s.live) : Closed t.live := by
  induction hst with
  | refl => exact hl
  | breach hadds e ih =>
    obtain ⟨m', h', -⟩ := hadds.sound h
    rw [h'.live_congr (h'.breached e) rfl]
    exact ih hplain
  | @raise l t i b hadds ht hb ih =>
    obtain ⟨m', h', -⟩ := hadds.sound h
    rw [h'.live_congr (h'.raised b) rfl]
    exact ih hplain
  | @append l t sec op hadds ht hh hlen hb ih =>
    obtain ⟨m', h', -⟩ := hadds.sound h
    obtain ⟨front, back, hlive, hlive'⟩ := h'.live_inserted ht (splits_sectionStop h'.shows sec)
      (fits_singleton (fits_words hh hlen))
    have ih := ih fun e he => hplain e (List.mem_append_left _ he)
    rw [hlive] at ih
    rw [hlive']
    exact (ih.shifted 0 op.wordCount).insert (hplain (sec, op) (by simp))

/-- The table goes on agreeing when operations are appended, all but the last of which are plain. -/
theorem agrees (h : s.Sound m) (hst : Adds s l t) (hplain : ∀ e ∈ l.dropLast, e.2.Plain)
    (ha : s.TypesAgree) (hl : Closed s.live) (hw : WellBuilt t.live) : t.TypesAgree := by
  induction hst with
  | refl => exact ha
  | breach hadds e ih =>
    obtain ⟨m', h', -⟩ := hadds.sound h
    have hlive := h'.live_congr (h'.breached e) rfl
    rw [hlive] at hw
    exact (ih hplain hw).of_eq rfl hlive
  | @raise l t i b hadds ht hb ih =>
    obtain ⟨m', h', -⟩ := hadds.sound h
    have hlive := h'.live_congr (h'.raised b) rfl
    rw [hlive] at hw
    exact (ih hplain hw).of_eq rfl hlive
  | @append l t sec op hadds ht hh hlen hb ih =>
    rw [List.dropLast_concat] at hplain
    obtain ⟨m', h', -⟩ := hadds.sound h
    have hm := splits_sectionStop h'.shows sec
    have hf := fits_singleton (fits_words hh hlen)
    have hclosed := hadds.closed h hplain hl
    have hwell : WellBuilt t.live := by
      obtain ⟨front, back, hlive, hlive'⟩ := h'.live_inserted ht hm hf
      refine hw.of_closed hclosed (h'.liveIds_inserted ht hm hf) fun i hi => ?_
      rw [hlive] at hi
      rw [hlive']
      rcases List.mem_append.mp hi with hi | hi
      · exact ⟨i, List.mem_append_left _ hi, rfl⟩
      · exact ⟨_, subset_append_cons _ _ _
          (List.mem_append_right _ (List.mem_map_of_mem hi)), rfl⟩
    exact h'.agrees_inserted ht hm hf
      (ih (fun e he => hplain e (List.mem_of_mem_dropLast he)) hwell) hclosed hw

end Adds

/-- Scalars are declared without any other type. -/
theorem Edit.Declared.plain {s : Session} {v : Scalar} {i : Id} {l : List (Section × Operation)}
    (h : Edit.Declared s (.scalar v) i l) : ∀ e ∈ l, e.2.Plain := by
  obtain ⟨-, rfl⟩ | ⟨op, hop, rfl⟩ := h
  · exact nofun
  · intro e he
    rw [List.mem_singleton.mp he]
    apply Operation.plain_of_opcode
    rw [Edit.setResultId_opcode]
    cases v with
    | void | bool | int | float =>
      cases hop
      dsimp only
      decide

namespace Command

/-- All operations that a command appends but the last are plain. -/
theorem Appended.plain {s t : Session} {c : Command} {a : Answer}
    {l : List (Section × Operation)} (h : c.Appended s a l) (hst : Adds s l t) :
    ∀ e ∈ l.dropLast, e.2.Plain := by
  cases h with
  | declareType hl => obtain ⟨-, rfl⟩ | ⟨op, -, rfl⟩ := hl <;> exact nofun
  | declareStruct hl => obtain rfl | rfl := hl <;> exact nofun
  | importExtInst hl => obtain ⟨-, rfl⟩ | rfl := hl <;> exact nofun
  | addConstantImmediate hl =>
    rw [List.dropLast_concat]
    exact hl.plain
  | addSpecConstantImmediate hl =>
    rw [List.dropLast_append_of_ne_nil (by simp)]
    intro e he
    rcases List.mem_append.mp he with he | he
    · exact hl.plain e he
    · rw [List.mem_singleton.mp he]
      apply Operation.plain_of_opcode
      dsimp only [Operation.specConstant]
      decide
  | addFunction ops =>
    intro e he
    have he := List.mem_of_mem_dropLast he
    obtain ⟨op, -, rfl⟩ := List.mem_map.mp he
    exact Operation.plain_of_home (hst.homes _ he) nofun
  | _ => exact nofun

/-- Whether a command is answered, leaves a well-built module behind and takes out no instruction
that another one declares its type with or has to stand in for. -/
structure KeepsTypes (s : Session) (c : Command) : Prop where
  answered : c.Answered s
  wellBuilt : WellBuilt (s.perform c).2.live
  free : ∀ p ∈ c.takesOut?, ∀ i ∈ s.instruction? p, ∀ id ∈ i.resultId?, Free s.live id

end Command

/-- Whether a command keeps types because those it is about are the only ones of their opcodes. -/
def Command.KeepsSole (s : Session) (c : Command) : Prop :=
  c.Answered s ∧ SolelyBuilt (s.perform c).2.live ∧
    ∀ p ∈ c.takesOut?, ∀ i ∈ s.instruction? p, ∀ id ∈ i.resultId?,
      (∀ j ∈ s.live, j.component? ≠ some id) ∧ Sole s.live id

instance (s : Session) (c : Command) : Decidable (c.KeepsSole s) :=
  inferInstanceAs (Decidable (_ ∧ _ ∧ ∀ p ∈ c.takesOut?, _))

theorem Command.KeepsSole.keepsTypes {s : Session} {c : Command} (h : c.KeepsSole s) :
    c.KeepsTypes s where
  answered := h.1
  wellBuilt := h.2.1.wellBuilt
  free p hp i hi id hid :=
    have hsole := h.2.2 p hp i hi id hid
    ⟨hsole.1, hsole.2.unique⟩

/-- A command that keeps types leaves a table behind that agrees with the live instructions. -/
theorem perform_agrees {s : Session} {m : Outline} {c : Command} (h : s.Sound m)
    (hw : WellBuilt s.live) (ha : s.TypesAgree) (hc : c.Proper s) (hk : c.KeepsTypes s) :
    (s.perform c).2.TypesAgree := by
  obtain ⟨⟨a, hans⟩, hw', hfree⟩ := hk
  have hrun : s.perform c = (.ok a, (s.perform c).2) := Prod.ext hans rfl
  generalize (s.perform c).2 = t at hrun hw' ⊢
  cases perform_outcome h hc hrun with
  | adds hl hadds => exact hadds.agrees h (hl.plain hadds) ha hw.closed hw'
  | @insert p op sec u xs zs hs hsec hu hm hf =>
    have hlive := hu.live h
    exact (hu.sound h).agrees_inserted (hu.editable hs) hm hf (ha.of_eq hu.index hlive)
      (hlive ▸ hw.closed) hw'
  | replace hs hsec hh hm hf =>
    exact h.agrees_replaced hs hm hf ha hw
      (hfree _ rfl _ (h.shows.instruction?_of_splits hm)) hw'
  | remove hs hm =>
    exact h.agrees_blanked hs hm ha hw.distinct
      (hfree _ rfl _ (h.shows.instruction?_of_splits hm))
  | beginModify hs hm =>
    exact h.agrees_opened hs hm ha hw.distinct
      (hfree _ rfl _ (h.shows.instruction?_of_splits hm))
  | operands hb hm hl hnew =>
    have hn := OperandChange.length_apply _ hnew
    exact ha.of_eq rfl (h.live_overwritten hb (by rw [hl, hn, Nat.add_sub_cancel])).2
  | endModify hb hi => exact h.agrees_closed hb hi ha hw.closed hw'
  | modifyOperands hs hm hnew =>
    exact h.agrees_modified hs hm (OperandChange.length_apply _ hnew) ha hw
      (hfree _ rfl _ (h.shows.instruction?_of_splits hm)) hw'

/-! ## Runs -/

/-- Whether a module is well built when it opens, with components in front of what is made of
them. -/
def Session.OpensWell (s : Session) : Prop := WellBuilt s.live ∧ Ordered s.live

namespace ReachedUnder

variable {s : Session}

theorem agrees (h : ReachedUnder OpensWell (fun s c => c.KeepsTypes s) s) :
    WellBuilt s.live ∧ s.TypesAgree := by
  induction h with
  | create policy v generator hopen =>
    exact ⟨hopen.1, Index.agrees_ofInstructions policy hopen.1 hopen.2⟩
  | ofWords hs hopen =>
    obtain ⟨m, hm, hb, hindex, -⟩ := ofWords_sound hs
    refine ⟨hopen.1, ?_⟩
    rw [TypesAgree, hindex, ← live_of_none hb]
    exact Index.agrees_ofInstructions _ hopen.1 hopen.2
  | perform hrun c hc hk ih =>
    obtain ⟨m, hm⟩ := hrun.reachable.sound
    exact ⟨hk.wellBuilt, perform_agrees hm ih.1 ih.2 hc hk⟩

/-- Along a run that opens well and whose commands keep types, a key is found exactly if some live
instruction gives it to its id, and an id that is found has it. -/
theorem types_agree (h : ReachedUnder OpensWell (fun s c => c.KeepsTypes s) s) (k : TypeKey) :
    ((∃ id, s.getType? k = some id) ↔ ∃ id, HasKey s.live id k) ∧
      ∀ id, s.getType? k = some id → HasKey s.live id k := by
  have hagree := h.agrees.2
  have hsound (id : Id) (hid : s.getType? k = some id) : HasKey s.live id k :=
    hagree.sound id k ((hagree.linked id k).mpr hid)
  refine ⟨⟨fun ⟨id, hid⟩ => ⟨id, hsound id hid⟩, fun ⟨id, hid⟩ => ?_⟩, hsound⟩
  exact Option.isSome_iff_exists.mp (hagree.complete id k hid)

/-- A vector is declared and changed where it stands. -/
def changedVector : List Command :=
  [.declareType (.scalar .bool), .declareType (.vector ⟨.bool, 4⟩),
    .modifyOperands 7 (.poke 2 fun _ => 3)]

theorem types_agree_changedVector :
    ReachedUnder OpensWell (fun s c => c.KeepsTypes s)
        ((Session.create .never ⟨1, 3⟩ 0).performAll changedVector) ∧
      (∃ id, HasKey ((Session.create .never ⟨1, 3⟩ 0).performAll changedVector).live id
        (.vector ⟨.bool, 3⟩)) ∧
      ¬ ∃ id, HasKey ((Session.create .never ⟨1, 3⟩ 0).performAll changedVector).live id
        (.vector ⟨.bool, 4⟩) := by
  have hopen : OpensWell (Session.create .never ⟨1, 3⟩ 0) :=
    ⟨SolelyBuilt.wellBuilt (by decide +kernel), by decide +kernel⟩
  have hsole : ReachedUnder OpensWell (fun s c => c.KeepsSole s)
      ((Session.create .never ⟨1, 3⟩ 0).performAll changedVector) :=
    ReachedUnder.performAll (.create _ _ _ hopen) (by decide +kernel)
  have h : ReachedUnder OpensWell (fun s c => c.KeepsTypes s)
      ((Session.create .never ⟨1, 3⟩ 0).performAll changedVector) :=
    hsole.mono (fun _ h => h) fun _ _ h => h.keepsTypes
  refine ⟨h, (h.types_agree _).1.mp ⟨⟨2, by decide⟩, by decide +kernel⟩, ?_⟩
  rw [← (h.types_agree _).1]
  rintro ⟨id, hid⟩
  have hnone : ((Session.create .never ⟨1, 3⟩ 0).performAll changedVector).getType?
      (.vector ⟨.bool, 4⟩) = none := by decide +kernel
  cases hnone.symm.trans hid

end ReachedUnder

/-- Two declarations of a type, and the one that is found is removed. -/
def duplicateRemoved : List Command :=
  [.declareType (.scalar .bool), .addType ⟨.opTypeBool, [2]⟩, .remove 5]

/-- Distinct ids are not enough. Of two declarations of a type the one that is found is removed, and
the other one is not found; and a vector is found whose component was removed. -/
theorem types_disagree :
    (¬ ∀ s k, ReachedUnder IdsDistinct (fun s c => c.Answered s ∧ (s.perform c).2.IdsDistinct) s →
      s.bracket = none → (∃ id, HasKey s.listing id k) → ∃ id, s.getType? k = some id) ∧
    ¬ ∀ s k id,
      ReachedUnder IdsDistinct (fun s c => c.Answered s ∧ (s.perform c).2.IdsDistinct) s →
      s.bracket = none → s.getType? k = some id → HasKey s.listing id k := by
  have run (cs : List Command) (h : (Session.create .never ⟨1, 3⟩ 0).Follows
      (fun s c => c.Answered s ∧ (s.perform c).2.IdsDistinct) cs) :
      ReachedUnder IdsDistinct (fun s c => c.Answered s ∧ (s.perform c).2.IdsDistinct)
        ((Session.create .never ⟨1, 3⟩ 0).performAll cs) :=
    ReachedUnder.performAll (.create _ _ _ (by decide)) h
  constructor
  · intro hfound
    have hkey : HasKey ((Session.create .never ⟨1, 3⟩ 0).performAll duplicateRemoved).listing
        ⟨2, by decide⟩ (.scalar .bool) :=
      hasKey_iff.mpr ⟨⟨7, Word.lead 2 Opcode.opTypeBool.number, [2]⟩, by decide +kernel,
        by decide +kernel, .bool (by decide +kernel)⟩
    obtain ⟨id, hid⟩ := hfound _ _ (run duplicateRemoved (by decide +kernel)) (by decide +kernel)
      ⟨_, hkey⟩
    have hnone : ((Session.create .never ⟨1, 3⟩ 0).performAll duplicateRemoved).getType?
        (.scalar .bool) = none := by decide +kernel
    cases hnone.symm.trans hid
  · intro hkey
    have hvector := hkey _ (.vector ⟨.bool, 4⟩) ⟨2, by decide⟩
      (run componentRemoved (by decide +kernel)) (by decide +kernel) (by decide +kernel)
    obtain ⟨i, hi, -, hdecl⟩ := hasKey_iff.mp hvector
    have hgone : ∀ i ∈ ((Session.create .never ⟨1, 3⟩ 0).performAll componentRemoved).listing,
        ∀ c ∈ i.component?, c ∉ definedIds
          ((Session.create .never ⟨1, 3⟩ 0).performAll componentRemoved).listing := by
      decide +kernel
    cases hdecl with
    | vector hop hops hc =>
      have hcomp := Instruction.component?_of_operands hop (by decide) hops
      exact hgone i hi _ hcomp hc.defined

/-! ## Taking out and entering again -/

namespace ReachedUnder

variable {s : Session}

theorem idsDistinct (h : ReachedUnder OpensWell (fun s c => c.KeepsTypes s) s) :
    Reached IdsDistinct s := by
  induction h with
  | create policy v generator hopen => exact .create policy v generator hopen.1.distinct
  | ofWords hs hopen => exact .ofWords hs hopen.1.distinct
  | perform _ c hc hk ih => exact ih.perform c hc hk.wellBuilt.distinct

/-- Along such a run every instruction that is taken out comes back as it was, but for structs that
share ids. -/
theorem restored (h : ReachedUnder OpensWell (fun s c => c.KeepsTypes s) s)
    (hb : s.bracket = none) {i : Instruction} (hi : i ∈ s.listing)
    (hs : s.policy = .never ∨ i.opcode? ≠ some .opTypeStruct) :
    (s.index.unregister i).register s.policy i = s.index := by
  obtain ⟨hw, hagree⟩ := h.agrees
  rw [h.idsDistinct.restored_index hb hi]
  rw [← live_of_none hb] at hi
  refine ⟨fun id hid => h.idsDistinct.locates i hi id hid, ?_⟩
  cases i.role with
  | fact f hd hc =>
    rw [hc]
    trivial
  | struct id members hid hop hc =>
    rw [hc]
    intro hp
    rcases hs with hs | hs
    · cases hs.symm.trans hp
    · exact absurd hop hs
  | anonymous hid hc =>
    rw [hc, hid]
    exact nofun
  | decoded id hid hc =>
    -- the keys that are recorded for the id are those that its instruction declares
    have hdecode (k : TypeKey) : s.index.types.decode i = some k ↔ HasKey s.live id k := by
      rw [TypeTable.Agrees.decode_iff hagree (hw.unique i hi),
        hasKey_iff_declares hw.distinct hi hid]
    rw [hc, hid]
    cases hk : s.index.types.decode i with
    | none =>
      intro id' hid'
      obtain rfl := Option.some.inj hid'
      rw [Option.eq_none_iff_forall_ne_some]
      intro k hkey
      cases hk.symm.trans ((hdecode k).mpr (hagree.sound id k hkey))
    | some k =>
      have hhas := (hdecode k).mp hk
      cases hkey : s.index.types.keyOf? id with
      | none => exact .inr ⟨hkey, hagree.complete id k hhas⟩
      | some k' =>
        have hk' := (hdecode k').mpr (hagree.sound id k' hkey)
        obtain rfl : k = k' := Option.some.inj (hk.symm.trans hk')
        exact .inl ⟨hkey, (hagree.linked id k).mp hkey⟩

end ReachedUnder

end SpirvModule
