import SpirvModule.Proofs.Adders

/-!
# What commands do

Every command with proper places, answered or not, takes a sound session by moves to
another one, and its index along by changes with no ids that are neither there before
nor afterwards. What holds of a session when it opens and is kept by every move holds at
every point of every run.

Results:
* `perform_leads`: what a command does to a sound session.
* `Reached.sound`: every session that a run leads to is sound.
* `Reached.reflects`, `Reached.locates`: its index is that of its live instructions.
* `Reached.about_ascends`: its ledger keeps what is told under one key in the order of offsets.
* `Reached.keeps`: what changes keep while ids are distinct holds at every point of a run.
-/
namespace SpirvModule

namespace Session

variable {s t u : Session} {m : Outline}

/-- Whether moves lead from `s` to `t`, with ids on the way that are all in `s` or all in `t`. -/
def Leads (s t : Session) : Prop := Moves s t ∧ s.Tracks t

theorem Leads.trans (h : s.Leads u) (h' : u.Leads t)
    (hu : List.Sublist u.liveIds s.liveIds ∨ List.Sublist u.liveIds t.liveIds) : s.Leads t :=
  ⟨h.1.trans h'.1, h.2.trans h'.2 hu⟩

theorem Sound.leads (h : s.Sound m) (hst : Move s t) : s.Leads t := ⟨.single hst, h.tracks hst⟩

theorem Sound.leads_of_adds {l : List (Section × Operation)} (h : s.Sound m) (hst : Adds s l t) :
    s.Leads t := ⟨hst.moves h, (hst.tracks h).1⟩

theorem Sound.leads_of_refused (h : s.Sound m) (hst : Edit.Refused s t) : s.Leads t :=
  h.leads_of_adds (.of_refused hst)

end Session

namespace Edit

open Session (Leads Move)

variable {α β : Type} {s t u : Session} {m : Outline} {p : Nat} {op : Operation}

theorem Ends.leads {e : Edit α} {Q : α → Session → Prop} (h : s.Sound m) (he : e.Ends s Q)
    (hQ : ∀ a t, Q a t → s.Leads t) : s.Leads (e.run s).2 := by
  rcases he with ⟨x, t, hrun, ht⟩ | ⟨a, t, hrun, ha⟩
  · rw [hrun]
    exact h.leads_of_refused ht
  · rw [hrun]
    exact hQ a t ha

theorem Appends.leads {e : Edit α} {P : α → List (Section × Operation) → Prop} (h : s.Sound m)
    (he : e.Appends s P) : s.Leads (e.run s).2 := by
  obtain ⟨r, l, t, hrun, hadds, -⟩ := he
  rw [hrun]
  exact h.leads_of_adds hadds

/-- Passing an answer on in some other form does nothing to the session. -/
theorem leads_map {e : Edit α} (he : s.Leads (e.run s).2) (g : α → β) :
    s.Leads ((e >>= fun a => pure (g a)).run s).2 := by
  rw [run_bind]
  rcases hrun : e.run s with ⟨r, t⟩
  rw [hrun] at he
  cases r <;> exact he

theorem insert_leads (h : s.Sound m) (hp : s.IsPlace p) : s.Leads ((insert p op).run s).2 := by
  refine (insert_ends h hp).leads h fun a t ⟨_, _, sec, u, _, hu, _, hmove, _, _⟩ => ?_
  refine (h.leads_of_adds (.of_raised hu)).trans ((hu.sound h).leads hmove) (.inl ?_)
  rw [Session.liveIds, Session.liveIds, hu.live h]

/-- A bracket that opens, changes operands and closes again, or stops halfway. -/
theorem modifyOperands_leads (h : s.Sound m) (hp : s.IsPlace p) (change : OperandChange) :
    s.Leads ((modifyOperands p change).run s).2 := by
  unfold modifyOperands
  -- wherever the edit stops, the moves of the parts before it have been made
  rw [run_bind]
  rcases beginModify_ends hp with ⟨x, t, hrun, ht⟩ | ⟨_, u, hrun, hs, i, hi, rfl, hmove⟩
  · rw [hrun]
    exact h.leads_of_refused ht
  rw [hrun]
  obtain ⟨sec, xs, c, zs, hm, rfl⟩ := h.shows.split_of_instruction? hp hi
  have h₁ := h.opened hm
  have hids := h.liveIds_opened hs hm
  refine (h.leads hmove).trans ?_ (.inl hids)
  show Leads _ ((operands p change >>= fun _ => endModify p).run _).2
  rw [run_bind]
  rcases operands_ends (p := p) h₁ change with
    ⟨x, t, hrun, ht⟩ | ⟨new, v, hrun, b, hb, rfl, _, hlen, rfl, hmove⟩
  · rw [hrun]
    exact h₁.leads_of_refused ht
  rw [hrun]
  obtain ⟨⟨m', h₂⟩, hlive⟩ := h₁.live_overwritten hb hlen
  refine (h₁.leads hmove).trans ?_ (.inl (by rw [Session.liveIds, hlive]; exact .refl _))
  refine (endModify_settles h₂).ends.leads h₂ fun _ w hw => ?_
  obtain ⟨-, -, -, -, -, -, hmove⟩ := hw
  exact h₂.leads hmove

end Edit

/-! ## Commands -/

/-- What a command that names no place appends when it answers. -/
inductive Command.Appended (s : Session) : Command → Answer → List (Section × Operation) → Prop
  | newId (i : Id) : Appended s .newId (.id i) []
  | declareType {k : TypeKey} {i : Id} {l : List (Section × Operation)}
      (hl : Edit.Declared s k i l) : Appended s (.declareType k) (.id i) l
  | declareStruct {members : List Id} {i : Id} {l : List (Section × Operation)}
      (hl : l = [] ∨ l = [(.types, .typeStruct i members)]) :
      Appended s (.declareStruct members) (.id i) l
  | addType {op : Operation} {i : Id} (hi : op.resultId? = some i) :
      Appended s (.addType op) (.id i) [(.types, op)]
  | addConstant {op : Operation} {i : Id} (hi : op.resultId? = some i) :
      Appended s (.addConstant op) (.id i) [(.types, op)]
  | addVariable {op : Operation} {i : Id} (hi : op.resultId? = some i) :
      Appended s (.addVariable op) (.id i) [(.types, op)]
  | addConstantImmediate {v : Immediate} {type i : Id} {l : List (Section × Operation)}
      (hl : Edit.Declared s (.scalar v.type.scalar) type l) :
      Appended s (.addConstantImmediate v) (.id i) (l ++ [(.types, .constant type i v.words)])
  | addSpecConstantImmediate {v : Immediate} {n : Word} {type i : Id}
      {l : List (Section × Operation)} (hl : Edit.Declared s (.scalar v.type.scalar) type l) :
      Appended s (.addSpecConstantImmediate v n) (.id i)
        (l ++ [(.types, .specConstant type i v.words), (.annotations, .decorate i .specId [n])])
  | addDecoration (op : Operation) : Appended s (.addDecoration op) .done [(.annotations, op)]
  | addExecutionMode (op : Operation) :
      Appended s (.addExecutionMode op) .done [(.executionModes, op)]
  | addCapability (c : Capability) :
      Appended s (.addCapability c) .done [(.capabilities, .capability c)]
  | addExtension (name : String) :
      Appended s (.addExtension name) .done [(.extensions, .extension name)]
  | importExtInst {name : String} {i : Id} {l : List (Section × Operation)}
      (hl : (s.index.imported? name = some i ∧ l = []) ∨
        l = [(.extInstImports, .extInstImport i name)]) :
      Appended s (.importExtInst name) (.id i) l
  | decorateStorageBuffer (i : Id) : Appended s (.decorateStorageBuffer i) .done
      [(.annotations, .decorate i
        (if s.storageBufferClass = .storageBuffer then .block else .bufferBlock) [])]
  | setName (i : Id) (text : String) :
      Appended s (.setName i text) .done [(.debugNames, .name i text)]
  | setMemberName (i : Id) (member : Word) (text : String) :
      Appended s (.setMemberName i member text) .done [(.debugNames, .memberName i member text)]
  | addFunction (ops : List Operation) :
      Appended s (.addFunction ops) .done (ops.map (.functions, ·))

/-- A command that names no place only appends. -/
theorem edit_appends {s : Session} {m : Outline} (h : s.Sound m) {c : Command}
    (hc : c.offset? = none) : c.edit.Appends s (c.Appended s) := by
  cases c with
  | insert p op | replace p op | remove p | beginModify p => cases hc
  | operands p change | endModify p | modifyOperands p change => cases hc
  | newId => exact Edit.newId_appends.map fun i _ hl => hl.2 ▸ .newId i
  | declareType k => exact (Edit.declareType_appends h k).map fun _ _ => .declareType
  | declareStruct members =>
    exact (Edit.declareStruct_appends h members).map fun _ _ => .declareStruct
  | addType op => exact (Edit.addType_appends h op).map fun _ _ hl => hl.2 ▸ .addType hl.1
  | addConstant op =>
    exact (Edit.addConstant_appends h op).map fun _ _ hl => hl.2 ▸ .addConstant hl.1
  | addVariable op =>
    exact (Edit.addVariable_appends h op).map fun _ _ hl => hl.2 ▸ .addVariable hl.1
  | addConstantImmediate v =>
    exact (Edit.addConstantImmediate_appends h v).map fun _ _ ⟨_, _, hk, hl⟩ =>
      hl ▸ .addConstantImmediate hk
  | addSpecConstantImmediate v n =>
    exact (Edit.addSpecConstantImmediate_appends h v n).map fun _ _ ⟨_, _, hk, hl⟩ =>
      hl ▸ .addSpecConstantImmediate hk
  | addDecoration op =>
    exact (Edit.addDecoration_appends h op).map fun _ _ hl => hl ▸ .addDecoration op
  | addExecutionMode op =>
    exact (Edit.addExecutionMode_appends h op).map fun _ _ hl => hl ▸ .addExecutionMode op
  | addCapability c =>
    exact (Edit.addCapability_appends h c).map fun _ _ hl => hl ▸ .addCapability c
  | addExtension name =>
    exact (Edit.addExtension_appends h name).map fun _ _ hl => hl ▸ .addExtension name
  | importExtInst name =>
    exact (Edit.importExtInst_appends h name).map fun _ _ => .importExtInst
  | decorateStorageBuffer i =>
    exact (Edit.decorateStorageBuffer_appends h i).map fun _ _ hl => hl ▸ .decorateStorageBuffer i
  | setName i text => exact (Edit.setName_appends h i text).map fun _ _ hl => hl ▸ .setName i text
  | setMemberName i member text =>
    exact (Edit.setMemberName_appends h i member text).map fun _ _ hl =>
      hl ▸ .setMemberName i member text
  | addFunction ops =>
    exact (Edit.addFunction_appends h ops).map fun _ _ hl => hl ▸ .addFunction ops

/-- What a command with proper places does to a sound session, whatever it answers. -/
theorem perform_leads {s : Session} {m : Outline} (h : s.Sound m) {c : Command} (hc : c.Proper s) :
    s.Leads (s.perform c).2 := by
  cases c with
  | insert p op => exact Edit.leads_map (Edit.insert_leads h (hc p rfl)) _
  | replace p op =>
    exact Edit.leads_map ((Edit.replace_ends (hc p rfl)).leads h
      fun _ _ ⟨_, _, _, _, _, _, _, _, _, hmove⟩ => h.leads hmove) _
  | remove p =>
    exact Edit.leads_map ((Edit.remove_ends (hc p rfl)).leads h
      fun _ _ ⟨_, _, _, _, hmove⟩ => h.leads hmove) _
  | beginModify p =>
    exact Edit.leads_map ((Edit.beginModify_ends (hc p rfl)).leads h
      fun _ _ ⟨_, _, _, _, hmove⟩ => h.leads hmove) _
  | operands p change =>
    exact Edit.leads_map ((Edit.operands_ends h change).leads h
      fun _ _ ⟨_, _, _, _, _, _, hmove⟩ => h.leads hmove) _
  | endModify p =>
    exact Edit.leads_map ((Edit.endModify_settles h).ends.leads h
      fun _ _ ⟨_, _, _, _, _, _, hmove⟩ => h.leads hmove) _
  | modifyOperands p change =>
    exact Edit.leads_map (Edit.modifyOperands_leads h (hc p rfl) change) _
  | _ => exact (edit_appends h rfl).leads h

/-! ## Runs -/

open Session Index

theorem ascending_place {cs : List (List Word)} (h : ∀ c ∈ cs, IsChunk c) (p : Nat) :
    Ascending (place p cs) := by
  induction cs generalizing p with
  | nil => exact .nil
  | cons c r ih =>
    obtain ⟨hc, hr⟩ := List.forall_mem_cons.mp h
    refine List.pairwise_cons.mpr ⟨fun j hj => ?_, ih hr _⟩
    have hpos := hc.pos
    have hj := (mem_place hr hj).1
    rw [Instruction.ofChunk_offset]
    omega

namespace Reached

variable {P : Session → Prop} {s : Session}

/-- What every move keeps, once it holds of sessions that open, holds all along. -/
theorem sound (h : Reached P s) : ∃ m, s.Sound m := by
  induction h with
  | create policy v generator _ => exact ⟨_, create_sound policy v generator⟩
  | ofWords hs _ =>
    obtain ⟨m, hm, -⟩ := ofWords_sound hs
    exact ⟨m, hm⟩
  | perform _ c hc _ ih =>
    obtain ⟨m, hm⟩ := ih
    exact hm.moves (perform_leads hm hc).1

/-- Commands given one after the other lead on by moves. -/
theorem moves (h : Reached P s) {cs : List Command} (hcs : s.Takes P cs) :
    Moves s (s.performAll cs) := by
  induction cs generalizing s with
  | nil => exact .refl
  | cons c cs ih =>
    obtain ⟨hc, hp, hrest⟩ := hcs
    obtain ⟨m, hm⟩ := h.sound
    exact (perform_leads hm hc).1.trans (ih (h.perform c hc hp) hrest)

/-- The ledger holds what the live instructions tell, and places of ids are their places. -/
theorem reflects (h : Reached P s) : s.index.Reflects s.live := by
  induction h with
  | create policy v generator _ =>
    have hlive : (Session.create policy v generator).live = [] := rfl
    rw [hlive]
    exact ⟨.empty, fun id p hp => by simp [Session.create, Index.empty] at hp⟩
  | ofWords hs _ =>
    obtain ⟨m, hm, hb, hi, -⟩ := ofWords_sound hs
    rw [live_of_none hb, hi, hm.shows.listing_eq]
    exact reflects_ofInstructions _ (ascending_place (fun c => m.isChunk_of_mem_chunks) _)
  | perform hreached c hc _ ih =>
    obtain ⟨m, hm⟩ := hreached.sound
    exact (perform_leads hm hc).2.reflects ih

/-- What the ledger has to say about a subject is in the order of offsets. -/
theorem about_ascends (h : Reached P s) (u : Subject) :
    (s.index.ledger.about u).Pairwise fun a b => a.1 < b.1 := by
  obtain ⟨m, hm⟩ := h.sound
  have hlive : Ascending s.live := by
    rw [live, hm.shows.listing_eq]
    exact (ascending_place (fun c => m.isChunk_of_mem_chunks) _).filter _
  have htold : (told s.live).Pairwise fun a b => a.1 < b.1 := by
    refine List.pairwise_filterMap.mpr (hlive.imp fun {i j} hij a ha b hb => ?_)
    obtain ⟨_, -, rfl⟩ := Option.map_eq_some_iff.mp ha
    obtain ⟨_, -, rfl⟩ := Option.map_eq_some_iff.mp hb
    exact hij
  rw [h.reflects.holds.about]
  exact htold.filter _

/-- What holds of nothing, and is kept by every change while ids are distinct, holds of the index and
the live instructions all along. -/
theorem keeps {Q : Index → List Instruction → Prop} (h₀ : Q .empty [])
    (hQ : ∀ a b : Index × List Instruction, Change a b → (definedIds a.2).Nodup →
      (definedIds b.2).Nodup → Q a.1 a.2 → Q b.1 b.2)
    (h : Reached IdsDistinct s) : Q s.index s.live := by
  induction h with
  | create policy v generator _ => exact h₀
  | ofWords hs hd =>
    obtain ⟨m, hm, hb, hi, -⟩ := ofWords_sound hs
    rw [IdsDistinct, liveIds] at hd
    rw [live_of_none hb, hm.shows.listing_eq] at hd ⊢
    rw [hi, hm.shows.listing_eq]
    have hasc := ascending_place (fun c => m.isChunk_of_mem_chunks) headerWords
    exact (changes_ofInstructions _ hasc).keeps hQ .nil hd h₀
  | perform hreached c hc hd ih =>
    obtain ⟨m, hm⟩ := hreached.sound
    exact (perform_leads hm hc).2.keeps hQ hreached.holds hd ih

/-- While ids are distinct, all that are defined have their places. -/
theorem locates (h : Reached IdsDistinct s) : s.index.Locates s.live :=
  keeps nofun (fun _ _ hab ha hb hloc => hloc.change hab ha hb) h

end Reached

end SpirvModule
