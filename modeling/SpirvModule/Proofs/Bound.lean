import SpirvModule.Proofs.Refine

/-!
# Ids and the bound

The bound is meant to be above every id that an instruction defines, so that the id handed
out next is new. Opening a module sees to that, and so does every edit that puts an
operation in. An edit that changes an instruction where it stands does not look at the id
that the instruction defines afterwards: it overreaches when that id is not below the bound.

Results:
* `Index.mem_definitions_ofInstructions`, `firstFresh?_eq_some`: the bound of a module when
  it opens.
* `perform_idsBelow`: a command keeps ids below the bound exactly if it does not overreach.
* `ReachedUnder.fresh_is_new`: as long as no command overreaches, ids that are handed out
  are new.
-/
namespace SpirvModule

/-! ## Order of ids -/

namespace Id

theorem le_max_left (a b : Id) : a.value ≤ (max a b).value := by
  rw [UInt32.le_iff_toNat_le, toNat_max]
  omega

/-- Only the largest word has no id above it. -/
theorem succ?_eq_none {i : Id} : i.succ? = none ↔ i.value = 0xFFFFFFFF := by
  unfold succ? ofWord?
  constructor
  · intro h
    by_cases h0 : i.value + 1 = 0
    · apply UInt32.toNat_inj.mp
      have h1 := congrArg UInt32.toNat h0
      have hlt := i.value.toNat_lt
      simp only [UInt32.toNat_add, UInt32.toNat_one, UInt32.toNat_zero] at h1
      simp only [UInt32.reduceToNat]
      omega
    · simp [h0] at h
  · intro h
    simp [h]

end Id

/-! ## The highest id -/

namespace Index

theorem mem_definitions_register (policy : StructPolicy) (x : Index) (i : Instruction) (id : Id) :
    id ∈ (x.register policy i).definitions ↔ i.resultId? = some id ∨ id ∈ x.definitions := by
  rw [register_definitions]
  cases hi : i.resultId? with
  | none => simp
  | some j => simp [Std.ExtTreeMap.mem_insert]

/-- The index of some instructions knows places of the ids that they define, and of no others. -/
theorem mem_definitions_ofInstructions (policy : StructPolicy) (l : List Instruction) (id : Id) :
    id ∈ (ofInstructions policy l).definitions ↔ id ∈ definedIds l := by
  have hfold : ∀ x : Index, id ∈ (l.foldl (register policy) x).definitions ↔
      id ∈ definedIds l ∨ id ∈ x.definitions := by
    induction l with
    | nil =>
      intro x
      simp [definedIds]
    | cons i r ih =>
      intro x
      rw [List.foldl_cons, ih, mem_definitions_register, definedIds_cons]
      cases i.resultId? with
      | none => simp
      | some j =>
        simp only [Option.some.injEq, List.mem_cons]
        rw [eq_comm]
        tauto
  rw [ofInstructions, hfold]
  simp [empty]

/-- The highest id is the one with the largest number among those that are defined. -/
theorem highestId?_eq_some {x : Index} {h : Id} (hx : x.highestId? = some h) :
    h ∈ x.definitions ∧ ∀ id ∈ x.definitions, id.value ≤ h.value := by
  unfold highestId? at hx
  obtain ⟨ks, hks⟩ := List.getLast?_eq_some_iff.mp hx
  have hord := x.definitions.ordered_keys
  rw [hks, List.pairwise_append] at hord
  constructor
  · rw [← Std.ExtTreeMap.mem_keys, hks]
    simp
  · intro id hid
    rw [← Std.ExtTreeMap.mem_keys, hks, List.mem_append, List.mem_singleton] at hid
    rcases hid with hid | rfl
    · have hlt : compare id.value h.value = .lt := hord.2.2 id hid h (by simp)
      exact UInt32.le_of_lt (Std.compare_eq_lt.mp hlt)
    · exact UInt32.le_refl _

theorem highestId?_eq_none {x : Index} (hx : x.highestId? = none) (id : Id) :
    id ∉ x.definitions := by
  unfold highestId? at hx
  rw [← Std.ExtTreeMap.mem_keys, List.getLast?_eq_none_iff.mp hx]
  simp

end Index

namespace Session

/-- The id to hand out first is above the highest one. -/
theorem lt_firstFresh? {b : Word} {h fresh : Id} (hf : firstFresh? b (some h) = some fresh) :
    h.value < fresh.value := by
  unfold firstFresh? at hf
  dsimp only at hf
  split at hf
  · rename_i hlt
    exact Option.some.inj hf ▸ hlt
  · exact Id.lt_of_succ? hf

/-- There is an id to hand out first unless the highest one is the largest word. -/
theorem firstFresh?_eq_none {b : Word} {highest : Option Id} :
    firstFresh? b highest = none ↔ ∃ h, highest = some h ∧ h.value = 0xFFFFFFFF := by
  unfold firstFresh?
  cases highest with
  | none => simp
  | some h =>
    dsimp only
    split
    · rename_i hlt
      have hne : h.value ≠ 0xFFFFFFFF := by
        intro heq
        rw [heq, UInt32.lt_iff_toNat_lt] at hlt
        have := ((Id.ofWord? b).getD .one).value.toNat_lt
        simp only [UInt32.reduceToNat] at hlt
        omega
      simp [hne]
    · simp [Id.succ?_eq_none]

end Session

/-! ## Ids of chunks -/

/-- The ids that chunks define, in order. -/
def chunkIds (cs : List (List Word)) : List Id :=
  cs.filterMap fun c => (Instruction.ofChunk 0 c).resultId?

theorem chunkIds_append (cs ds : List (List Word)) :
    chunkIds (cs ++ ds) = chunkIds cs ++ chunkIds ds := List.filterMap_append

/-- What an instruction defines does not depend on where it stands. -/
theorem definedIds_place (p : Nat) (cs : List (List Word)) :
    definedIds (place p cs) = chunkIds cs := by
  induction cs generalizing p with
  | nil => rfl
  | cons c r ih =>
    have hc : (Instruction.ofChunk p c).resultId? = (Instruction.ofChunk 0 c).resultId? := rfl
    rw [place_cons, definedIds_cons, ih, hc, chunkIds, chunkIds, List.filterMap_cons]
    cases (Instruction.ofChunk 0 c).resultId? <;> rfl

theorem resultId?_words (p : Nat) (op : Operation) :
    (Instruction.ofChunk p op.words).resultId? = op.resultId? := by
  have hop : (Instruction.ofChunk p op.words).opcode? = some op.opcode := op.opcode?_words
  rw [Instruction.resultId?, hop]
  rfl

theorem chunkIds_words (op : Operation) : chunkIds [op.words] = op.resultId?.toList := by
  rw [chunkIds, List.filterMap_cons, resultId?_words]
  cases op.resultId? <;> rfl

theorem chunkIds_nops (n : Nat) : chunkIds (List.replicate n [Edit.nopWord]) = [] := by
  rw [← definedIds_place 0, Session.definedIds_place_nops]

theorem Outline.Splits.chunks_exchange {m : Outline} {sec : Section} {p : Nat}
    {xs ys zs new : List (List Word)} (h : m.Splits sec p xs ys zs)
    (hn : ∀ c ∈ new, Fits sec c) :
    (h.exchange hn).contents.chunks =
      (m.contents.front sec ++ xs) ++ (new ++ (zs ++ m.contents.back sec)) := by
  rw [(h.splits_exchange hn).chunks_eq, h.exchange_contents, Contents.front_update,
    Contents.back_update]

namespace Session

/-- Every id that an instruction defines is below the bound. -/
def IdsBelow (s : Session) : Prop := ∀ id ∈ definedIds s.listing, id.value < s.bound

instance (s : Session) : Decidable s.IdsBelow := inferInstanceAs (Decidable (∀ id ∈ _, _))

variable {s t : Session} {m : Outline} {sec : Section} {p : Nat} {xs ys zs new : List (List Word)}

theorem Shows.idsBelow (h : s.Shows m) :
    s.IdsBelow ↔ ∀ id ∈ chunkIds m.contents.chunks, id.value < s.bound := by
  rw [IdsBelow, h.listing_eq, definedIds_place]

/-- Ids stay below a bound that does not fall. -/
theorem Shows.idsBelow_mono (hs : s.Shows m) (ht : t.Shows m) (hb : s.bound ≤ t.bound)
    (h : s.IdsBelow) : t.IdsBelow := by
  rw [hs.idsBelow] at h
  rw [ht.idsBelow]
  intro id hid
  exact UInt32.lt_of_lt_of_le (h id hid) hb

/-- When chunks give way to others, the ids of the new ones have to be below the bound. -/
theorem Shows.idsBelow_exchange (hs : s.Shows m) (hm : m.Splits sec p xs ys zs)
    (hn : ∀ c ∈ new, Fits sec c) (ht : t.Shows (hm.exchange hn)) (hb : t.bound = s.bound)
    (h : s.IdsBelow) : t.IdsBelow ↔ ∀ id ∈ chunkIds new, id.value < s.bound := by
  rw [hs.idsBelow, hm.chunks_eq] at h
  rw [ht.idsBelow, hm.chunks_exchange hn, hb]
  simp only [chunkIds_append, List.mem_append] at h ⊢
  constructor
  · intro hall id hid
    exact hall id (.inr (.inl hid))
  · intro hnew id hid
    rcases hid with hid | hid | hid
    · exact h id (.inl hid)
    · exact hnew id hid
    · exact h id (.inr (.inr hid))

theorem bound_le_raised (s : Session) (b : Id) : s.bound ≤ (s.raised b).bound :=
  Id.le_max_left s.fresh b

end Session

open Session

theorem Edit.Refused.idsBelow {s t : Session} {m : Outline} (h : s.Sound m)
    (ht : Edit.Refused s t) (hs : s.IdsBelow) : t.IdsBelow := by
  rcases ht with rfl | ⟨e, rfl⟩
  · exact hs
  · exact h.shows.idsBelow_mono (h.breached e).shows (UInt32.le_refl _) hs

theorem Edit.Raised.idsBelow {s t : Session} {m : Outline} (h : s.Sound m)
    (ht : Edit.Raised s t) (hs : s.IdsBelow) : t.IdsBelow := by
  rcases ht with rfl | ⟨i, b, -, -, rfl⟩
  · exact hs
  · exact h.shows.idsBelow_mono (h.raised b).shows (s.bound_le_raised b) hs

/-- An operation that is put in defines an id below the bound, if any. -/
theorem Session.Sound.idsBelow_inserted {s : Session} {m : Outline} (h : s.Sound m)
    (hs : s.Editable) {sec : Section} {p : Nat} {op : Operation} {xs zs : List (List Word)}
    (hm : m.Splits sec p xs [] zs) (hf : ∀ d ∈ [op.words], Fits sec d)
    (hb : ∀ i, op.resultId? = some i → i.value < s.bound) (hbelow : s.IdsBelow) :
    (s.inserted sec p op).IdsBelow := by
  rw [h.shows.idsBelow_exchange hm hf (h.inserted hs hm hf).shows rfl hbelow, chunkIds_words]
  intro id hid
  exact hb id (Option.mem_toList.mp hid)

/-- Ids stay below the bound when operations are appended. -/
theorem Adds.idsBelow {s t : Session} {m : Outline} {l : List (Section × Operation)}
    (h : s.Sound m) (hst : Adds s l t) (hs : s.IdsBelow) : t.IdsBelow := by
  induction hst with
  | refl => exact hs
  | breach hadds e ih =>
    obtain ⟨m', h', -⟩ := hadds.sound h
    exact Edit.Refused.idsBelow h' (.inr ⟨e, rfl⟩) ih
  | raise hadds ht hb ih =>
    obtain ⟨m', h', -⟩ := hadds.sound h
    exact Edit.Raised.idsBelow h' (.inr ⟨_, _, hb, ht, rfl⟩) ih
  | append hadds ht hh hl hb ih =>
    obtain ⟨m', h', -⟩ := hadds.sound h
    exact h'.idsBelow_inserted ht (splits_sectionStop h'.shows _)
      (fits_singleton (fits_words hh hl)) hb ih

/-! ## Commands -/

/-- The id that the instruction at `p` defines after a change of its operands. -/
def Session.changedId? (s : Session) (p : Nat) (change : OperandChange) : Option Id := do
  let i ← s.instruction? p
  let new ← change.apply i.operands
  Instruction.resultId? { i with operands := new }

theorem Session.mem_chunkIds_changed {s : Session} {p : Nat} {change : OperandChange} {w : Word}
    {us new : List Word} (hi : s.instruction? p = some (.ofChunk p (w :: us)))
    (hnew : change.apply us = some new) (id : Id) :
    id ∈ chunkIds [w :: new] ↔ id ∈ s.changedId? p change := by
  have hops : (Instruction.ofChunk p (w :: us)).operands = us := rfl
  simp only [changedId?, hi, hops, hnew, Option.bind_eq_bind, Option.bind_some, chunkIds,
    List.mem_filterMap, List.mem_singleton, exists_eq_left, Option.mem_def]
  rfl

namespace Command

/-- The id that the instruction a command changes where it stands defines afterwards. -/
def redefined? (s : Session) : Command → Option Id
  | replace _ op => op.resultId?
  | operands p change | modifyOperands p change => s.changedId? p change
  | _ => none

/-- Whether a command is answered and makes an instruction define an id that is not below the
bound. -/
def Overreaches (s : Session) (c : Command) : Prop :=
  c.Answered s ∧ ∃ id ∈ c.redefined? s, s.bound ≤ id.value

instance (s : Session) (c : Command) : Decidable (c.Overreaches s) :=
  inferInstanceAs (Decidable (_ ∧ ∃ id ∈ c.redefined? s, _))

end Command

namespace Edit

variable {α : Type} {s t : Session} {m : Outline} {p : Nat} {op : Operation}

/-- A command that is refused leaves ids below the bound, and one that is answered does so exactly
if what is left behind says so. -/
theorem Ends.idsBelow_iff {c : Command} {e : Edit α} {g : α → Answer} {Q : α → Session → Prop}
    (h : s.Sound m) (hs : s.IdsBelow) (hc : c.edit = e >>= fun a => pure (g a)) (he : e.Ends s Q)
    (hQ : ∀ a t, Q a t → (t.IdsBelow ↔ ∀ id ∈ c.redefined? s, id.value < s.bound)) :
    (s.perform c).2.IdsBelow ↔ ¬ c.Overreaches s := by
  have hrun : s.perform c = (e >>= fun a => pure (g a)).run s := by rw [Session.perform, hc]
  rw [Command.Overreaches, Command.Answered, hrun, run_bind]
  rcases he with ⟨x, t, hx, ht⟩ | ⟨a, t, ha, hq⟩
  · rw [hx]
    simp [ht.idsBelow h hs]
  · have hok : ((pure (g a) : Edit Answer).run t) = (.ok (g a), t) := rfl
    simp only [ha, hok, hQ a t hq, Except.ok.injEq, exists_eq', true_and, not_exists, not_and,
      UInt32.not_le]

theorem modifyOperands_idsBelow (h : s.Sound m) (hs : s.IdsBelow) (hp : s.IsPlace p)
    (change : OperandChange) :
    (s.perform (.modifyOperands p change)).2.IdsBelow ↔
      ¬ (Command.modifyOperands p change).Overreaches s := by
  have hrun : s.perform (.modifyOperands p change) =
      (modifyOperands p change >>= fun _ => pure Answer.done).run s := rfl
  rw [Command.Overreaches, Command.Answered, hrun, run_bind]
  rcases modifyOperands_run h hp change with ⟨x, t, hx, ht⟩ | ⟨i, new, _, hi, hnew, hlen, hx⟩
  · -- the bracket may be left open, with the words as they were
    have hbelow : t.IdsBelow := by
      rcases ht with ht | ⟨i, _, hi, ht⟩
      · exact ht.idsBelow h hs
      · obtain ⟨sec, xs, c, zs, hm, rfl⟩ := h.shows.split_of_instruction? hp hi
        refine ht.idsBelow (h.opened hm) ?_
        exact h.shows.idsBelow_mono (h.opened hm).shows (UInt32.le_refl _) hs
    rw [hx]
    simp [hbelow]
  · obtain ⟨sec, xs, c, zs, hm, rfl⟩ := h.shows.split_of_instruction? hp hi
    cases c with
    | nil => exact (hm.isChunk (List.mem_singleton_self _)).elim
    | cons w us =>
      have hf := hm.fits_operands hlen
      have hiff := h.shows.idsBelow_exchange hm hf (h.modified hm hf hlen).shows rfl hs
      have hok : ((pure Answer.done : Edit Answer).run (s.modified (.ofChunk p (w :: us)) new)) =
        (.ok .done, s.modified (.ofChunk p (w :: us)) new) := rfl
      simp only [hx, hok, hiff, mem_chunkIds_changed hi hnew, Command.redefined?, Except.ok.injEq,
        exists_eq', true_and, not_exists, not_and, UInt32.not_le]

end Edit

/-- A command with proper places leaves ids below the bound exactly if it does not overreach. -/
theorem perform_idsBelow {s : Session} {m : Outline} (h : s.Sound m) (hs : s.IdsBelow)
    {c : Command} (hc : c.Proper s) : (s.perform c).2.IdsBelow ↔ ¬ c.Overreaches s := by
  have adder (hoff : c.offset? = none) (hid : c.redefined? s = none) :
      (s.perform c).2.IdsBelow ↔ ¬ c.Overreaches s := by
    obtain ⟨r, l, t, hrun, hadds, -⟩ := edit_appends h hoff
    have hbelow : (s.perform c).2.IdsBelow := by
      rw [Session.perform, hrun]
      exact hadds.idsBelow h hs
    simp [hbelow, Command.Overreaches, hid]
  cases c with
  | insert p op =>
    refine (Edit.insert_ends h (hc p rfl)).idsBelow_iff (g := .defined) h hs rfl ?_
    rintro a t ⟨hed, hl, sec, u, hsec, hu, hb, -, rfl, -⟩
    obtain ⟨ha, hh⟩ := Edit.placement_eq_some hsec
    obtain ⟨xs, zs, hm⟩ := h.shows.split_of_accepts (hc p rfl) ha
    have hbelow := (hu.sound h).idsBelow_inserted (hu.editable hed) hm
      (fits_singleton (fits_words hh hl)) hb (hu.idsBelow h hs)
    simp [hbelow, Command.redefined?]
  | replace p op =>
    refine (Edit.replace_ends (hc p rfl)).idsBelow_iff (g := .defined) h hs rfl ?_
    rintro a t ⟨hed, hl, sec, i, hsec, hh, hi, rfl, -, -⟩
    have hcont : (s.layout.span sec).contains p :=
      List.find?_some (p := fun s' => (s.layout.span s').contains p) hsec
    obtain ⟨xs, c, zs, hm, rfl⟩ := h.shows.split_of_contains (hc p rfl) hcont hi
    have hf := fits_singleton (fits_words hh hl)
    rw [h.shows.idsBelow_exchange hm hf (h.replaced hed hm hf).shows rfl hs, chunkIds_words]
    simp [Command.redefined?]
  | remove p =>
    refine (Edit.remove_ends (hc p rfl)).idsBelow_iff (g := fun _ => .done) h hs rfl ?_
    rintro a t ⟨hed, i, hi, rfl, -⟩
    obtain ⟨sec, xs, c, zs, hm, rfl⟩ := h.shows.split_of_instruction? (hc p rfl) hi
    rw [h.shows.idsBelow_exchange hm _ (h.blanked hed hm).shows rfl hs, chunkIds_nops]
    simp [Command.redefined?]
  | beginModify p =>
    refine (Edit.beginModify_ends (hc p rfl)).idsBelow_iff (g := fun _ => .done) h hs rfl ?_
    rintro a t ⟨-, i, hi, rfl, -⟩
    obtain ⟨sec, xs, c, zs, hm, rfl⟩ := h.shows.split_of_instruction? (hc p rfl) hi
    have hbelow := h.shows.idsBelow_mono (h.opened hm).shows (UInt32.le_refl _) hs
    simp [hbelow, Command.redefined?]
  | operands p change =>
    refine (Edit.operands_ends h change).idsBelow_iff (g := .operands) h hs rfl ?_
    rintro new t ⟨b, hb, rfl, hnew, hn, rfl, -⟩
    obtain ⟨sec, xs, w, us, zs, hm, hl⟩ := h.split_of_bracket hb
    have hv : new.length = us.length := by omega
    have hf := hm.fits_operands hv
    rw [hl, Nat.add_sub_cancel, Edit.operands_of_splits h.shows hm] at hnew
    rw [h.shows.idsBelow_exchange hm hf (h.overwritten hb hm hl hf hv).shows rfl hs]
    simp only [mem_chunkIds_changed (h.shows.instruction?_of_splits hm) hnew, Command.redefined?]
  | endModify p =>
    refine (Edit.endModify_settles h).ends.idsBelow_iff (g := fun _ => .done) h hs rfl ?_
    rintro a t ⟨b, i, -, -, -, rfl, -⟩
    have hbelow := h.shows.idsBelow_mono (h.closed i).shows (UInt32.le_refl _) hs
    simp [hbelow, Command.redefined?]
  | modifyOperands p change => exact Edit.modifyOperands_idsBelow h hs (hc p rfl) change
  | _ => exact adder rfl rfl

/-! ## Runs -/

/-- A module that opens has all its ids below the bound. -/
theorem idsBelow_ofWords {policy : StructPolicy} {ws : List Word} {s : Session}
    (h : ofWords policy ws = .ok s) : s.IdsBelow := by
  obtain ⟨v, fresh, -, hfresh, hs⟩ := ofWords_ok h
  obtain ⟨m, -, -, hindex, -⟩ := ofWords_sound h
  intro id hid
  have hbound : s.bound = fresh.value := by rw [hs]; rfl
  have hsame : Index.ofInstructions policy (found ws v.layout) = s.index := by rw [hs]
  rw [← Index.mem_definitions_ofInstructions policy, ← hindex] at hid
  rw [hsame] at hfresh
  rw [hbound]
  cases hhigh : s.index.highestId? with
  | none => exact absurd hid (Index.highestId?_eq_none hhigh id)
  | some high =>
    rw [hhigh] at hfresh
    exact UInt32.lt_of_le_of_lt ((Index.highestId?_eq_some hhigh).2 id hid) (lt_firstFresh? hfresh)

namespace ReachedUnder

variable {s : Session}

theorem idsBelow (h : ReachedUnder (fun _ => True) (fun s c => ¬ c.Overreaches s) s) :
    s.IdsBelow := by
  induction h with
  | create policy v generator _ =>
    intro id hid
    cases hid
  | ofWords hs _ => exact idsBelow_ofWords hs
  | perform hrun c hc hover ih =>
    obtain ⟨m, hm⟩ := hrun.reachable.sound
    exact (perform_idsBelow hm ih hc).mpr hover

/-- At every point of a run without overreaching commands all ids are below the bound, and an id
that is handed out is defined by no instruction. A further command keeps it so exactly if it does
not overreach. -/
theorem fresh_is_new (h : ReachedUnder (fun _ => True) (fun s c => ¬ c.Overreaches s) s) :
    s.IdsBelow ∧
      (∀ i, (s.perform .newId).1 = .ok (.id i) → ∀ j ∈ s.listing, j.resultId? ≠ some i) ∧
      ∀ c : Command, c.Proper s → ((s.perform c).2.IdsBelow ↔ ¬ c.Overreaches s) := by
  have hbelow := h.idsBelow
  obtain ⟨m, hm⟩ := h.reachable.sound
  refine ⟨hbelow, ?_, fun c hc => perform_idsBelow hm hbelow hc⟩
  intro i hi j hj hid
  have hfresh : s.fresh = i := by
    have hnew : (Command.newId).edit.Appends s fun a _ => a = .id s.fresh :=
      Edit.newId_appends.map fun _ _ hl => by rw [hl.1]
    obtain ⟨l, -, ha⟩ := Edit.Appends.answer hnew (Prod.ext hi rfl)
    exact (Answer.id.inj ha).symm
  subst hfresh
  exact UInt32.lt_irrefl _ (hbelow s.fresh (mem_definedIds hj hid))

/-- A type is declared, one with an id of its own is put in behind it, and the first one is replaced
by one with an id in between. -/
def renumberedType : List Command :=
  [.declareType (.scalar .bool), .insert 7 ⟨.opTypeSampler, [9]⟩, .replace 5 ⟨.opTypeBool, [4]⟩]

theorem fresh_is_new_renumberedType :
    ReachedUnder (fun _ => True) (fun s c => ¬ c.Overreaches s)
        ((Session.create .never ⟨1, 3⟩ 0).performAll renumberedType) ∧
      ((Session.create .never ⟨1, 3⟩ 0).performAll renumberedType).IdsBelow ∧
      ¬ (((Session.create .never ⟨1, 3⟩ 0).performAll renumberedType).perform
        (.replace 5 ⟨.opTypeBool, [10]⟩)).2.IdsBelow := by
  have h : ReachedUnder (fun _ => True) (fun s c => ¬ c.Overreaches s)
      ((Session.create .never ⟨1, 3⟩ 0).performAll renumberedType) :=
    ReachedUnder.performAll (.create _ _ _ trivial) (by decide +kernel)
  refine ⟨h, h.fresh_is_new.1, ?_⟩
  rw [h.fresh_is_new.2.2 _ (by decide +kernel)]
  decide +kernel

end ReachedUnder

/-- The id of a type is exchanged for the one that comes next. The bound stays, and the id is handed
out although it is defined. -/
theorem replaced_id_handed_out :
    (¬ ∀ s, Reachable s → s.IdsBelow) ∧
      ¬ ∀ s i, Reachable s → (s.perform .newId).1 = .ok (.id i) →
        ∀ j ∈ s.listing, j.resultId? ≠ some i := by
  have h : Reachable ((Session.create .never ⟨1, 3⟩ 0).performAll
      [.declareType (.scalar .bool), .replace 5 ⟨.opTypeBool, [2]⟩]) :=
    Reached.performAll (.create _ _ _ trivial) (by decide +kernel)
  constructor
  · intro hbelow
    exact absurd (hbelow _ h) (by decide +kernel)
  · intro hnew
    exact absurd (hnew _ ⟨2, by decide⟩ h (by decide +kernel)) (by decide +kernel)

end SpirvModule
