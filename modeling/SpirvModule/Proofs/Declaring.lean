import SpirvModule.Proofs.Crash
import SpirvModule.Proofs.Functions

/-!
# Declaring a type

A type needs its constituents. Some are named by an id, which some instruction has to define;
others are part of the key, and have to be found under a key of their own. If all are there, the
type is declared with the next id, unless ids run out or there are too many arguments for one
instruction. Afterwards the id and the key lead to each other: as long as ids are distinct, what was
written by the id of a constituent is read back by the same key.

* `TypeKey.constituents`, `Session.provides`: what a key needs, and whether it is there.
* `TypeKey.wordCount`: how long the declaration of a key is.
* `Operation.idWords`: the operands of a type that are ids.
* `Session.GrowsFresh`: what an operation that is appended with the next id does to a session.

Results:
* `newId_bind_yields`: an operation is appended with an id that was handed out for it.
* `declareNew_lacking`, `declareNew_exhausted`, `declareNew_long`, `declareNew_answers`: the four
  ways in which the declaration of a type can end.
* `Reached.absent_type_declared`: when each of them comes about.
-/
namespace SpirvModule

open Session

/-! ## Constituents -/

namespace TypeKey

/-- What has to be there before a type can be declared, in the order in which it is looked for. -/
def constituents : TypeKey → List MissingType
  | vector v => [.scalar v.scalar]
  | matrix m => [.vector m.column]
  | image g => [.scalar g.sampledType]
  | pointer base _ => [.id base]
  | sampledImage i => [.id i]
  | function result arguments => (result :: arguments).map .id
  | _ => []

/-- Length of the instruction that declares a type. -/
def wordCount : TypeKey → Nat
  | scalar .void | scalar .bool | sampler => 2
  | scalar (.float _) | sampledImage _ => 3
  | scalar (.int _ _) | vector _ | matrix _ | pointer _ _ => 4
  | image _ => 9
  | function _ arguments => arguments.length + 3

theorem home?_opcode (k : TypeKey) : k.opcode.home? = some .types := by
  have hall : ∀ op ∈ opcodes, op.home? = some .types := by decide +kernel
  exact hall _ k.opcode_mem

end TypeKey

/-- Whether a constituent is there: a scalar or a vector has to be declared, and an id defined. -/
def Session.provides (s : Session) : MissingType → Bool
  | .scalar c => (s.getType? (.scalar c)).isSome
  | .vector v => (s.getType? (.vector v)).isSome
  | .id i => (s.locate? i).isSome

/-- The operands of a type that are ids. The others are numbers. -/
def Operation.idWords (op : Operation) : List Word :=
  if op.opcode = .opTypeFunction then op.operands
  else if op.opcode = .opTypePointer then op.operands.eraseIdx 1
  else if op.opcode ∈ [.opTypeVector, .opTypeMatrix, .opTypeImage, .opTypeSampledImage] then
    op.operands.take 2
  else op.operands.take 1

namespace TypeTable

variable {t : TypeTable} {k : TypeKey} {i : Id} {op : Operation}

theorem wordCount_declaration (h : t.declaration k i = .ok op) : op.wordCount = k.wordCount := by
  unfold declaration at h
  split at h
  case h_5 | h_6 | h_8 =>
    split at h <;> cases h
    rfl
  all_goals
    cases h
    simp [Operation.wordCount, TypeKey.wordCount]

/-- The ids in a declaration are the one it defines, and those of the constituents. -/
theorem mem_idWords_declaration (h : t.declaration k i = .ok op) {w : Word} (hw : w ∈ op.idWords) :
    ∃ c : Id, c.value = w ∧
      (c = i ∨ c ∈ k.references ∨ ∃ d ∈ k.component?, t.get? d = some c) := by
  cases k with
  | vector v | matrix m | image g =>
    obtain ⟨c, r, hc, hops⟩ := declaration_component h rfl
    have hids : op.idWords = [i.value, c.value] := by
      have hop := (declaration_head h).1
      simp +decide [Operation.idWords, hop, hops, TypeKey.opcode]
    rw [hids] at hw
    rcases List.mem_pair.mp hw with rfl | rfl
    · exact ⟨i, rfl, .inl rfl⟩
    · exact ⟨c, rfl, .inr (.inr ⟨_, rfl, hc⟩)⟩
  | pointer base storage =>
    cases h
    have hids : Operation.idWords ⟨.opTypePointer, [i.value, storage.value, base.value]⟩ =
      [i.value, base.value] := rfl
    rw [hids] at hw
    rcases List.mem_pair.mp hw with rfl | rfl
    · exact ⟨i, rfl, .inl rfl⟩
    · exact ⟨base, rfl, .inr (.inl (List.mem_singleton_self base))⟩
  | sampledImage g =>
    cases h
    rcases List.mem_pair.mp hw with rfl | rfl
    · exact ⟨i, rfl, .inl rfl⟩
    · exact ⟨g, rfl, .inr (.inl (List.mem_singleton_self g))⟩
  | function result arguments =>
    cases h
    rcases List.mem_cons.mp hw with rfl | hw
    · exact ⟨i, rfl, .inl rfl⟩
    · rw [← List.map_cons] at hw
      obtain ⟨c, hc, rfl⟩ := List.mem_map.mp hw
      exact ⟨c, rfl, .inr (.inl hc)⟩
  | scalar c =>
    cases c <;> cases h <;> exact ⟨i, (List.mem_singleton.mp hw).symm, .inl rfl⟩
  | sampler =>
    cases h
    exact ⟨i, (List.mem_singleton.mp hw).symm, .inl rfl⟩

end TypeTable

/-! ## The search for constituents -/

/-- The first constituent of a key that is not there. -/
def Session.lacks? (s : Session) (k : TypeKey) : Option MissingType :=
  k.constituents.find? fun c => !s.provides c

namespace Edit

variable {s t : Session} {m : Outline} {k : TypeKey} {c : MissingType}

/-- Among ids the first that is missing is the first that no instruction defines. -/
theorem find?_map_id (s : Session) (ids : List Id) :
    (ids.map MissingType.id).find? (fun c => !s.provides c) =
      (firstUndefined? s ids).map MissingType.id := by
  have hp : (fun c => !s.provides c) ∘ MissingType.id = fun i => (s.locate? i).isNone := by
    funext i
    rw [Function.comp_apply, provides, Option.not_isSome]
  rw [List.find?_map, hp, firstUndefined?]

theorem lacks?_of_ids (h : k.constituents = k.references.map .id) :
    s.lacks? k = (firstUndefined? s k.references).map .id := by
  rw [lacks?, h, find?_map_id]

/-- Ids are looked for in front of a declaration, and keys while it is made. -/
theorem lacks?_eq (s : Session) (k : TypeKey) (i : Id) :
    s.lacks? k = match firstUndefined? s k.references with
      | some r => some (.id r)
      | none => match s.index.types.declaration k i with
        | .error c => some c
        | .ok _ => none := by
  cases k with
  | vector v | image v =>
    rw [lacks?, TypeKey.constituents, List.find?_singleton, provides, getType?]
    simp only [TypeKey.references, firstUndefined?, List.find?_nil, TypeTable.declaration,
      TypeTable.scalarId]
    cases s.index.types.get? _ <;> rfl
  | matrix m =>
    rw [lacks?, TypeKey.constituents, List.find?_singleton, provides, getType?]
    simp only [TypeKey.references, firstUndefined?, List.find?_nil, TypeTable.declaration]
    cases s.index.types.get? _ <;> rfl
  | pointer _ _ | sampledImage _ | function _ _ =>
    rw [lacks?_of_ids rfl]
    cases firstUndefined? s _ <;> rfl
  | scalar c => cases c <;> rfl
  | sampler => rfl

theorem lacks?_eq_none (i : Id) (h : s.lacks? k = none) : firstUndefined? s k.references = none ∧
    ∃ op, s.index.types.declaration k i = .ok op := by
  rw [lacks?_eq s k i] at h
  split at h
  · cases h
  · rename_i hrefs
    split at h
    · cases h
    · exact ⟨hrefs, _, ‹_›⟩

/-! ## The ends of a declaration -/

/-- Declares a type by an operation for which all is there. -/
def declareAs (k : TypeKey) (op : Operation) : Edit Id := do
  let i ← newId
  let _ ← append .types (op.setResultId i)
  if (← get).getType? k ≠ some i then throw .crash
  return i

/-- A type is refused for the first constituent that is missing. -/
theorem declareNew_lacking (hs : s.Editable) (hc : s.lacks? k = some c) :
    (declareNew k).Stops (.missingDependency k c) s := by
  rw [lacks?_eq s k s.fresh] at hc
  refine (ensureNoBracket_answers hs).bind_stops fun _ => ?_
  rw [Stops, run_get_bind]
  cases hrefs : firstUndefined? s k.references with
  | some r =>
    rw [hrefs] at hc
    obtain rfl : .id r = c := Option.some.inj hc
    rfl
  | none =>
    rw [hrefs] at hc
    cases hdecl : s.index.types.declaration k s.fresh with
    | error c' =>
      simp only [hdecl] at hc
      obtain rfl : c' = c := Option.some.inj hc
      rfl
    | ok op =>
      simp only [hdecl] at hc
      cases hc

theorem declareNew_run (hs : s.Editable) (hc : s.lacks? k = none) :
    ∃ op, s.index.types.declaration k s.fresh = .ok op ∧
      (declareNew k).run s = (declareAs k op).run s := by
  obtain ⟨hrefs, op, hop⟩ := lacks?_eq_none s.fresh hc
  obtain ⟨_, u, hrun, rfl⟩ := ensureNoBracket_answers hs
  refine ⟨op, hop, ?_⟩
  rw [declareNew, run_bind, hrun]
  simp only [run_get_bind, hrefs, hop]
  rfl

/-- No id is handed out behind the last one. -/
theorem newId_exhausted (hs : s.breach = none) (hlast : s.fresh.succ? = none) :
    newId.Stops .idsExhausted s := by
  refine (ensureLive_answers hs).bind_stops fun _ => ?_
  show (raiseBound s.fresh >>= fun _ => pure s.fresh).run s = _
  rw [raiseBound, hlast]
  rfl

/-- An id that is handed out is the old bound, and the bound is raised above it. -/
theorem newId_yields (hs : s.breach = none) :
    newId.Yields s fun i t => i = s.fresh ∧ ∃ b, i.succ? = some b ∧ t = s.raised b := by
  refine Settles.yields ?_
  cases hb : s.fresh.succ? with
  | none => exact .inl ⟨_, newId_exhausted hs hb⟩
  | some b =>
    refine .inr ((newId_answers hs hb).mono fun i t ⟨hi, ht⟩ => ⟨hi, b, ?_, ht⟩)
    rw [hi, hb]

/-- A declaration is refused if there is no id left for it. -/
theorem declareNew_exhausted (hs : s.Editable) (hc : s.lacks? k = none)
    (hlast : s.fresh.succ? = none) : (declareNew k).Stops .idsExhausted s := by
  obtain ⟨op, -, hrun⟩ := declareNew_run hs hc
  rw [Stops, hrun]
  exact (newId_exhausted hs.1 hlast).bind _

/-- It is refused if it is too long, but the id is given away. -/
theorem declareNew_long (hs : s.Editable) (hc : s.lacks? k = none) {b : Id}
    (hb : s.fresh.succ? = some b) (hlong : maxWords < k.wordCount) :
    (declareNew k).run s = (.error (.refused (.operationTooLong k.wordCount)),
      (s.raised b).breached (.operationTooLong k.wordCount)) := by
  obtain ⟨op, hop, hrun⟩ := declareNew_run hs hc
  obtain ⟨_, _, hnew, rfl, rfl⟩ := newId_answers hs.1 hb
  have hflaw : op.flaw? = some (.operationTooLong k.wordCount) := by
    rw [← TypeTable.wordCount_declaration hop] at hlong ⊢
    exact if_pos hlong
  have happend : (append .types op).Stops (.operationTooLong k.wordCount) (s.raised b) :=
    append_flawed hs hflaw
  rw [hrun, declareAs, run_bind, hnew]
  simp only [TypeTable.setResultId_declaration hop]
  exact happend.bind _

end Edit

/-! ## A declared type -/

/-- An instruction that is read as a key that was not there is entered under it. -/
theorem Index.types_register_new {x : Index} {policy : StructPolicy} {j : Instruction} {i : Id}
    {k : TypeKey} (hid : j.resultId? = some i) (hdecode : x.types.decode j = some k) :
    (x.register policy j).types = x.types.insert k i := by
  cases x.register_gains policy j with
  | idle _ _ hno => cases (hno i hid).symm.trans hdecode
  | @type c k' hc hk' hu =>
    obtain rfl := Option.some.inj (hc.symm.trans hid)
    obtain rfl := Option.some.inj (hk'.symm.trans hdecode)
    exact hu

theorem Contents.chunkIds_append_perm (c : Contents) (sec : Section) (op : Operation) :
    (chunkIds (c.append sec [op.words]).chunks).Perm (op.resultId?.toList ++ chunkIds c.chunks) := by
  rw [(c.append sec [op.words]).chunks_eq sec, c.chunks_eq sec, append, front_update, back_update,
    Function.update_self]
  simp only [chunkIds_append, chunkIds_words, List.append_assoc]
  refine .trans ?_ (List.perm_append_comm_assoc _ _ _)
  exact .append_left _ (List.perm_append_comm_assoc _ _ _)

section

variable {s t : Session} {m m' : Outline} {sec : Section} {op : Operation} {k : TypeKey} {i : Id}

theorem Session.Shows.liveIds_eq (h : s.Shows m) (hb : s.bracket = none) :
    s.liveIds = chunkIds s.contents.chunks := by
  rw [liveIds, live_of_none hb, h.listing_eq, definedIds_place, h.contents_eq]

/-- An operation that is appended brings the id it defines. -/
theorem Session.Grows.liveIds_perm (hst : s.Grows sec op t) (h : s.Shows m) (ht : t.Shows m')
    (hb : s.bracket = none) : t.liveIds.Perm (op.resultId?.toList ++ s.liveIds) := by
  have hb' : t.bracket = none := (congrArg (·.bracket) hst.frame).trans hb
  rw [h.liveIds_eq hb, ht.liveIds_eq hb', hst.contents]
  exact Contents.chunkIds_append_perm ..

theorem Session.Grows.mem_liveIds (hst : s.Grows sec op t) (h : s.Shows m) (ht : t.Shows m')
    (hb : s.bracket = none) : i ∈ t.liveIds ↔ i ∈ s.liveIds ∨ op.resultId? = some i := by
  rw [(hst.liveIds_perm h ht hb).mem_iff, List.mem_append, Option.mem_toList, or_comm]

/-- If ids are distinct afterwards, they were before, and it is a new one. -/
theorem Session.Grows.new_id (hst : s.Grows sec op t) (h : s.Shows m) (ht : t.Shows m')
    (hb : s.bracket = none) (hid : op.resultId? = some i) (hd : t.IdsDistinct) :
    s.IdsDistinct ∧ i ∉ s.liveIds := by
  have hnodup := (hst.liveIds_perm h ht hb).nodup_iff.mp hd
  rw [hid] at hnodup
  exact (List.nodup_cons.mp hnodup).symm

/-- What becomes of a session when `op i` is appended to section `sec` with the next id `i`. -/
structure Session.GrowsFresh (s : Session) (sec : Section) (op : Id → Operation) (i : Id)
    (t : Session) : Prop where
  fresh : i = s.fresh
  grows : ∃ b, i.succ? = some b ∧ (s.raised b).Grows sec (op i) t
  sound : ∃ m', t.Sound m'

namespace Session.GrowsFresh

variable {op : Id → Operation}

theorem contents (hst : s.GrowsFresh sec op i t) (h : s.Sound m) :
    t.contents = s.contents.append sec [(op i).words] := by
  obtain ⟨b, -, hgrows⟩ := hst.grows
  rw [hgrows.contents, (h.raised b).shows.contents_eq, h.shows.contents_eq]

theorem frame (hst : s.GrowsFresh sec op i t) : t.frame = s.frame := by
  obtain ⟨b, -, hgrows⟩ := hst.grows
  exact hgrows.frame

/-- The next id after it is the one that follows. -/
theorem succ? (hst : s.GrowsFresh sec op i t) (hid : (op i).resultId? = some i) :
    i.succ? = some t.fresh := by
  obtain ⟨b, hb, hgrows⟩ := hst.grows
  obtain rfl := hst.fresh
  rw [hgrows.fresh_of_newId hb hid, hb]

/-- What is appended is live, as it does not come in a bracket. -/
theorem mem_live (hst : s.GrowsFresh sec op i t) (h : s.Sound m) (hb : s.bracket = none) :
    .ofChunk (s.sectionStop sec) (op i).words ∈ t.live := by
  obtain ⟨b, -, hgrows⟩ := hst.grows
  obtain ⟨m', ht⟩ := hst.sound
  exact hgrows.mem_live (h.raised b).shows ht.shows hb

/-- If ids are distinct afterwards, they were before, and it is a new one. -/
theorem new_id (hst : s.GrowsFresh sec op i t) (h : s.Sound m) (hb : s.bracket = none)
    (hid : (op i).resultId? = some i) (hd : t.IdsDistinct) : s.IdsDistinct ∧ i ∉ s.liveIds := by
  obtain ⟨b, -, hgrows⟩ := hst.grows
  obtain ⟨m', ht⟩ := hst.sound
  have hlive : (s.raised b).liveIds = s.liveIds :=
    congrArg definedIds (h.live_congr (h.raised b) rfl)
  have hnew := hgrows.new_id (h.raised b).shows ht.shows hb hid hd
  rwa [IdsDistinct, hlive] at hnew

end Session.GrowsFresh

/-- A type whose components lead back to their keys is read back by its own key. -/
theorem Session.Grows.types_declared (hst : s.Grows .types op t)
    (hop : s.index.types.declaration k i = .ok op)
    (hback : ∀ d ∈ k.component?, s.index.types.LeadsBack d) :
    t.index.types = s.index.types.insert k i := by
  rw [hst.index]
  refine Index.types_register_new (x := s.index.relocate _ 0 op.wordCount) ?_ ?_
  · exact (resultId?_words _ op).trans (TypeTable.resultId?_declaration hop)
  · rw [TypeTable.decode_eq_some]
    exact TypeTable.declares_of_leadsBack hop op.opcode?_words rfl hback

end

namespace Edit

variable {s : Session} {m : Outline} {k : TypeKey} {b : Id}

/-- An operation that is appended with an id that was handed out for it. -/
theorem newId_bind_yields {sec : Section} {op : Id → Operation} {e : Id → Edit Id}
    (hs : s.breach = none) (hid : ∀ i, (op i).resultId? = some i)
    (he : ∀ i b, (e i).Yields (s.raised b) fun j t =>
      (op i).resultId? = some j ∧ (s.raised b).Grows sec (op i) t ∧ ∃ m', t.Sound m') :
    (newId >>= e).Yields s fun i t => s.GrowsFresh sec op i t := by
  refine (newId_yields hs).bind ?_
  rintro i _ ⟨hi, b, hb, rfl⟩
  refine (he i b).mono ?_
  rintro j t ⟨hj, hgrows, ht⟩
  obtain rfl := Option.some.inj ((hid i).symm.trans hj)
  exact ⟨hi, ⟨b, hb, hgrows⟩, ht⟩

/-- If all is there, a type is declared with the next id. -/
theorem declareNew_answers (h : s.Sound m) (hs : s.Editable) (hk : s.getType? k = none)
    (hc : s.lacks? k = none) (hb : s.fresh.succ? = some b) (hshort : k.wordCount ≤ maxWords)
    (hback : ∀ d ∈ k.component?, s.index.types.LeadsBack d) :
    (declareNew k).Answers s fun i t => i = s.fresh ∧
      ∃ op, s.index.types.declaration k i = .ok op ∧ (s.raised b).Grows .types op t ∧
        t.getType? k = some i ∧ t.typeKey? i = some k ∧ ∃ m', t.Sound m' := by
  obtain ⟨op, hop, hrun⟩ := declareNew_run hs hc
  obtain ⟨_, _, hnew, rfl, rfl⟩ := newId_answers hs.1 hb
  have hhome : op.mayStandIn .types := by
    rw [Operation.mayStandIn, (TypeTable.declaration_head hop).1, k.home?_opcode]
    rfl
  have hflawless : op.flawless := by
    refine Operation.flawless_iff.mpr ⟨?_, fun j hj => ?_⟩
    · rwa [TypeTable.wordCount_declaration hop]
    · rw [TypeTable.resultId?_declaration hop] at hj
      rw [← Option.some.inj hj, hb]
      exact Option.some_ne_none b
  obtain ⟨_, t, happend, hgrows, -, hsound⟩ :=
    append_flawless (h.raised b) (s := s.raised b) hs hhome hflawless
  have htypes : t.index.types = s.index.types.insert k s.fresh := hgrows.types_declared hop hback
  have hget : t.getType? k = some s.fresh := by
    rw [getType?, htypes, TypeTable.get?_insert hk, if_pos rfl]
  have hkey : t.typeKey? s.fresh = some k := by
    rw [typeKey?, htypes, TypeTable.keyOf?_insert hk, if_pos rfl]
  refine ⟨s.fresh, t, ?_, rfl, op, hop, hgrows, hget, hkey, hsound⟩
  rw [hrun, declareAs, run_bind, hnew]
  simp only [TypeTable.setResultId_declaration hop]
  rw [run_bind, happend]
  simp only [run_get_bind]
  rw [if_neg (not_not.mpr hget)]
  rfl

end Edit

namespace Reached

variable {s : Session} {k : TypeKey} {op : Operation}

/-- The ids in the declaration of a type are all defined, if nothing is lacking. -/
theorem idWords_defined (h : Reached IdsDistinct s) (hc : s.lacks? k = none)
    (hop : s.index.types.declaration k s.fresh = .ok op) {w : Word} (hw : w ∈ op.idWords) :
    ∃ c : Id, c.value = w ∧ (c = s.fresh ∨ c ∈ s.liveIds) := by
  obtain ⟨hrefs, -⟩ := Edit.lacks?_eq_none s.fresh hc
  obtain ⟨c, hcw, hfresh | hmem | ⟨d, -, hd⟩⟩ := TypeTable.mem_idWords_declaration hop hw
  · exact ⟨c, hcw, .inl hfresh⟩
  · have hlocated : s.locate? c ≠ none := by simpa using List.find?_eq_none.mp hrefs c hmem
    obtain ⟨p, hp⟩ := Option.ne_none_iff_exists'.mp hlocated
    obtain ⟨i, hi, -, hid⟩ := h.reachable.reflects.exists_of_definition c p hp
    exact ⟨c, hcw, .inr (mem_definedIds hi hid)⟩
  · obtain ⟨i, hi, hid, -⟩ := h.keyed.declared c d ((h.keyed.linked c d).mpr hd)
    exact ⟨c, hcw, .inr (mem_definedIds hi hid)⟩

/-- A type that is not found is declared if its constituents are there, the bound is not the last
word, and one instruction can hold its declaration. Then its id is the old bound, one instruction
comes to the end of the types, all of whose ids are defined, and key and id lead to each other. -/
theorem absent_type_declared (h : Reached IdsDistinct s) (hs : s.Editable)
    (hk : s.getType? k = none) :
    match s.lacks? k with
    | some c => s.perform (.declareType k) =
        (.error (.refused (.missingDependency k c)), s.breached (.missingDependency k c))
    | none =>
      if s.bound = 0xFFFFFFFF then s.perform (.declareType k) =
        (.error (.refused .idsExhausted), s.breached .idsExhausted)
      else if Edit.maxWords < k.wordCount then ∃ b, s.fresh.succ? = some b ∧
        s.perform (.declareType k) = (.error (.refused (.operationTooLong k.wordCount)),
          (s.raised b).breached (.operationTooLong k.wordCount))
      else ∃ (op : Operation) (t : Session), s.perform (.declareType k) = (.ok (.id s.fresh), t) ∧
        t.contents = s.contents.append .types [op.words] ∧
        (∀ w ∈ op.idWords, ∃ c ∈ t.liveIds, c.value = w) ∧
        t.getType? k = some s.fresh ∧ t.typeKey? s.fresh = some k := by
  obtain ⟨m, hm⟩ := h.sound
  have hrun {r : Except Failure Id} {t : Session} (hrun : (Edit.declareNew k).run s = (r, t)) :
      s.perform (.declareType k) = (r.map .id, t) :=
    Edit.run_map ((Edit.declareType_run_new hk).trans hrun) Answer.id
  cases hc : s.lacks? k with
  | some c => exact hrun (Edit.declareNew_lacking hs hc)
  | none =>
    dsimp only
    split
    · rename_i hlast
      exact hrun (Edit.declareNew_exhausted hs hc (Id.succ?_eq_none.mpr hlast))
    rename_i hnot
    obtain ⟨b, hb⟩ := Option.ne_none_iff_exists'.mp (mt Id.succ?_eq_none.mp hnot)
    split
    · rename_i hlong
      exact ⟨b, hb, hrun (Edit.declareNew_long hs hc hb hlong)⟩
    · rename_i hshort
      obtain ⟨_, t, hanswer, rfl, op, hop, hgrows, hget, hkey, m', hm'⟩ :=
        Edit.declareNew_answers hm hs hk hc hb (Nat.not_lt.mp hshort)
          fun d _ => h.keyed.linked.leadsBack d
      have hraised : (s.raised b).contents = s.contents :=
        (hm.raised b).shows.contents_eq.trans hm.shows.contents_eq.symm
      have hlive : (s.raised b).liveIds = s.liveIds := by
        rw [(hm.raised b).shows.liveIds_eq hs.2, hm.shows.liveIds_eq hs.2, hraised]
      refine ⟨op, t, hrun hanswer, hraised ▸ hgrows.contents, fun w hw => ?_, hget, hkey⟩
      obtain ⟨c, hcw, hdefined⟩ := h.idWords_defined hc hop hw
      refine ⟨c, (hgrows.mem_liveIds (hm.raised b).shows hm'.shows hs.2).mpr ?_, hcw⟩
      rcases hdefined with rfl | hdefined
      · exact .inr (TypeTable.resultId?_declaration hop)
      · exact .inl (hlive.symm ▸ hdefined)

/-- A session with a float, and a function type that takes one and an id that is not defined. -/
def floatDeclared : Session :=
  (Session.create .never ⟨1, 3⟩ 0).performAll [.declareType (.scalar (.float 32))]

def undefinedArgument : TypeKey := .function .one [.one, floatDeclared.fresh]

/-- A vector of a float is declared, and a function type is refused for its second argument. -/
theorem absent_type_declared_vector :
    Reached IdsDistinct floatDeclared ∧ floatDeclared.Editable ∧
    (∃ t, floatDeclared.perform (.declareType (.vector ⟨.float 32, 4⟩)) =
      (.ok (.id floatDeclared.fresh), t) ∧
      t.typeKey? floatDeclared.fresh = some (.vector ⟨.float 32, 4⟩)) ∧
    (let lacking := EditError.missingDependency undefinedArgument (.id floatDeclared.fresh)
    floatDeclared.perform (.declareType undefinedArgument) =
      (.error (.refused lacking), floatDeclared.breached lacking)) := by
  have h : Reached IdsDistinct floatDeclared :=
    Reached.performAll (.create _ _ _ (by decide)) (by decide +kernel)
  have hs : floatDeclared.Editable := ⟨by decide +kernel, by decide +kernel⟩
  have hvector : floatDeclared.lacks? (.vector ⟨.float 32, 4⟩) = none := by decide +kernel
  have hfunction : floatDeclared.lacks? undefinedArgument = some (.id floatDeclared.fresh) := by
    decide +kernel
  have hdeclared := absent_type_declared h hs (k := .vector ⟨.float 32, 4⟩) (by decide +kernel)
  have hrefused := absent_type_declared h hs (k := undefinedArgument) (by decide +kernel)
  rw [hvector] at hdeclared
  rw [hfunction] at hrefused
  dsimp only at hdeclared
  rw [if_neg (by decide +kernel), if_neg (by decide +kernel)] at hdeclared
  obtain ⟨-, t, hperform, -, -, -, hkey⟩ := hdeclared
  exact ⟨h, hs, ⟨t, hperform, hkey⟩, hrefused⟩

end Reached

end SpirvModule
