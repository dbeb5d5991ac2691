import SpirvModule.Proofs.Allocation

/-!
# Appending in either order

An operation that is appended to a section moves those of later sections along, and leaves those of
earlier ones where they are. Two operations for different sections do not see each other: whichever
comes first, each ends up at the end of its section, and everything else where both have moved it.
So both orders lead to the same session, even if the sections are empty and stop at the same offset,
and no question can tell the orders apart. Only ids that both define would, as the last definition
counts.

* `Command.appended?`: the operation that an adder appends, and the section.
* `Session.Grows`: what an operation that is appended does to a session.

Results:
* `perform_grows`: an adder that is answered appends its operation and does nothing else.
* `Index.definitions_admitted_comm`: places of ids when two operations come.
* `Reached.ext`: what tells sessions apart that runs lead to.
* `Reached.appends_commute`: both orders lead to the same session.
-/
namespace SpirvModule

open Session

/-- The section that an adder of one operation appends to, and the operation. -/
def Command.appended? : Command → Option (Section × Operation)
  | addType op | addConstant op | addVariable op => some (.types, op)
  | addDecoration op => some (.annotations, op)
  | addExecutionMode op => some (.executionModes, op)
  | addCapability c => some (.capabilities, .capability c)
  | addExtension name => some (.extensions, .extension name)
  | setName i text => some (.debugNames, .name i text)
  | setMemberName i member text => some (.debugNames, .memberName i member text)
  | addFunction [op] => some (.functions, op)
  | _ => none

/-! ## The bound -/

theorem Id.max_right_comm (a b c : Id) : max (max a b) c = max (max a c) b := by
  refine Id.ext_value (UInt32.toNat_inj.mp ?_)
  simp only [Id.toNat_max]
  omega

/-- Operations raise the bound to the same in either order. -/
theorem Operation.freshAfter_comm (a b : Operation) (fresh : Id) :
    b.freshAfter (a.freshAfter fresh) = a.freshAfter (b.freshAfter fresh) := by
  unfold freshAfter
  cases a.resultId?.bind Id.succ? with
  | none => rfl
  | some i =>
    cases b.resultId?.bind Id.succ? with
    | none => rfl
    | some j => exact Id.max_right_comm fresh i j

/-! ## The index -/

namespace Index

variable {x y : Index} {policy : StructPolicy} {p q : Nat} {op a b : Operation}

/-- The index after `op` was put in at `p`. -/
def admitted (policy : StructPolicy) (p : Nat) (op : Operation) (x : Index) : Index :=
  (x.relocate p 0 op.wordCount).register policy (.ofChunk p op.words)

/-- Where nothing gives way nothing is lost. -/
theorem moved?_zero (p added : Nat) :
    Ledger.moved? p 0 added = fun o => some (if o < p then o else o + added) := by
  funext o
  simp only [Ledger.moved?, Nat.add_zero, Nat.sub_zero]
  split <;> rfl

/-- What stands from `p` on moves along, and the id that comes is the last one defined. -/
theorem definitions_admitted (id : Id) :
    (x.admitted policy p op).definitions[id]? =
      if op.resultId? = some id then some p
      else x.definitions[id]?.map fun o => if o < p then o else o + op.wordCount := by
  have hrest : (x.relocate p 0 op.wordCount).definitions[id]? =
      x.definitions[id]?.map fun o => if o < p then o else o + op.wordCount := by
    rw [definitions_relocate, moved?_zero, Option.map_eq_bind]
    rfl
  rw [admitted, register_definitions, resultId?_words]
  cases op.resultId? with
  | none => simpa using hrest
  | some i =>
    simp only [Std.ExtTreeMap.getElem?_insert, Std.compare_eq_iff_eq, Option.some.injEq, hrest]
    rfl

/-- Of two operations the one in front moves the other along, whichever comes first. -/
theorem definitions_admitted_comm (hpq : p ≤ q)
    (hids : ∀ i, a.resultId? = some i → b.resultId? ≠ some i) :
    ((x.admitted policy p a).admitted policy (q + a.wordCount) b).definitions =
      ((x.admitted policy q b).admitted policy p a).definitions := by
  have hpos : 0 < a.wordCount := Nat.succ_pos _
  refine Std.ExtTreeMap.ext_getElem? fun {id} => ?_
  simp only [definitions_admitted]
  by_cases ha : a.resultId? = some id
  · have hb : b.resultId? ≠ some id := hids id ha
    have hlt : p < q + a.wordCount := by omega
    simp only [ha, hb, if_true, if_false, Option.map_some, hlt]
  · by_cases hb : b.resultId? = some id
    · have hle : ¬ q < p := by omega
      simp only [ha, hb, if_true, if_false, Option.map_some, hle]
    · -- an older place is in front of both, between them or behind both
      simp only [ha, hb, if_false, Option.map_map]
      congr 1
      funext o
      simp only [Function.comp_apply]
      repeat' split
      all_goals omega

/-- Types do not depend on places. -/
theorem types_admitted_congr (h : y.types = x.types) (p q : Nat) :
    (y.admitted policy q op).types = (x.admitted policy p op).types := by
  have hof (t : TypeTable) : Contribution.of t (.ofChunk q op.words) =
      Contribution.of t (.ofChunk p op.words) := rfl
  have hx : (x.relocate p 0 op.wordCount).types = x.types := rfl
  have hy : (y.relocate q 0 op.wordCount).types = x.types := h
  rw [admitted, admitted, register_types, register_types, hx, hy, hof]

/-- Other operations than those that declare types leave the types alone. -/
theorem types_admitted_of_opcode (h : op.opcode ∉ .opTypeStruct :: TypeKey.opcodes) :
    (x.admitted policy p op).types = x.types := by
  have hop : (Instruction.ofChunk p op.words).opcode? = some op.opcode := op.opcode?_words
  have hrelocated : (x.relocate p 0 op.wordCount).types = x.types := rfl
  rw [admitted, register_types, hrelocated]
  cases (Instruction.ofChunk p op.words).role with
  | fact f _ h => rw [h]
  | struct id members _ hstruct _ =>
    rw [hop, Option.some.injEq] at hstruct
    exact absurd (by simp [hstruct]) h
  | anonymous _ h => rw [h]
  | decoded id _ hof =>
    rw [hof]
    cases hk : x.types.decode (.ofChunk p op.words) with
    | none => rfl
    | some k =>
      have hopcode := (TypeTable.declares_of_decode hk).opcode
      rw [hop, Option.some.injEq] at hopcode
      exact absurd (List.mem_cons_of_mem _ (hopcode ▸ k.opcode_mem)) h

/-- They are at home in the section of types. -/
theorem types_admitted_of_home {sec : Section} (hh : op.opcode.home?.all (· = sec))
    (hsec : sec ≠ .types) : (x.admitted policy p op).types = x.types := by
  have hall : ∀ o ∈ Opcode.opTypeStruct :: TypeKey.opcodes, o.home? = some .types := by
    decide +kernel
  exact types_admitted_of_opcode fun hmem => Opcode.home?_ne hh hsec (hall _ hmem)

end Index

/-! ## Contents -/

namespace Contents

variable (m : Contents) {a b : Section}

theorem append_comm (h : a ≠ b) (x y : List (List Word)) :
    (m.append a x).append b y = (m.append b y).append a x := by
  simp only [append, Function.update_of_ne h, Function.update_of_ne (Ne.symm h)]
  exact Function.update_comm h ..

theorem stop_append (sec u : Section) (c : List Word) :
    (m.append sec [c]).stop u = m.stop u + if sec.index ≤ u.index then c.length else 0 := by
  have h := m.stop_update sec (m sec ++ [c]) u
  simp only [List.flatten_append, List.flatten_singleton, List.length_append] at h
  rw [append]
  split at h <;> rename_i hle <;> simp only [hle, if_true, if_false] at h ⊢ <;> omega

theorem stop_le_stop (h : a ∈ b.before) : m.stop a ≤ m.stop b :=
  Nat.le_trans (m.stop_le_start h) (m.start_le_stop b)

end Contents

/-- Of two sections one is before the other. -/
theorem Section.mem_before_or {a b : Section} (h : a ≠ b) : a ∈ b.before ∨ b ∈ a.before := by
  revert h
  cases a <;> cases b <;> decide

theorem Section.index_lt_of_mem {a b : Section} (h : a ∈ b.before) : a.index < b.index := by
  revert h
  cases a <;> cases b <;> decide

/-! ## Operations that are appended -/

/-- A session without its words, its bound, its layout and its index. -/
def Session.frame (s : Session) : Session :=
  { s with words := [], fresh := .one, layout := .empty 0, index := .empty }

/-- Whether a session can be edited is not about its module. -/
theorem Session.Editable.of_frame {s t : Session} (hs : s.Editable) (h : t.frame = s.frame) :
    t.Editable :=
  ⟨(congrArg (·.breach) h).trans hs.1, (congrArg (·.bracket) h).trans hs.2⟩

/-- What becomes of a session when `op` is appended to section `sec`, and nothing else happens. -/
structure Session.Grows (s : Session) (sec : Section) (op : Operation) (t : Session) : Prop where
  home : op.opcode.home?.all (· = sec)
  contents : t.contents = s.contents.append sec [op.words]
  fresh : t.fresh = op.freshAfter s.fresh
  index : t.index = s.index.admitted s.policy (s.sectionStop sec) op
  frame : t.frame = s.frame

namespace Edit

variable {β : Type} {s t : Session} {m : Outline} {sec : Section} {op : Operation}
  {Q : β → Session → Prop}

theorem Raised.frame (h : Raised s t) : t.frame = s.frame := by
  rcases h with rfl | ⟨i, b, -, -, rfl⟩ <;> rfl

theorem Raised.policy (h : Raised s t) : t.policy = s.policy := congrArg (·.policy) h.frame

theorem append_yields (h : s.Sound m) (hh : op.opcode.home?.all (· = sec)) :
    (append sec op).Yields s fun a t =>
      a = op.resultId? ∧ s.Grows sec op t ∧ ∃ m', t.Sound m' := by
  refine ((append_settles h.shows sec op).mono ?_).yields
  rintro _ _ ⟨hs, hl, u, hu, -, hfresh, rfl, rfl⟩
  have hm := splits_sectionStop h.shows sec
  have hf := fits_singleton (fits_words hh hl)
  have hsound := (hu.sound h).inserted (hu.editable hs) hm hf
  refine ⟨rfl, ⟨hh, ?_, hfresh, ?_, hu.frame⟩, _, hsound⟩
  · rw [hsound.shows.contents_eq, h.shows.contents_eq, hm.exchange_contents, List.append_nil]
    rfl
  · rw [← hu.index, ← hu.policy]
    show ((u.index.relocate _ (0 - op.wordCount) op.wordCount).register _ _) = _
    rw [Nat.zero_min, Nat.zero_sub, Nat.add_zero]
    rfl

theorem append_done_yields (h : s.Sound m) (hh : op.opcode.home?.all (· = sec)) :
    (append sec op >>= fun _ => pure ()).Yields s fun _ t =>
      s.Grows sec op t ∧ ∃ m', t.Sound m' :=
  (append_yields h hh).bind fun _ _ ht => yields_pure ht.2

theorem appendDefining_yields (h : s.Sound m) (hh : op.opcode.home?.all (· = sec)) :
    (appendDefining sec op).Yields s fun i t =>
      op.resultId? = some i ∧ s.Grows sec op t ∧ ∃ m', t.Sound m' := by
  refine (append_yields h hh).bind fun a t ⟨ha, ht⟩ => ?_
  cases a with
  | some i => exact yields_pure ⟨ha.symm, ht⟩
  | none => exact (settles_violate _).yields

/-- What is checked first changes nothing. -/
theorem checkSection_yields {f : Unit → Edit β}
    (hf : op.opcode.home?.all (· = sec) → (f ()).Yields s Q) :
    (checkSection op sec >>= f).Yields s Q :=
  (checkSection_settles op sec).yields.bind fun _ _ ⟨ht, hh⟩ => ht ▸ hf hh

end Edit

open Edit in
/-- An adder of one operation that a sound session answers appends it, and does nothing else. -/
theorem perform_grows {s : Session} {m : Outline} (h : s.Sound m) {c : Command} {sec : Section}
    {op : Operation} (hc : c.appended? = some (sec, op)) (ha : c.Answered s) :
    s.Grows sec op (s.perform c).2 := by
  obtain ⟨a, ha⟩ := ha
  have of_yields {α : Type} {e : Edit α} {g : α → Answer}
      (he : e.Yields s fun _ t => s.Grows sec op t ∧ ∃ m', t.Sound m')
      (heq : c.edit = e >>= fun a => pure (g a)) : s.Grows sec op (s.perform c).2 := by
    have hall : c.edit.Yields s fun _ t => s.Grows sec op t := by
      rw [heq]
      exact he.bind fun _ _ ht => yields_pure ht.1
    exact hall a _ (Prod.ext ha rfl)
  have defining (hh : op.opcode.home?.all (· = sec)) :
      (appendDefining sec op).Yields s fun _ t => s.Grows sec op t ∧ ∃ m', t.Sound m' :=
    (appendDefining_yields h hh).mono fun _ _ ht => ht.2
  cases c with
  | addType op' | addConstant op' =>
    cases hc
    exact of_yields (checkSection_yields defining) rfl
  | addVariable op' =>
    cases hc
    refine of_yields (e := addVariable op) ?_ rfl
    unfold addVariable
    split
    · exact (settles_violate _).yields
    · rename_i hop
      refine defining ?_
      rw [not_not.mp hop]
      decide +kernel
  | addDecoration op' | addExecutionMode op' =>
    cases hc
    exact of_yields (checkSection_yields fun hh => append_done_yields h hh) rfl
  | addCapability _ | addExtension _ | setName _ _ | setMemberName _ _ _ =>
    cases hc
    exact of_yields (append_done_yields h (home_of_mem (by simp [Operation.capability,
      Operation.extension, Operation.name, Operation.memberName, Section.residents]))) rfl
  | addFunction ops =>
    rcases ops with _ | ⟨op', _ | ⟨_, _⟩⟩
    · cases hc
    · cases hc
      refine of_yields (e := addFunction [op]) ?_ rfl
      refine (checkSections_settles [op] .functions).yields.bind fun _ u hu => ?_
      obtain ⟨rfl, hh⟩ := hu
      exact Yields.bind (f := fun _ => pure ()) (append_done_yields h (hh op (by simp)))
        fun _ _ ht => yields_pure ht
    · cases hc
  | _ => cases hc

/-! ## Two operations -/

namespace Session

variable {s t u t₁ u₁ : Session} {m m' : Outline} {a b sec : Section} {x y op : Operation}

theorem Shows.sectionStop_contents (h : s.Shows m) (sec : Section) :
    s.sectionStop sec = s.contents.stop sec := by rw [h.sectionStop_eq, h.contents_eq]

/-- Sections from the one on that an operation is appended to stop later by its length. -/
theorem Grows.sectionStop (hst : s.Grows sec op t) (h : s.Shows m) (ht : t.Shows m')
    (u : Section) : t.sectionStop u =
      s.sectionStop u + if sec.index ≤ u.index then op.wordCount else 0 := by
  rw [ht.sectionStop_contents, h.sectionStop_contents, hst.contents, Contents.stop_append]
  rfl

/-- The last chunk of a section is its last instruction. -/
theorem Shows.getLast?_instructions (h : s.Shows m) {cs : List (List Word)} {d : List Word}
    (hd : s.contents sec = cs ++ [d]) : (s.instructions sec).getLast? =
      some (.ofChunk (s.contents.start sec + cs.flatten.length) d) := by
  rw [h.contents_eq] at hd
  rw [h.instructions_eq, hd, place_append, place_cons, place_nil, List.getLast?_concat,
    h.contents_eq]

/-- What is appended is the last instruction of its section. -/
theorem Grows.getLast?_instructions (hst : s.Grows sec op t) (h : s.Shows m) (ht : t.Shows m') :
    (t.instructions sec).getLast? = some (.ofChunk (s.sectionStop sec) op.words) := by
  have hcontents : t.contents sec = s.contents sec ++ [op.words] := by
    rw [hst.contents, Contents.append, Function.update_self]
  have hstart : t.contents.start sec = s.contents.start sec := by
    rw [hst.contents, Contents.start, Contents.append, Contents.front_update, Contents.start]
  rw [ht.getLast?_instructions hcontents, hstart, h.sectionStop_contents, Contents.stop]

/-- There the id that it defines is located. -/
theorem Grows.locate?_eq (hst : s.Grows sec op t) {i : Id} (hid : op.resultId? = some i) :
    t.locate? i = some (s.sectionStop sec) := by
  rw [locate?, Index.definition?, hst.index, Index.definitions_admitted, if_pos hid]

/-- It is live, as it does not come in a bracket. -/
theorem Grows.mem_live (hst : s.Grows sec op t) (h : s.Shows m) (ht : t.Shows m')
    (hb : s.bracket = none) : .ofChunk (s.sectionStop sec) op.words ∈ t.live := by
  have hb' : t.bracket = none := (congrArg (·.bracket) hst.frame).trans hb
  rw [live_of_none hb']
  exact List.mem_flatMap.mpr ⟨sec, sec.mem_all,
    List.mem_of_getLast? (hst.getLast?_instructions h ht)⟩

/-- An operation that defines the id that was handed out last leaves the bound as it was. -/
theorem Grows.fresh_of_newId {b : Id} (hst : (s.raised b).Grows sec op t)
    (hb : s.fresh.succ? = some b) (hid : op.resultId? = some s.fresh) : t.fresh = b := by
  have hfresh : t.fresh = max (max s.fresh b) b := by
    rw [hst.fresh, Operation.freshAfter, hid, Option.bind_some, hb]
    rfl
  rw [hfresh, Id.max_succ_eq hb (Id.lt_max_succ hb _), Id.max_succ hb]

theorem Grows.policy (hst : s.Grows sec op t) : t.policy = s.policy := congrArg (·.policy) hst.frame

theorem Grows.types_of_ne (hst : s.Grows sec op t) (hsec : sec ≠ .types) :
    t.index.types = s.index.types := by
  rw [hst.index, Index.types_admitted_of_home hst.home hsec]

/-- Only one of two sections has types, so the other operation does not matter to them. -/
theorem Grows.types_comm (hab : a ≠ b) (h₁ : s.Grows a x t₁) (h₂ : t₁.Grows b y t)
    (h₃ : s.Grows b y u₁) (h₄ : u₁.Grows a x u) : t.index.types = u.index.types := by
  by_cases ha : a = .types
  · have hb : b ≠ .types := fun hb => hab (ha.trans hb.symm)
    rw [h₂.types_of_ne hb, h₁.index, h₄.index, h₃.policy]
    exact Index.types_admitted_congr (h₃.types_of_ne hb).symm ..
  · rw [h₄.types_of_ne ha, h₂.index, h₃.index, h₁.policy]
    exact Index.types_admitted_congr (h₁.types_of_ne ha) ..

/-- Places of ids when two operations come in either order, one to an earlier section. -/
theorem Grows.definitions_comm (hab : a ∈ b.before)
    (hids : ∀ i, x.resultId? = some i → y.resultId? ≠ some i) (hs : s.Shows m)
    (ht : ∃ m', t₁.Shows m') (hu : ∃ m', u₁.Shows m') (h₁ : s.Grows a x t₁) (h₂ : t₁.Grows b y t)
    (h₃ : s.Grows b y u₁) (h₄ : u₁.Grows a x u) : t.index.definitions = u.index.definitions := by
  obtain ⟨_, ht⟩ := ht
  obtain ⟨_, hu⟩ := hu
  have hlt := Section.index_lt_of_mem hab
  have hb : t₁.sectionStop b = s.sectionStop b + x.wordCount := by
    rw [h₁.sectionStop hs ht, if_pos (Fin.le_of_lt hlt)]
  have ha : u₁.sectionStop a = s.sectionStop a := by
    rw [h₃.sectionStop hs hu, if_neg (Fin.not_le.mpr hlt), Nat.add_zero]
  have hle : s.sectionStop a ≤ s.sectionStop b := by
    rw [hs.sectionStop_eq, hs.sectionStop_eq]
    exact m.contents.stop_le_stop hab
  rw [h₂.index, h₁.index, h₄.index, h₃.index, h₁.policy, h₃.policy, hb, ha]
  exact Index.definitions_admitted_comm hle hids

end Session

/-! ## Sessions that runs lead to -/

theorem Outline.ext_contents {m m' : Outline} (h : m.contents = m'.contents) : m = m' := by
  obtain ⟨c, hc⟩ := m
  obtain ⟨c', hc'⟩ := m'
  obtain rfl : c = c' := h
  rfl

/-- The frame and what is not in it make a session. -/
theorem Session.ext_frame {s t : Session} (hframe : t.frame = s.frame) (hwords : t.words = s.words)
    (hfresh : t.fresh = s.fresh) (hlayout : t.layout = s.layout) (hindex : t.index = s.index) :
    t = s := by
  cases s
  cases t
  simp only [Session.frame, Session.mk.injEq] at *
  simp only [hframe, hwords, hfresh, hlayout, hindex, and_self]

namespace Reached

variable {s t : Session}

/-- Sessions that runs lead to are the same if header, lists of instructions and bound are, and ids
and types are entered alike. Whatever else their indices know is told by the instructions. -/
theorem ext (hs : Reachable s) (ht : Reachable t) (hframe : t.frame = s.frame)
    (hcontents : t.contents = s.contents) (hfresh : t.fresh = s.fresh)
    (hheader : ∀ k < headerWords, k ≠ boundWord → t.words[k]? = s.words[k]?)
    (hdefinitions : t.index.definitions = s.index.definitions)
    (htypes : t.index.types = s.index.types) : t = s := by
  obtain ⟨m, hm⟩ := hs.sound
  obtain ⟨m', hm'⟩ := ht.sound
  obtain rfl : m' = m := Outline.ext_contents (by
    rw [← hm.shows.contents_eq, ← hm'.shows.contents_eq, hcontents])
  have hwords : t.words = s.words := by
    rw [hm.shows.words_eq, hm'.shows.words_eq]
    congr 1
    refine List.ext_getElem? fun k => ?_
    rw [Session.header, Session.header, List.getElem?_take, List.getElem?_take]
    split
    · rename_i hk
      by_cases hb : k = boundWord
      · rw [hb, ht.boundWord_eq, hs.boundWord_eq, bound, bound, hfresh]
      · exact hheader k hk hb
    · rfl
  have hlayout : t.layout = s.layout :=
    Layout.ext_bounds (fun sec => by rw [hm'.shows.starts, hm.shows.starts])
      fun sec => by rw [hm'.shows.stops, hm.shows.stops]
  have hindex : t.index = s.index := by
    have hlive : t.live = s.live := hm.live_congr hm' (congrArg (·.bracket) hframe)
    have hledger : t.index.ledger = s.index.ledger :=
      (hlive ▸ ht.reflects).ledger_eq hs.reflects
    exact Index.ext hdefinitions hledger htypes
  exact ext_frame hframe hwords hfresh hlayout hindex

/-- Two operations that are appended to different sections, and that do not define the same id, may
be appended in either order: words, bound, layout and index are the same afterwards, and so is every
answer. -/
theorem appends_commute (hs : Reachable s) {c d : Command} {a b : Section} {x y : Operation}
    (hc : c.appended? = some (a, x)) (hd : d.appended? = some (b, y)) (hab : a ≠ b)
    (hids : ∀ i, x.resultId? = some i → y.resultId? ≠ some i)
    (hcd : s.Follows (fun s c => c.Answered s) [c, d])
    (hdc : s.Follows (fun s c => c.Answered s) [d, c]) :
    s.performAll [c, d] = s.performAll [d, c] := by
  obtain ⟨hpc, hac, hpd', had', -⟩ := hcd
  obtain ⟨hpd, had, hpc', hac', -⟩ := hdc
  have hs₁ : Reachable (s.perform c).2 := hs.perform c hpc trivial
  have hs₂ : Reachable (s.perform d).2 := hs.perform d hpd trivial
  obtain ⟨m, hm⟩ := hs.sound
  obtain ⟨m₁, hm₁⟩ := hs₁.sound
  obtain ⟨m₂, hm₂⟩ := hs₂.sound
  have h₁ := perform_grows hm hc hac
  have h₂ := perform_grows hm₁ hd had'
  have h₃ := perform_grows hm hd had
  have h₄ := perform_grows hm₂ hc hac'
  show ((s.perform c).2.perform d).2 = ((s.perform d).2.perform c).2
  refine ext (hs₂.perform c hpc' trivial) (hs₁.perform d hpd' trivial) ?_ ?_ ?_ ?_ ?_ ?_
  · rw [h₂.frame, h₁.frame, h₄.frame, h₃.frame]
  · rw [h₂.contents, h₁.contents, h₄.contents, h₃.contents, Contents.append_comm _ hab]
  · rw [h₂.fresh, h₁.fresh, h₄.fresh, h₃.fresh, Operation.freshAfter_comm]
  · intro k hk hb
    have hcd := (perform_leads hm hpc).1.trans (perform_leads hm₁ hpd').1
    have hdc := (perform_leads hm hpd).1.trans (perform_leads hm₂ hpc').1
    exact (hm.header_moves hcd hk hb).trans (hm.header_moves hdc hk hb).symm
  · rcases Section.mem_before_or hab with hlt | hlt
    · exact Grows.definitions_comm hlt hids hm.shows ⟨_, hm₁.shows⟩ ⟨_, hm₂.shows⟩ h₁ h₂ h₃ h₄
    · have hids' (i : Id) (hy : y.resultId? = some i) : x.resultId? ≠ some i :=
        fun hx => hids i hx hy
      exact (Grows.definitions_comm hlt hids' hm.shows ⟨_, hm₂.shows⟩ ⟨_, hm₁.shows⟩
        h₃ h₄ h₁ h₂).symm
  · exact Grows.types_comm hab h₁ h₂ h₃ h₄

/-- A type and its name are added to a module whose sections are all empty. -/
theorem appends_commute_namedType :
    (Session.create .never ⟨1, 3⟩ 0).performAll
        [.addType ⟨.opTypeBool, [4]⟩, .setName ⟨4, by decide⟩ "flag"] =
      (Session.create .never ⟨1, 3⟩ 0).performAll
        [.setName ⟨4, by decide⟩ "flag", .addType ⟨.opTypeBool, [4]⟩] ∧
    ((Session.create .never ⟨1, 3⟩ 0).performAll
      [.setName ⟨4, by decide⟩ "flag", .addType ⟨.opTypeBool, [4]⟩]).locate? ⟨4, by decide⟩ =
        some 9 := by
  refine ⟨appends_commute (.create _ _ _ trivial) rfl rfl nofun ?_ ?_ ?_, ?_⟩
  · have hnone : (Operation.name ⟨4, by decide⟩ "flag").resultId? = none := by decide +kernel
    intro i _ hi
    cases hnone.symm.trans hi
  · decide +kernel
  · decide +kernel
  · decide +kernel

end Reached

end SpirvModule
