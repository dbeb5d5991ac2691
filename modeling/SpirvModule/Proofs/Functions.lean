import Mathlib.Data.List.TakeWhile
import SpirvModule.Proofs.Commuting

/-!
# Functions

All operations of a function are checked for their section before the first is appended. That an
operation is too long, or that no bound is above the id it defines, turns out only when it is
appended itself, and by then those in front of it are part of the module. So a function is added
as a whole or not at all exactly if one of its operations is at home elsewhere, or the first one
cannot be appended, or all of them can.

* `Operation.flaw?`: why an operation cannot be appended, whatever the session.
* `Session.GrowsBy`: what operations do that are appended one after the other.
* `Session.AddsWhole`: that a function is added as a whole or changes nothing.

Results:
* `append_flawed`, `append_flawless`: an operation is appended if it has no flaw.
* `appendEach_run`: operations are appended up to the first that has one.
* `Reached.function_added_up_to_flaw`: what becomes of a function.
-/
namespace SpirvModule

open Session

/-! ## Flaws -/

namespace Operation

/-- Whether an operation may stand in a section. -/
def mayStandIn (sec : Section) (op : Operation) : Bool := op.opcode.home?.all (· = sec)

/-- Why an operation cannot be appended to any module: it is too long for an instruction, or it
defines the last id there is. -/
def flaw? (op : Operation) : Option EditError :=
  if Edit.maxWords < op.wordCount then some (.operationTooLong op.wordCount)
  else if op.resultId?.any (·.value = 0xFFFFFFFF) then some .idsExhausted
  else none

/-- Whether nothing is wrong with an operation but perhaps its section. -/
def flawless (op : Operation) : Bool := op.flaw?.isNone

variable {op : Operation}

theorem flawless_iff : op.flawless ↔
    op.wordCount ≤ Edit.maxWords ∧ ∀ i, op.resultId? = some i → i.succ? ≠ none := by
  have hlast (i : Id) : i.succ? ≠ none ↔ i.value ≠ 0xFFFFFFFF := Id.succ?_eq_none.not
  unfold flawless flaw?
  split
  · rename_i hlong
    exact iff_of_false nofun fun h => absurd h.1 (Nat.not_le.mpr hlong)
  · rename_i hshort
    simp only [Nat.le_of_not_lt hshort, true_and, hlast]
    cases op.resultId? with
    | none => simp
    | some i => by_cases hi : i.value = 0xFFFFFFFF <;> simp [hi]

end Operation

/-! ## Operations one after the other -/

theorem Contents.append_nil (c : Contents) (sec : Section) : c.append sec [] = c := by
  rw [append, List.append_nil, Function.update_eq_self]

theorem Contents.append_append (c : Contents) (sec : Section) (xs ys : List (List Word)) :
    (c.append sec xs).append sec ys = c.append sec (xs ++ ys) := by
  simp only [append, Function.update_self, Function.update_idem, List.append_assoc]

/-- What becomes of a session when some operations are appended to a section one after the other,
and nothing else happens. -/
inductive Session.GrowsBy (sec : Section) : Session → List Operation → Session → Prop
  | nil (s : Session) : GrowsBy sec s [] s
  | cons {s u t : Session} {op : Operation} {ops : List Operation} (h : s.Grows sec op u)
      (hs : GrowsBy sec u ops t) : GrowsBy sec s (op :: ops) t

theorem Session.GrowsBy.contents {sec : Section} {s t : Session} {ops : List Operation}
    (h : GrowsBy sec s ops t) : t.contents = s.contents.append sec (ops.map Operation.words) := by
  induction h with
  | nil s => exact (Contents.append_nil _ sec).symm
  | cons h _ ih => rw [ih, h.contents, Contents.append_append, List.singleton_append, List.map_cons]

theorem Session.GrowsBy.eq_of_nil {sec : Section} {s t : Session} (h : GrowsBy sec s [] t) :
    t = s := by
  cases h
  rfl

namespace Edit

variable {α β : Type} {e : Edit α} {f : α → Edit β} {s t : Session} {m : Outline} {sec : Section}
  {op : Operation} {ops : List Operation} {x : EditError}

/-- An edit stops when its rest does, and its first part has changed nothing. -/
theorem Answers.bind_stops (he : e.Answers s fun _ t => t = s) (hf : ∀ a, (f a).Stops x s) :
    (e >>= f).Stops x s := by
  obtain ⟨a, u, hrun, rfl⟩ := he
  rw [Stops, run_bind, hrun]
  exact hf a

/-- No bound can be raised above the last id. -/
theorem coverResult_stops {i : Id} (hi : op.resultId? = some i) (hlast : i.value = 0xFFFFFFFF) :
    (coverResult op).Stops .idsExhausted s := by
  have hle : s.bound ≤ i.value := by
    rw [hlast, UInt32.le_iff_toNat_le]
    exact Nat.le_of_lt_succ s.bound.toNat_lt
  have hraise : raiseBound i = violate .idsExhausted := by
    rw [raiseBound, Id.succ?_eq_none.mpr hlast]
  rw [coverResult, hi, Stops, run_get_bind, if_pos hle, hraise]
  rfl

/-- It can be raised above all others. -/
theorem coverResult_answers_raised (hs : s.breach = none)
    (hi : ∀ i, op.resultId? = some i → i.succ? ≠ none) :
    (coverResult op).Answers s fun _ t => Raised s t := by
  unfold coverResult
  cases hid : op.resultId? with
  | none => exact answers_pure (.inl rfl)
  | some i =>
    obtain ⟨b, hb⟩ := Option.ne_none_iff_exists'.mp (hi i hid)
    refine answers_get ?_
    split
    · rw [raiseBound, hb]
      exact ⟨(), s.raised b, rfl, .inr ⟨i, b, hb, hs, rfl⟩⟩
    · exact answers_pure (.inl rfl)

/-- An operation with a flaw is refused for it. -/
theorem append_flawed (hs : s.Editable) (hx : op.flaw? = some x) : (append sec op).Stops x s := by
  show (insertInto sec (s.sectionStop sec) op).Stops x s
  rw [insertInto_eq]
  refine (ensureNoBracket_answers hs).bind_stops fun _ => ?_
  unfold Operation.flaw? at hx
  split at hx
  · rename_i hlong
    cases hx
    refine Stops.bind ?_ _
    rw [checkLength, if_pos hlong]
    rfl
  · rename_i hshort
    refine (checkLength_answers (Nat.le_of_not_lt hshort)).bind_stops fun _ => ?_
    cases hid : op.resultId? with
    | none => simp [hid] at hx
    | some i =>
      rw [hid, Option.any_some] at hx
      split at hx
      · rename_i hlast
        cases hx
        exact (coverResult_stops hid (of_decide_eq_true hlast)).bind _
      · cases hx

/-- An operation without a flaw is appended, and leaves a session behind to which more can be
appended. -/
theorem append_flawless (h : s.Sound m) (hs : s.Editable) (hh : op.mayStandIn sec)
    (hop : op.flawless) :
    (append sec op).Answers s fun _ t => s.Grows sec op t ∧ t.Editable ∧ ∃ m', t.Sound m' := by
  obtain ⟨hl, hi⟩ := Operation.flawless_iff.mp hop
  obtain ⟨hp, hlen⟩ := bounds_of_accepts h.shows (h.shows.accepts_sectionStop sec)
  have hanswers : (append sec op).Answers s fun _ _ => True := by
    show (insertInto sec (s.sectionStop sec) op).Answers s _
    generalize s.sectionStop sec = p at hp hlen
    rw [insertInto_eq]
    refine (ensureNoBracket_answers hs).bind fun _ u hu => ?_
    subst hu
    refine (checkLength_answers hl).bind fun _ u hu => ?_
    subst hu
    refine (coverResult_answers_raised hs.1 hi).bind fun _ v hv => ?_
    have hlen' : p ≤ v.words.length := hv.length_words.symm ▸ hlen
    refine (exchange_answers sec op hlen').bind fun _ w hw => ?_
    subst hw
    exact (register_answers (instruction?_exchanged sec 0 hp hlen' hl)).bind fun _ _ _ =>
      answers_pure trivial
  obtain ⟨a, t, hrun, -⟩ := hanswers
  obtain ⟨-, hgrows, hsound⟩ := append_yields h hh a t hrun
  exact ⟨a, t, hrun, hgrows, hs.of_frame hgrows.frame, hsound⟩

/-- Operations are appended one after the other up to the first that has a flaw. -/
theorem appendEach_run (h : s.Sound m) (hs : s.Editable) (hh : ∀ op ∈ ops, op.mayStandIn sec) :
    ∃ t, GrowsBy sec s (ops.takeWhile Operation.flawless) t ∧
      (ops.forM fun op => append sec op >>= fun _ => pure ()).run s =
        match ops.findSome? Operation.flaw? with
        | none => (.ok (), t)
        | some x => (.error (.refused x), t.breached x) := by
  induction ops generalizing s m with
  | nil => exact ⟨s, .nil s, rfl⟩
  | cons op ops ih =>
    obtain ⟨hop, hops⟩ := List.forall_mem_cons.mp hh
    rw [List.forM]
    cases hx : op.flaw? with
    | some x =>
      rw [List.takeWhile_cons_of_neg (by simp [Operation.flawless, hx]),
        List.findSome?_cons_of_isSome (by rw [hx]; rfl), hx]
      exact ⟨s, .nil s, ((append_flawed hs hx).bind _).bind _⟩
    | none =>
      have hflawless : op.flawless := by rw [Operation.flawless, hx]; rfl
      obtain ⟨a, u, hrun, hgrows, hu, m', h'⟩ := append_flawless h hs hop hflawless
      obtain ⟨t, ht, hrest⟩ := ih h' hu hops
      refine ⟨t, ?_, ?_⟩
      · rw [List.takeWhile_cons_of_pos hflawless]
        exact .cons hgrows ht
      · rw [List.findSome?_cons_of_isNone (by rw [hx]; rfl), run_bind, run_map hrun fun _ => ()]
        exact hrest

/-- An operation that may stand in a section is not refused for it. -/
theorem checkSection_run (h : op.mayStandIn sec) : (checkSection op sec).run s = (.ok (), s) := by
  rw [checkSection, if_neg (by simpa [Operation.mayStandIn] using h)]
  rfl

/-- The first operation that is at home elsewhere is refused before anything is appended. -/
theorem checkSections_run (ops : List Operation) (sec : Section) :
    (ops.forM fun op => checkSection op sec).run s =
      match ops.find? (fun op => !op.mayStandIn sec) with
      | none => (.ok (), s)
      | some op => (.error (.refused (.misplaced op.opcode (s.sectionStop sec))),
          s.breached (.misplaced op.opcode (s.sectionStop sec))) := by
  induction ops with
  | nil => rfl
  | cons op ops ih =>
    rw [List.forM, List.find?_cons, run_bind]
    cases hop : op.mayStandIn sec with
    | true =>
      rw [checkSection_run hop]
      exact ih
    | false =>
      have hcheck : (checkSection op sec).run s =
          (.error (.refused (.misplaced op.opcode (s.sectionStop sec))),
            s.breached (.misplaced op.opcode (s.sectionStop sec))) := by
        rw [checkSection, if_pos (by simpa [Operation.mayStandIn] using hop)]
        rfl
      rw [hcheck]
      rfl

end Edit

/-! ## Functions -/

section

variable {s : Session} {ops : List Operation}

/-- A function with an operation that is at home elsewhere is refused for the first of them. -/
theorem Session.perform_addFunction_misplaced {op : Operation}
    (hop : ops.find? (fun op => !op.mayStandIn .functions) = some op) :
    s.perform (.addFunction ops) =
      (.error (.refused (.misplaced op.opcode (s.sectionStop .functions))),
        s.breached (.misplaced op.opcode (s.sectionStop .functions))) := by
  have hcheck : (ops.forM fun op => Edit.checkSection op .functions).Stops
      (.misplaced op.opcode (s.sectionStop .functions)) s := by
    rw [Edit.Stops, Edit.checkSections_run, hop]
  exact (hcheck.bind _).bind _

/-- The operations of any other function become part of the module up to the first with a flaw. -/
theorem Session.perform_addFunction_athome {m : Outline} (h : s.Sound m) (hs : s.Editable)
    (hops : ∀ op ∈ ops, op.mayStandIn .functions) :
    ∃ t, GrowsBy .functions s (ops.takeWhile Operation.flawless) t ∧
      s.perform (.addFunction ops) = match ops.findSome? Operation.flaw? with
        | none => (.ok .done, t)
        | some x => (.error (.refused x), t.breached x) := by
  obtain ⟨t, ht, hrun⟩ := Edit.appendEach_run h hs hops
  refine ⟨t, ht, ?_⟩
  have hfind : ops.find? (fun op => !op.mayStandIn .functions) = none :=
    List.find?_eq_none.mpr fun op hop => by simp [hops op hop]
  have hadd : (Edit.addFunction ops).run s =
      (ops.forM fun op => Edit.append .functions op >>= fun _ => pure ()).run s := by
    rw [Edit.addFunction, Edit.run_bind, Edit.checkSections_run, hfind]
  show ((Edit.addFunction ops) >>= fun _ => pure Answer.done).run s = _
  rw [Edit.run_bind, hadd, hrun]
  cases ops.findSome? Operation.flaw? <;> rfl

/-- That the operations of a function are all appended to the functions and nothing else changes, or
the session is aborted and nothing changes at all. -/
def Session.AddsWhole (s : Session) (ops : List Operation) : Prop :=
  ((s.perform (.addFunction ops)).1 = .ok .done ∧
    (s.perform (.addFunction ops)).2.contents =
      s.contents.append .functions (ops.map Operation.words)) ∨
  ∃ x, s.perform (.addFunction ops) = (.error (.refused x), s.breached x)

/-- A function is added as a whole if all of its operations can be appended. -/
theorem Session.addsWhole_of_flawless {m : Outline} (h : s.Sound m) (hs : s.Editable)
    (hops : ∀ op ∈ ops, op.mayStandIn .functions) (hall : ∀ op ∈ ops, op.flaw? = none) :
    s.AddsWhole ops := by
  obtain ⟨t, ht, hperform⟩ := perform_addFunction_athome h hs hops
  rw [List.findSome?_eq_none_iff.mpr hall] at hperform
  have hprefix : ops.takeWhile Operation.flawless = ops :=
    List.takeWhile_eq_self_iff.mpr fun op hop => by rw [Operation.flawless, hall op hop]; rfl
  refine .inl ⟨?_, ?_⟩
  · rw [hperform]
  · rw [hperform, ht.contents, hprefix]

/-- Nothing of it is added if the first operation cannot be appended. -/
theorem Session.addsWhole_of_first_flawed {m : Outline} (h : s.Sound m) (hs : s.Editable)
    {op : Operation} {x : EditError} (hops : ∀ op' ∈ op :: ops, op'.mayStandIn .functions)
    (hx : op.flaw? = some x) : s.AddsWhole (op :: ops) := by
  obtain ⟨t, ht, hperform⟩ := perform_addFunction_athome h hs hops
  rw [List.takeWhile_cons_of_neg (by simp [Operation.flawless, hx])] at ht
  rw [List.findSome?_cons_of_isSome (by rw [hx]; rfl), hx, ht.eq_of_nil] at hperform
  exact .inr ⟨x, hperform⟩

/-- It is torn apart if the first operation can be appended, and a later one cannot. -/
theorem Session.not_addsWhole {m : Outline} (h : s.Sound m) (hs : s.Editable) {op : Operation}
    (hops : ∀ op' ∈ op :: ops, op'.mayStandIn .functions) (hfirst : op.flaw? = none)
    (hlater : ¬ ∀ op' ∈ ops, op'.flaw? = none) : ¬ s.AddsWhole (op :: ops) := by
  obtain ⟨t, ht, hperform⟩ := perform_addFunction_athome h hs hops
  have hgrown : t.contents .functions ≠ s.contents .functions := by
    rw [ht.contents, List.takeWhile_cons_of_pos (by rw [Operation.flawless, hfirst]; rfl),
      Contents.append, Function.update_self]
    simp
  rw [List.findSome?_cons_of_isNone (by rw [hfirst]; rfl)] at hperform
  obtain ⟨x, hx⟩ := Option.ne_none_iff_exists'.mp (mt List.findSome?_eq_none_iff.mp hlater)
  rw [hx] at hperform
  rintro (⟨hdone, -⟩ | ⟨y, hy⟩)
  · rw [hperform] at hdone
    cases hdone
  · have hsame : t.breached x = s.breached y := congrArg Prod.snd (hperform.symm.trans hy)
    have hcontents : (t.breached x).contents = (s.breached y).contents := by rw [hsame]
    exact hgrown (congrFun hcontents .functions)

namespace Reached

/-- A function is added as a whole or not at all, unless all of its operations are at home in
functions, the first can be appended and a later one cannot. Then the operations in front of the
first that cannot be appended stay in the aborted session. -/
theorem function_added_up_to_flaw (h : Reachable s) (hs : s.Editable) (ops : List Operation) :
    (s.AddsWhole ops ↔
      (∃ op ∈ ops, ¬ op.mayStandIn .functions) ∨ (∃ op ∈ ops.head?, op.flaw? ≠ none) ∨
        ∀ op ∈ ops, op.flaw? = none) ∧
    ((∀ op ∈ ops, op.mayStandIn .functions) → ∃ t : Session,
      t.contents = s.contents.append .functions
        ((ops.takeWhile Operation.flawless).map Operation.words) ∧
      s.perform (.addFunction ops) = match ops.findSome? Operation.flaw? with
        | none => (.ok .done, t)
        | some x => (.error (.refused x), t.breached x)) := by
  obtain ⟨m, hm⟩ := h.sound
  refine ⟨?_, fun hops => ?_⟩
  · by_cases hops : ∀ op ∈ ops, op.mayStandIn .functions
    · have hhome : ¬ ∃ op ∈ ops, ¬ op.mayStandIn .functions := fun ⟨op, hop, hnot⟩ =>
        hnot (hops op hop)
      cases ops with
      | nil => exact iff_of_true (addsWhole_of_flawless hm hs hops nofun) (.inr (.inr nofun))
      | cons op ops =>
        cases hfirst : op.flaw? with
        | some x =>
          refine iff_of_true (addsWhole_of_first_flawed hm hs hops hfirst) (.inr (.inl ?_))
          exact ⟨op, rfl, by rw [hfirst]; nofun⟩
        | none =>
          by_cases hlater : ∀ op' ∈ ops, op'.flaw? = none
          · have hall : ∀ op' ∈ op :: ops, op'.flaw? = none :=
              List.forall_mem_cons.mpr ⟨hfirst, hlater⟩
            exact iff_of_true (addsWhole_of_flawless hm hs hops hall) (.inr (.inr hall))
          · refine iff_of_false (not_addsWhole hm hs hops hfirst hlater) ?_
            rintro (hnot | ⟨op', hop', hflaw⟩ | hall)
            · exact hhome hnot
            · cases hop'
              exact hflaw hfirst
            · exact hlater (List.forall_mem_cons.mp hall).2
    · have hfind : ops.find? (fun op => !op.mayStandIn .functions) ≠ none := fun hnone =>
        hops fun op hop => by simpa using List.find?_eq_none.mp hnone op hop
      obtain ⟨op, hop⟩ := Option.ne_none_iff_exists'.mp hfind
      refine iff_of_true (.inr ⟨_, perform_addFunction_misplaced hop⟩) (.inl ?_)
      exact ⟨op, List.mem_of_find?_eq_some hop, by simpa using List.find?_some hop⟩
  · obtain ⟨t, ht, hperform⟩ := perform_addFunction_athome hm hs hops
    exact ⟨t, ht.contents, hperform⟩

/-- A label is appended before the next one turns out to have the last id. -/
theorem function_added_up_to_flaw_lastId :
    Reachable (Session.create .never ⟨1, 3⟩ 0) ∧ (Session.create .never ⟨1, 3⟩ 0).Editable ∧
    (¬ (Session.create .never ⟨1, 3⟩ 0).AddsWhole
      [.label ⟨1, by decide⟩, .label ⟨0xFFFFFFFF, by decide⟩]) := by
  have hs : Reachable (Session.create .never ⟨1, 3⟩ 0) := .create _ _ _ trivial
  have he : (Session.create .never ⟨1, 3⟩ 0).Editable := ⟨rfl, rfl⟩
  refine ⟨hs, he, fun h => ?_⟩
  have hcases := (function_added_up_to_flaw hs he _).1.mp h
  revert hcases
  decide +kernel

end Reached

/-- A function is not always added as a whole or not at all. -/
theorem Session.function_torn_apart :
    ¬ ∀ (s : Session) (ops : List Operation), Reachable s → s.Editable → s.AddsWhole ops := by
  intro h
  have hwhole := h (Session.create .never ⟨1, 3⟩ 0)
    [.label ⟨1, by decide⟩, .label ⟨0xFFFFFFFF, by decide⟩] (.create _ _ _ trivial) ⟨rfl, rfl⟩
  rcases hwhole with ⟨hdone, -⟩ | ⟨x, hx⟩
  · revert hdone
    decide +kernel
  · have hwords : ((Session.create .never ⟨1, 3⟩ 0).perform (.addFunction
        [.label ⟨1, by decide⟩, .label ⟨0xFFFFFFFF, by decide⟩])).2.words =
          (Session.create .never ⟨1, 3⟩ 0).words := congrArg (fun r => r.2.words) hx
    revert hwords
    decide +kernel

end

end SpirvModule
