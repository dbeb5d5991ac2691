import SpirvModule.Proofs.Declares
import SpirvModule.Proofs.Outcome

/-!
# Types stay declared

A key goes on leading to the id that it was declared with. An instruction that comes does
not displace it, as the first declaration stays the one that is found, and one that goes
takes no id along but its own. So a type is lost only to a command that takes its
declaration out, and to declare it once more until then does nothing. Ids need not be
distinct for that.

Results:
* `Index.get?_register`, `Index.get?_unregister`: what keeps a key leading to an id.
* `perform_keeps_type`: a command that is not about the declaration keeps it.
* `Reached.type_stays`: so does any number of them, and declaring the type again answers its
  id and leaves everything as it is.
-/
namespace SpirvModule

/-! ## Instructions that come and go -/

namespace Index

variable {x : Index} {i : Instruction} {k : TypeKey} {id : Id}

theorem get?_register (policy : StructPolicy) (h : x.types.get? k = some id) :
    (x.register policy i).types.get? k = some id := by
  cases x.register_gains policy i with
  | idle hids => rw [TypeTable.get?_congr hids, h]
  | @type c k' _ _ hu =>
    rw [hu]
    cases hk' : x.types.get? k' with
    | some d => rw [TypeTable.insert_of_isSome (hk' ▸ rfl : (x.types.get? k').isSome), h]
    | none =>
      rw [TypeTable.get?_insert hk', if_neg, h]
      rintro rfl
      cases h.symm.trans hk'

theorem get?_unregister (h : x.types.get? k = some id) (hne : i.resultId? ≠ some id) :
    (x.unregister i).types.get? k = some id := by
  cases x.unregister_loses i with
  | idle hids => rw [TypeTable.get?_congr hids, h]
  | @type c hc hu =>
    rw [hu]
    cases hk' : x.types.keyOf? c with
    | none => rw [TypeTable.remove_of_none hk', h]
    | some k' =>
      -- if the key were that of the id that goes, it would lead there
      rw [TypeTable.get?_remove hk', if_neg, h]
      rintro ⟨rfl, hget⟩
      exact hne (hc.trans (hget.symm.trans h))

end Index

/-! ## Moves -/

namespace Session

variable {s t : Session} {sec : Section} {p old : Nat} {op : Operation} {i j : Instruction}
  {k : TypeKey} {id : Id}

theorem getType?_registered (h : s.getType? k = some id) :
    (s.registered i).getType? k = some id := Index.get?_register s.policy h

theorem getType?_unregistered (h : s.getType? k = some id) (hi : i.resultId? ≠ some id) :
    (s.unregistered i).getType? k = some id := Index.get?_unregister h hi

/-- Types have no places. -/
theorem getType?_exchanged (h : s.getType? k = some id) :
    (s.exchanged sec p old op).getType? k = some id := h

theorem getType?_inserted (h : s.getType? k = some id) :
    (s.inserted sec p op).getType? k = some id := getType?_registered (getType?_exchanged h)

theorem getType?_opened (h : s.getType? k = some id) (hi : i.resultId? ≠ some id) :
    (s.opened i).getType? k = some id := getType?_unregistered h hi

theorem getType?_closed (h : s.getType? k = some id) : (s.closed i).getType? k = some id :=
  getType?_registered (s := { s with bracket := none }) h

theorem getType?_replaced (h : s.getType? k = some id) (hi : i.resultId? ≠ some id) :
    (s.replaced sec i op).getType? k = some id :=
  getType?_registered (getType?_exchanged (getType?_unregistered h hi))

theorem getType?_refused (h : s.getType? k = some id) (ht : Edit.Refused s t) :
    t.getType? k = some id := by
  rcases ht with rfl | ⟨e, rfl⟩ <;> exact h

theorem getType?_raised (h : s.getType? k = some id) (ht : Edit.Raised s t) :
    t.getType? k = some id := by
  rcases ht with rfl | ⟨_, _, -, -, rfl⟩ <;> exact h

theorem getType?_adds (h : s.getType? k = some id) {l : List (Section × Operation)}
    (ht : Adds s l t) : t.getType? k = some id := by
  induction ht with
  | refl => exact h
  | breach _ _ ih => exact ih
  | raise _ _ _ ih => exact ih
  | append _ _ _ _ _ ih => exact getType?_inserted ih

end Session

/-! ## Commands -/

open Session

namespace Command

/-- The command by which an instruction is taken out. A change of operands does that when its
bracket opens, whatever becomes of it then. -/
def opening : Command → Command
  | modifyOperands p _ => beginModify p
  | c => c

/-- Whether a command removes an instruction that defines `id`, replaces one, or opens a bracket
around one. -/
def Displaces (s : Session) (id : Id) (c : Command) : Prop :=
  c.opening.Answered s ∧ ∃ p ∈ c.takesOut?, ∃ i ∈ s.instruction? p, i.resultId? = some id

instance (s : Session) (id : Id) (c : Command) : Decidable (c.Displaces s id) :=
  inferInstanceAs (Decidable (_ ∧ ∃ p ∈ c.takesOut?, ∃ i ∈ s.instruction? p, _))

end Command

/-- A bracket opens around any instruction that is there, if the session may be edited. -/
theorem beginModify_answered {s : Session} {p : Nat} {i : Instruction} (hs : s.Editable)
    (hi : s.instruction? p = some i) : (Command.beginModify p).Answered s := by
  obtain ⟨_, u, hu, -⟩ := Edit.beginModify_answers hs hi
  have hrun : s.perform (.beginModify p) = (.ok .done, u) := Edit.run_map hu _
  exact ⟨.done, by rw [hrun]⟩

/-- A command keeps a declared type, answered or not, unless it takes out the declaration. -/
theorem perform_keeps_type {s : Session} {m : Outline} {c : Command} {k : TypeKey} {id : Id}
    (h : s.Sound m) (hc : c.Proper s) (hk : s.getType? k = some id) (hd : ¬ c.Displaces s id) :
    (s.perform c).2.getType? k = some id := by
  have other {p : Nat} {i : Instruction} (hopen : c.opening.Answered s) (hp : c.takesOut? = some p)
      (hi : s.instruction? p = some i) : i.resultId? ≠ some id :=
    fun hid => hd ⟨hopen, p, hp, i, hi, hid⟩
  rcases hrun : s.perform c with ⟨r, t⟩
  have hans {a : Answer} (hr : r = .ok a) : c.Answered s := ⟨a, by rw [hrun, hr]⟩
  cases r with
  | error x =>
    rcases perform_unanswered h hc hrun with ⟨l, hadds⟩ | ⟨p, change, i, rfl, hs, hi, ht⟩
    · exact getType?_adds hk hadds
    · exact getType?_refused (getType?_opened hk (other (beginModify_answered hs hi) rfl hi)) ht
  | ok a =>
    cases perform_outcome h hc hrun with
    | adds _ hadds => exact getType?_adds hk hadds
    | insert _ _ hu => exact getType?_inserted (getType?_raised hk hu)
    | replace _ _ _ hm =>
      exact getType?_replaced hk (other (hans rfl) rfl (h.shows.instruction?_of_splits hm))
    | remove _ hm =>
      exact getType?_unregistered hk (other (hans rfl) rfl (h.shows.instruction?_of_splits hm))
    | beginModify _ hm =>
      exact getType?_opened hk (other (hans rfl) rfl (h.shows.instruction?_of_splits hm))
    | operands => exact hk
    | endModify => exact getType?_closed hk
    | modifyOperands hs hm =>
      have hi := h.shows.instruction?_of_splits hm
      exact getType?_closed (s := (s.opened _).overwritten ..)
        (getType?_opened hk (other (beginModify_answered hs hi) rfl hi))

/-- To declare a type that is declared already does nothing, whatever state the session is in. -/
theorem perform_declareType {s : Session} {k : TypeKey} {id : Id} (hk : s.getType? k = some id) :
    s.perform (.declareType k) = (.ok (.id id), s) :=
  Edit.run_map (Edit.declareType_found hk) _

/-! ## Runs -/

/-- A declared type stays declared until its declaration is taken out. All the while it may be
declared again, which answers its id and changes nothing. -/
theorem Reached.type_stays {s : Session} (h : Reachable s) {k : TypeKey} {id : Id}
    (hk : s.getType? k = some id) {cs : List Command}
    (hcs : s.Follows (fun t c => ¬ c.Displaces t id) cs) :
    (s.performAll cs).getType? k = some id ∧
      (s.performAll cs).perform (.declareType k) = (.ok (.id id), s.performAll cs) := by
  have hkept : (s.performAll cs).getType? k = some id := by
    induction cs generalizing s with
    | nil => exact hk
    | cons c cs ih =>
      obtain ⟨hc, hd, hcs⟩ := hcs
      obtain ⟨m, hm⟩ := h.sound
      exact ih (h.perform c hc trivial) (perform_keeps_type hm hc hk hd) hcs
  exact ⟨hkept, perform_declareType hkept⟩

/-- A type and a vector of it. -/
def declaredVector : Session :=
  (Session.create .never ⟨1, 3⟩ 0).performAll
    [.declareType (.scalar .bool), .declareType (.vector ⟨.bool, 4⟩)]

/-- The type is declared again, another one comes in front of it, a bracket opens around the vector,
another declaration aborts the session, and the removal of the type is refused. -/
def undisplaced : List Command :=
  [.addType ⟨.opTypeBool, [3]⟩, .insert 5 ⟨.opTypeFloat, [4, 32]⟩, .beginModify 10,
    .declareType (.scalar .void), .remove 8]

theorem type_stays_undisplaced :
    (Reachable declaredVector ∧ declaredVector.getType? (.scalar .bool) = some .one ∧
      declaredVector.Follows (fun t c => ¬ c.Displaces t .one) undisplaced) ∧
    (declaredVector.performAll undisplaced).aborted ∧
      (declaredVector.performAll undisplaced).perform (.declareType (.scalar .bool)) =
        (.ok (.id .one), declaredVector.performAll undisplaced) := by
  have h : Reachable declaredVector :=
    Reached.performAll (.create _ _ _ trivial) (by decide +kernel)
  have hk : declaredVector.getType? (.scalar .bool) = some .one := by decide +kernel
  have hcs : declaredVector.Follows (fun t c => ¬ c.Displaces t .one) undisplaced := by
    decide +kernel
  exact ⟨⟨h, hk, hcs⟩, by decide +kernel, (Reached.type_stays h hk hcs).2⟩

end SpirvModule
