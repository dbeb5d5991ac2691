import SpirvModule.Proofs.Track
import SpirvModule.Session.Command

/-!
# Runs of a session

A client learns the places of a module from the module itself: where an instruction
stands, and where a section starts or stops. A command is proper when it speaks of no
other offset. A run opens a module or creates one, and goes on by proper commands,
answered or not.

* `Session.IsPlace`, `Command.Proper`: the offsets that a client may name.
* `Session.listing`, `Session.live`: all instructions, and those that are not in the
  open bracket.
* `Reached P`: the sessions at the end of a run all of whose points satisfy `P`.
* `ReachedUnder O R`: the sessions at the end of a run that opens as `O` says and goes on
  by commands as `R` says.
* `Reached.performAll`, `ReachedUnder.performAll`: a list of commands leads to such a session.
-/
namespace SpirvModule

namespace Session

/-- Whether a section starts or stops at `p` or has an instruction there. -/
def IsPlace (s : Session) (p : Nat) : Prop :=
  ∃ sec ∈ Section.all, p = s.sectionStart sec ∨ p = s.sectionStop sec ∨
    ∃ i ∈ s.instructions sec, i.offset = p

instance (s : Session) (p : Nat) : Decidable (s.IsPlace p) :=
  inferInstanceAs (Decidable (∃ sec ∈ Section.all, _))

/-- All instructions, in the order of their offsets. -/
def listing (s : Session) : List Instruction := Section.all.flatMap s.instructions

/-- Whether the open bracket is around the instruction at `p`. -/
def brackets (s : Session) (p : Nat) : Bool := s.bracket.any (·.offset = p)

/-- The instructions outside the open bracket, in the order of their offsets. -/
def live (s : Session) : List Instruction := s.listing.filter fun i => !s.brackets i.offset

/-- The ids that the instructions outside the open bracket define. -/
def liveIds (s : Session) : List Id := definedIds s.live

/-- No two instructions outside the open bracket define the same id. -/
def IdsDistinct (s : Session) : Prop := s.liveIds.Nodup

instance (s : Session) : Decidable s.IdsDistinct := inferInstanceAs (Decidable (List.Nodup _))

end Session

/-- Whether a command names places of the session only. -/
def Command.Proper (s : Session) (c : Command) : Prop := ∀ p ∈ c.offset?, s.IsPlace p

instance (s : Session) (c : Command) : Decidable (c.Proper s) :=
  inferInstanceAs (Decidable (∀ p ∈ c.offset?, _))

/-- The sessions that runs through sessions with `P` lead to. -/
inductive Reached (P : Session → Prop) : Session → Prop
  | create (policy : StructPolicy) (v : Version) (generator : Word)
      (h : P (Session.create policy v generator)) : Reached P (Session.create policy v generator)
  | ofWords {policy : StructPolicy} {ws : List Word} {s : Session}
      (hs : Session.ofWords policy ws = .ok s) (h : P s) : Reached P s
  | perform {s : Session} (hs : Reached P s) (c : Command) (hc : c.Proper s)
      (h : P (s.perform c).2) : Reached P (s.perform c).2

/-- The sessions that a run leads to. -/
abbrev Reachable : Session → Prop := Reached fun _ => True

theorem Reached.mono {P Q : Session → Prop} (hPQ : ∀ s, P s → Q s) {s : Session}
    (h : Reached P s) : Reached Q s := by
  induction h with
  | create policy v generator h => exact .create policy v generator (hPQ _ h)
  | ofWords hs h => exact .ofWords hs (hPQ _ h)
  | perform _ c hc h ih => exact .perform ih c hc (hPQ _ h)

theorem Reached.reachable {P : Session → Prop} {s : Session} (h : Reached P s) : Reachable s :=
  h.mono fun _ _ => trivial

theorem Reached.holds {P : Session → Prop} {s : Session} (h : Reached P s) : P s := by
  cases h with
  | create _ _ _ h => exact h
  | ofWords _ h => exact h
  | perform _ _ _ h => exact h

/-- One more command, by what it ends with. -/
theorem Reached.next {P : Session → Prop} {s t : Session} {c : Command}
    {r : Except Failure Answer} (hs : Reached P s) (hrun : s.perform c = (r, t)) (hc : c.Proper s)
    (h : P t) : Reached P t := by
  have hst : (s.perform c).2 = t := by rw [hrun]
  subst hst
  exact hs.perform c hc h

/-- Whether a command is answered. -/
def Command.Answered (s : Session) (c : Command) : Prop := ∃ a, (s.perform c).1 = .ok a

instance (s : Session) (c : Command) : Decidable (c.Answered s) :=
  match h : (s.perform c).1 with
  | .ok a => isTrue ⟨a, h⟩
  | .error _ => isFalse fun ⟨_, ha⟩ => nomatch h.symm.trans ha

/-- The sessions that runs lead to that open with `O` and whose commands satisfy `R` where they are
given. -/
inductive ReachedUnder (O : Session → Prop) (R : Session → Command → Prop) : Session → Prop
  | create (policy : StructPolicy) (v : Version) (generator : Word)
      (h : O (Session.create policy v generator)) :
      ReachedUnder O R (Session.create policy v generator)
  | ofWords {policy : StructPolicy} {ws : List Word} {s : Session}
      (hs : Session.ofWords policy ws = .ok s) (h : O s) : ReachedUnder O R s
  | perform {s : Session} (hs : ReachedUnder O R s) (c : Command) (hc : c.Proper s) (h : R s c) :
      ReachedUnder O R (s.perform c).2

theorem ReachedUnder.reachable {O : Session → Prop} {R : Session → Command → Prop} {s : Session}
    (h : ReachedUnder O R s) : Reachable s := by
  induction h with
  | create policy v generator _ => exact .create policy v generator trivial
  | ofWords hs _ => exact .ofWords hs trivial
  | perform _ c hc _ ih => exact .perform ih c hc trivial

/-- One more command, by what it ends with. -/
theorem ReachedUnder.next {O : Session → Prop} {R : Session → Command → Prop} {s t : Session}
    {c : Command} {r : Except Failure Answer} (hs : ReachedUnder O R s)
    (hrun : s.perform c = (r, t)) (hc : c.Proper s) (h : R s c) : ReachedUnder O R t := by
  have hst : (s.perform c).2 = t := by rw [hrun]
  subst hst
  exact hs.perform c hc h

theorem ReachedUnder.mono {O O' : Session → Prop} {R R' : Session → Command → Prop}
    (hO : ∀ s, O s → O' s) (hR : ∀ s c, R s c → R' s c) {s : Session} (h : ReachedUnder O R s) :
    ReachedUnder O' R' s := by
  induction h with
  | create policy v generator h => exact .create policy v generator (hO _ h)
  | ofWords hs h => exact .ofWords hs (hO _ h)
  | perform _ c hc h ih => exact .perform ih c hc (hR _ _ h)

/-! ## Runs as lists of commands -/

namespace Session

/-- The session after some commands. -/
def performAll (s : Session) (cs : List Command) : Session :=
  cs.foldl (fun s c => (s.perform c).2) s

/-- Whether some commands are proper one after the other and all sessions after them satisfy `P`. -/
def Takes (P : Session → Prop) : Session → List Command → Prop
  | _, [] => True
  | s, c :: cs => c.Proper s ∧ P (s.perform c).2 ∧ Takes P (s.perform c).2 cs

instance decidableTakes (P : Session → Prop) [DecidablePred P] :
    ∀ (s : Session) (cs : List Command), Decidable (Takes P s cs)
  | _, [] => isTrue trivial
  | s, c :: cs =>
    have := decidableTakes P (s.perform c).2 cs
    inferInstanceAs (Decidable (c.Proper s ∧ P (s.perform c).2 ∧ Takes P (s.perform c).2 cs))

/-- Whether some commands are proper one after the other and satisfy `R` where they are given. -/
def Follows (R : Session → Command → Prop) : Session → List Command → Prop
  | _, [] => True
  | s, c :: cs => c.Proper s ∧ R s c ∧ Follows R (s.perform c).2 cs

instance decidableFollows (R : Session → Command → Prop) [∀ s, DecidablePred (R s)] :
    ∀ (s : Session) (cs : List Command), Decidable (Follows R s cs)
  | _, [] => isTrue trivial
  | s, c :: cs =>
    have := decidableFollows R (s.perform c).2 cs
    inferInstanceAs (Decidable (c.Proper s ∧ R s c ∧ Follows R (s.perform c).2 cs))

end Session

theorem Reached.performAll {P : Session → Prop} {s : Session} (hs : Reached P s)
    {cs : List Command} (h : s.Takes P cs) : Reached P (s.performAll cs) := by
  induction cs generalizing s with
  | nil => exact hs
  | cons c cs ih => exact ih (hs.perform c h.1 h.2.1) h.2.2

theorem ReachedUnder.performAll {O : Session → Prop} {R : Session → Command → Prop} {s : Session}
    (hs : ReachedUnder O R s) {cs : List Command} (h : s.Follows R cs) :
    ReachedUnder O R (s.performAll cs) := by
  induction cs generalizing s with
  | nil => exact hs
  | cons c cs ih => exact ih (hs.perform c h.1 h.2.1) h.2.2

end SpirvModule
