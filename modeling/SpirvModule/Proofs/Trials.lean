import SpirvModule.Proofs.Endings
import SpirvModule.Scenario

/-!
# Trials that go through

A trial goes through when every edit of it answers and every check holds. What holds of the session
at its end is followed part by part, as for edits, and a loop is followed by what each of its rounds
keeps.

Results:
* `Passes.bind`, `passes_edit`, `passes_ensure`: the parts of a trial.
* `passes_forM`: a loop whose rounds all keep the same.
* `Scenario.onModule_eq`: the module that a trial makes of another one.
-/
namespace SpirvModule

namespace Trial

variable {α β : Type} {s t : Session}

/-- Whether `e` goes through, and leaves an answer and a session behind for which `Q` holds. -/
def Passes (e : Trial α) (s : Session) (Q : α → Session → Prop) : Prop :=
  ∃ a t, e.run s = (.ok a, t) ∧ Q a t

variable {e : Trial α} {f : α → Trial β} {P P' : α → Session → Prop} {Q : β → Session → Prop}

theorem Passes.bind (he : e.Passes s P) (hf : ∀ a u, P a u → (f a).Passes u Q) :
    (e >>= f).Passes s Q := by
  obtain ⟨a, u, hrun, ha⟩ := he
  obtain ⟨b, t, hrun', hb⟩ := hf a u ha
  refine ⟨b, t, ?_, hb⟩
  show ExceptT.bindCont f (e.run s).1 (e.run s).2 = _
  rw [hrun]
  exact hrun'

theorem Passes.mono (he : e.Passes s P) (hP : ∀ a t, P a t → P' a t) : e.Passes s P' := by
  obtain ⟨a, t, hrun, ha⟩ := he
  exact ⟨a, t, hrun, hP a t ha⟩

theorem passes_pure {a : α} (h : P a s) : (pure a : Trial α).Passes s P := ⟨a, s, rfl, h⟩

theorem passes_get {f : Session → Trial α} (h : (f s).Passes s P) : (get >>= f).Passes s P := h

/-- An edit that answers goes through. -/
theorem passes_edit {e : Edit α} (h : e.Answers s P) : (edit e).Passes s P := by
  obtain ⟨a, t, hrun, ha⟩ := h
  refine ⟨a, t, ?_, ha⟩
  show (edit e : Session → _) s = _
  simp only [edit, hrun]

/-- A check that holds changes nothing. -/
theorem passes_ensure {c : Bool} (said : String) (hc : c) :
    (ensure c said).Passes s fun _ t => t = s := by
  rw [ensure, if_pos hc]
  exact passes_pure rfl

/-- What every round of a loop keeps is kept by the loop. -/
theorem passes_forM {K : Session → Prop} {l : List α} {e : α → Trial Unit} (hs : K s)
    (he : ∀ a ∈ l, ∀ u, K u → (e a).Passes u fun _ t => K t) :
    (l.forM e).Passes s fun _ t => K t := by
  induction l generalizing s with
  | nil => exact passes_pure hs
  | cons a r ih =>
    obtain ⟨ha, hr⟩ := List.forall_mem_cons.mp he
    exact (ha s hs).bind fun _ u hu => ih hu hr

end Trial

/-- A trial that goes through from a module makes what it leaves behind. -/
theorem Scenario.onModule_eq {e : Trial Unit} {ws : List Word} {s : Session}
    {Q : Unit → Session → Prop} (hs : Session.ofWords .never ws = .ok s) (he : e.Passes s Q)
    (hQ : ∀ t, Q () t → t.breach = none) :
    ∃ t, Q () t ∧ onModule e ws = (.ok t.words, none) := by
  obtain ⟨⟨⟩, t, hrun, ht⟩ := he
  refine ⟨t, ht, ?_⟩
  have hresult : e.result s = (.ok t.words, t.breach) := by rw [Trial.result, hrun]
  rw [onModule, hs, ← hQ t ht]
  exact hresult

end SpirvModule
