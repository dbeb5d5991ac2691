import SpirvModule.Proofs.Refine

/-!
# The class of storage buffers

Before version 1.3, storage buffers have a class of their own only in modules that ask for it by
an extension. Which class they have is found out when a session opens. No edit changes it or the
version, so that from then on it goes with the extension only while the module asks for the
extension just when it did on opening.

* `Session.ClassFollows`: the class is the one that version and extensions call for.

Results:
* `Opened.class_eq`: on opening it is.
* `Moves.class_eq`: edits leave the class alone.
* `Opened.class_stays`: what the class is all along a run, and how it decorates structs.
-/
namespace SpirvModule

namespace Session

/-- The sessions that open a module or start one. -/
inductive Opened : Session → Prop
  | create (policy : StructPolicy) (v : Version) (generator : Word) :
      Opened (create policy v generator)
  | ofWords {policy : StructPolicy} {ws : List Word} {s : Session}
      (hs : ofWords policy ws = .ok s) : Opened s

/-- Whether storage buffers have a class of their own exactly if the version has it or the module
asks for the extension. -/
def ClassFollows (s : Session) : Prop :=
  s.storageBufferClass = .storageBuffer ↔
    s.version.atLeast 1 3 ∨ s.hasExtension storageBufferExtension

instance (s : Session) : Decidable s.ClassFollows := inferInstanceAs (Decidable (_ ↔ _))

variable {s t : Session} {cs : List Command}

theorem classOf_eq_storageBuffer (v : Version) (b : Bool) :
    classOf v b = .storageBuffer ↔ v.atLeast 1 3 ∨ b := by
  unfold classOf
  cases v.atLeast 1 3 <;> cases b <;> decide

/-- A class that was called for once is called for if the extension is as it was then, or does not
matter. -/
theorem classFollows_iff {b : Bool} (h : s.storageBufferClass = classOf s.version b) :
    s.ClassFollows ↔ s.version.atLeast 1 3 ∨ s.hasExtension storageBufferExtension = b := by
  rw [ClassFollows, h, classOf_eq_storageBuffer]
  cases s.version.atLeast 1 3 <;> cases s.hasExtension storageBufferExtension <;> cases b <;> decide

/-! ## Opening -/

theorem Opened.reachable (h : s.Opened) : Reachable s := by
  cases h with
  | create policy v generator => exact .create policy v generator trivial
  | ofWords hs => exact .ofWords hs trivial

/-- The extensions are read before the bound is written, which is not among them. -/
theorem ofWords_hasExtension {policy : StructPolicy} {ws : List Word} {v : ModuleView}
    (hs : ofWords policy ws = .ok s) (hv : ModuleView.parse ws = .ok v) (name : String) :
    s.hasExtension name = namesExtension name (instructionsIn ws (v.layout.span .extensions)) := by
  obtain ⟨m, -, hshows, hread⟩ := ofWords_shows hs
  obtain ⟨v', _, hv', -, heq⟩ := ofWords_ok hs
  obtain rfl := Except.ok.inj (hv.symm.trans hv')
  rw [hasExtension, hshows.instructions_eq, ← hread.instructions_eq, heq]
  rfl

/-- On opening, version and extensions tell the class. -/
theorem Opened.class_eq (h : s.Opened) :
    s.storageBufferClass = classOf s.version (s.hasExtension storageBufferExtension) := by
  cases h with
  | create policy v generator =>
    have hnone : (Session.create policy v generator).instructions .extensions = [] :=
      (create_sound policy v generator).shows.instructions_eq .extensions
    rw [hasExtension, hnone]
    rfl
  | ofWords hs =>
    obtain ⟨v, _, hv, -, heq⟩ := ofWords_ok hs
    rw [ofWords_hasExtension hs hv, heq]

/-! ## Edits -/

theorem Move.class_eq (h : Move s t) :
    t.version = s.version ∧ t.storageBufferClass = s.storageBufferClass := by
  cases h <;> exact ⟨rfl, rfl⟩

theorem Moves.class_eq (h : Moves s t) :
    t.version = s.version ∧ t.storageBufferClass = s.storageBufferClass := by
  induction h with
  | refl => exact ⟨rfl, rfl⟩
  | tail _ hmove ih => exact ⟨hmove.class_eq.1.trans ih.1, hmove.class_eq.2.trans ih.2⟩

/-- A struct is decorated as the class says. -/
theorem Sound.decorateStorageBuffer_contents {m : Outline} (h : s.Sound m) {i : Id} {a : Answer}
    (hrun : s.perform (.decorateStorageBuffer i) = (.ok a, t)) :
    t.contents = s.contents.append .annotations [(Operation.decorate i
      (if s.storageBufferClass = .storageBuffer then .block else .bufferBlock) []).words] := by
  have heffect := perform_effect_of_sound h (c := .decorateStorageBuffer i) nofun hrun
  generalize t.contents = after at heffect
  cases heffect with
  | append happended =>
    cases happended
    rfl

/-! ## Runs -/

/-- Whatever commands are given to a session, the class of storage buffers is the one that was
called for on opening. It goes with the extension exactly as long as the extension does not matter
or is as it was then, and decorations of structs go with the class. -/
theorem Opened.class_stays (ho : s.Opened) (hcs : s.Takes (fun _ => True) cs) :
    (s.performAll cs).version = s.version ∧
      (s.performAll cs).storageBufferClass =
        classOf s.version (s.hasExtension storageBufferExtension) ∧
      ((s.performAll cs).ClassFollows ↔ s.version.atLeast 1 3 ∨
        (s.performAll cs).hasExtension storageBufferExtension =
          s.hasExtension storageBufferExtension) ∧
      ∀ i a t, (s.performAll cs).perform (.decorateStorageBuffer i) = (.ok a, t) →
        t.contents = (s.performAll cs).contents.append .annotations [(Operation.decorate i
          (if s.version.atLeast 1 3 ∨ s.hasExtension storageBufferExtension then .block
            else .bufferBlock) []).words] := by
  obtain ⟨hversion, hclass⟩ := (ho.reachable.moves hcs).class_eq
  have hcall := hclass.trans ho.class_eq
  obtain ⟨m, hm⟩ := (ho.reachable.performAll hcs).sound
  refine ⟨hversion, hcall, ?_, fun i a t hrun => ?_⟩
  · rw [← hversion] at hcall ⊢
    exact classFollows_iff hcall
  · rw [hm.decorateStorageBuffer_contents hrun, hcall]
    simp only [classOf_eq_storageBuffer]

/-- The extension is asked for in a module of version 1.0. -/
def lateExtension : List Command := [.addExtension storageBufferExtension]

/-- The class does not follow, and structs are decorated as before. -/
theorem class_stays_lateExtension :
    ¬ ((create .never ⟨1, 0⟩ 0).performAll lateExtension).ClassFollows ∧
      (((create .never ⟨1, 0⟩ 0).performAll lateExtension).perform
          (.decorateStorageBuffer .one)).2.contents .annotations =
        [(Operation.decorate .one .bufferBlock []).words] := by
  obtain ⟨-, -, hfollows, hdecorated⟩ := (Opened.create .never ⟨1, 0⟩ 0).class_stays
    (show Takes (fun _ => True) _ lateExtension by decide +kernel)
  constructor
  · rw [hfollows]
    decide +kernel
  · exact (congrFun (hdecorated .one .done _ (Prod.ext (by decide +kernel) rfl)) _).trans
      (by decide +kernel)

/-- The class does not always follow the extensions, even if all commands are answered. -/
theorem class_misses_extension : ¬ ∀ (s : Session) (cs : List Command), s.Opened →
    s.Follows (fun s c => c.Answered s) cs → (s.performAll cs).ClassFollows := by
  intro h
  exact absurd (h _ lateExtension (.create .never ⟨1, 0⟩ 0) (by decide +kernel)) (by decide +kernel)

end Session

end SpirvModule
