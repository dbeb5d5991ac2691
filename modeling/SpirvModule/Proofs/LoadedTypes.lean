import SpirvModule.Proofs.Persistence
import SpirvModule.Proofs.Keys

/-!
# Types of a module that opens

Which types a module declares is said by its words alone. The table of types is filled in one pass
over them, where each instruction is looked at with the types that were seen before it. That is
enough when components come first: then the table holds the types that the words declare, each one
is found under its key, and to declare it again does nothing.

Results:
* `ComponentsFirst.ordered`, `ComponentsFirst.mem_of_component`: components that come first are
  there, and nothing behind an instruction defines its component.
* `Tidy.wellBuilt`: a tidy list of instructions is well built.
* `Session.types_found`: what a session finds when it opens a module with tidy instructions.
-/
namespace SpirvModule

/-- Whether every component is defined in front of the instruction it belongs to, or is `known`. -/
def ComponentsFirst (known : List Id) : List Instruction → Prop
  | [] => True
  | i :: r => (∀ c ∈ i.component?, c ∈ known) ∧ ComponentsFirst (known ++ i.resultId?.toList) r

instance decidableComponentsFirst :
    ∀ (known : List Id) (l : List Instruction), Decidable (ComponentsFirst known l)
  | _, [] => isTrue trivial
  | known, i :: r =>
    have := decidableComponentsFirst (known ++ i.resultId?.toList) r
    inferInstanceAs (Decidable ((∀ c ∈ i.component?, c ∈ known) ∧
      ComponentsFirst (known ++ i.resultId?.toList) r))

/-- Whether ids are defined once, components are defined before they are used, and no key is that
of two ids. -/
structure Tidy (l : List Instruction) : Prop where
  distinct : (definedIds l).Nodup
  components : ComponentsFirst [] l
  single : ∀ k c d, HasKey l c k → HasKey l d k → c = d

variable {l : List Instruction} {i : Instruction} {known : List Id} {id c : Id} {k : TypeKey}

theorem definedIds_cons_eq (i : Instruction) (r : List Instruction) :
    definedIds (i :: r) = i.resultId?.toList ++ definedIds r := by
  rw [definedIds_cons]
  cases i.resultId? <;> rfl

namespace ComponentsFirst

theorem mem_of_component (h : ComponentsFirst known l) (hi : i ∈ l) (hc : c ∈ i.component?) :
    c ∈ known ++ definedIds l := by
  induction l generalizing known with
  | nil => cases hi
  | cons j r ih =>
    rw [definedIds_cons_eq, ← List.append_assoc]
    rcases List.mem_cons.mp hi with rfl | hi
    · exact List.mem_append_left _ (List.mem_append_left _ (h.1 c hc))
    · exact ih h.2 hi

/-- Where ids are defined once, nothing behind an instruction defines its component. -/
theorem ordered (h : ComponentsFirst known l) (hd : (known ++ definedIds l).Nodup) : Ordered l := by
  induction l generalizing known with
  | nil => exact .nil
  | cons i r ih =>
    rw [definedIds_cons_eq, ← List.append_assoc] at hd
    refine List.pairwise_cons.mpr ⟨fun j hj c hc hjc => ?_, ih h.2 hd⟩
    exact List.disjoint_of_nodup_append hd (List.mem_append_left _ (h.1 c hc))
      (mem_definedIds hj hjc)

end ComponentsFirst

namespace Tidy

theorem wellBuilt (h : Tidy l) : WellBuilt l :=
  ⟨h.distinct, fun _ hi _ hc => h.components.mem_of_component hi hc,
    fun _ _ c _ k hk d hd => h.single k d c hd hk⟩

theorem ordered (h : Tidy l) : Ordered l := h.components.ordered h.distinct

/-- Types of different opcodes have different keys. -/
theorem of_sole (hd : (definedIds l).Nodup) (hc : ComponentsFirst [] l)
    (hs : ∀ c ∈ definedIds l, Sole l c) : Tidy l :=
  ⟨hd, hc, fun _ c _ hk hk' => ((hs c hk.defined).unique _ hk _ hk').symm⟩

end Tidy

namespace Session

variable {policy : StructPolicy} {ws : List Word} {s : Session}

/-- The sections of a module hold the instructions that stand in its words. -/
theorem found_eq {v : ModuleView} (hv : ModuleView.parse ws = .ok v) :
    found ws v.layout = moduleInstructions ws := by
  obtain ⟨-, m, -, hread⟩ := parse_ok hv
  have h := hread { create .never ⟨1, 0⟩ 0 with words := ws, layout := v.layout } rfl rfl rfl
  have hbody : ws.drop headerWords = m.contents.chunks.flatten := h.body
  rw [moduleInstructions, hbody, scan_flatten _ fun c => m.isChunk_of_mem_chunks, ← h.listing_eq]
  rfl

/-- The index of a session that opens a module is made of the instructions in its words. -/
theorem index_ofWords (hs : ofWords policy ws = .ok s) :
    s.index = Index.ofInstructions policy (moduleInstructions ws) := by
  obtain ⟨v, fresh, hv, -, rfl⟩ := ofWords_ok hs
  rw [← found_eq hv]

/-- A session that opens a module with tidy instructions finds a type exactly if the instruction
that defines its id declares it, and to declare it again answers that id and changes nothing. -/
theorem types_found (hs : ofWords policy ws = .ok s) (ht : Tidy (moduleInstructions ws))
    (k : TypeKey) (id : Id) :
    (s.getType? k = some id ↔ HasKey (moduleInstructions ws) id k) ∧
      (s.getType? k = some id → s.perform (.declareType k) = (.ok (.id id), s)) := by
  have hagree : s.index.types.Agrees (moduleInstructions ws) := by
    rw [index_ofWords hs]
    exact Index.agrees_ofInstructions policy ht.wellBuilt ht.ordered
  have hfound (id : Id) (h : s.getType? k = some id) : HasKey (moduleInstructions ws) id k :=
    hagree.sound id k ((hagree.linked id k).mpr h)
  refine ⟨⟨hfound id, fun h => ?_⟩, perform_declareType⟩
  -- the key is recorded for some id, and that can be no other one
  obtain ⟨d, hd⟩ := Option.isSome_iff_exists.mp (hagree.complete id k h)
  rw [ht.single k id d h (hfound d hd)]
  exact hd

end Session

/-- A module with a float, a vector of it, a matrix of that, and an image that is sampled through a
pointer. -/
def sampledModule : List Word :=
  [magic, Version.word ⟨1, 3⟩, 0, 7, 0] ++
    [⟨.opTypeFloat, [1, 32]⟩, ⟨.opTypeVector, [2, 1, 4]⟩, ⟨.opTypeMatrix, [3, 2, 4]⟩,
      ⟨.opTypeImage, [4, 1, 1, 0, 0, 0, 1, 0]⟩, ⟨.opTypeSampledImage, [5, 4]⟩,
      (⟨.opTypePointer, [6, 0, 5]⟩ : Operation)].flatMap Operation.words

theorem types_found_sampledModule :
    Tidy (moduleInstructions sampledModule) ∧ ∃ s, Session.ofWords .never sampledModule = .ok s ∧
      HasKey (moduleInstructions sampledModule) ⟨3, by decide⟩ (.matrix ⟨⟨.float 32, 4⟩, 4⟩) ∧
      s.perform (.declareType (.matrix ⟨⟨.float 32, 4⟩, 4⟩)) = (.ok (.id ⟨3, by decide⟩), s) := by
  have ht : Tidy (moduleInstructions sampledModule) :=
    .of_sole (by decide +kernel) (by decide +kernel) (by decide +kernel)
  have hopens : (Session.ofWords .never sampledModule).isOk := by decide +kernel
  have hkey : (Session.ofWords .never sampledModule).toOption.bind
      (·.getType? (.matrix ⟨⟨.float 32, 4⟩, 4⟩)) = some ⟨3, by decide⟩ := by decide +kernel
  cases hs : Session.ofWords .never sampledModule with
  | error e =>
    rw [hs] at hopens
    cases hopens
  | ok s =>
    rw [hs] at hkey
    obtain ⟨hiff, hdeclare⟩ := Session.types_found hs ht _ _
    exact ⟨ht, s, rfl, hiff.mp hkey, hdeclare hkey⟩

end SpirvModule
