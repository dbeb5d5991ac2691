import SpirvModule.Proofs.Course

/-!
# Looking up and scanning

Names, bindings, entry points and imports are looked up in the tables of the ledger. A
scan reads all instructions of the module instead, from its first word behind the header
to its last, and takes the first that fits. At every point of every run both answer the
same, if the scan passes over the instruction in the open bracket.

Results:
* `Fact.ofInstruction?_eq_some`: what an instruction tells.
* `told_about`, `first?_declared`: what instructions tell about a subject is read off them, and
  the first of it is what a scan finds.
* `Ledger.Holds.names`, `Ledger.Holds.sets`, …: what stands in the tables.
* `Reached.lookups_eq_scans`: the look-ups of a session are scans of its words.
* `Reached.locate?_iff_defines`: an id is located where an instruction defines it.
-/
namespace SpirvModule

/-! ## Scans -/

namespace Instruction

/-- The name that an instruction gives to `t`. -/
def nameOf? (t : Id) (i : Instruction) : Option String :=
  if i.opcode? = some .opName ∧ i.idOperand? 0 = some t then i.stringOperand? 1 else none

/-- The name that an instruction gives to a member of `t`. -/
def memberNameOf? (t : Id) (member : Word) (i : Instruction) : Option String :=
  if i.opcode? = some .opMemberName ∧ i.idOperand? 0 = some t ∧ i.operands[1]? = some member then
    i.stringOperand? 2
  else none

/-- The value that an instruction decorates `t` with. -/
def valueOf? (d : Decoration) (t : Id) (i : Instruction) : Option Word :=
  if i.opcode? = some .opDecorate ∧ i.idOperand? 0 = some t ∧ i.operands[1]? = some d.value then
    i.operands[2]?
  else none

/-- Whether an instruction declares `f` an entry point. -/
def declaresEntry (f : Id) (i : Instruction) : Prop :=
  i.opcode? = some .opEntryPoint ∧ i.idOperand? 1 = some f

instance (f : Id) (i : Instruction) : Decidable (i.declaresEntry f) :=
  inferInstanceAs (Decidable (_ ∧ _))

/-- The id that an instruction imports the instruction set `name` with. -/
def importOf? (name : String) (i : Instruction) : Option Id :=
  if i.opcode? = some .opExtInstImport ∧ i.stringOperand? 1 = some name then i.resultId? else none

end Instruction

/-! ## What an instruction tells -/

/-- The facts that an instruction tells, by its opcode and operands. -/
inductive Tells (i : Instruction) : Fact → Prop
  | set {t : Id} {v : Word} (h : i.valueOf? .descriptorSet t = some v) : Tells i (.set t v)
  | slot {t : Id} {v : Word} (h : i.valueOf? .binding t = some v) : Tells i (.slot t v)
  | name {t : Id} {text : String} (h : i.nameOf? t = some text) : Tells i (.name t none text)
  | memberName {t : Id} {member : Word} {text : String}
      (h : i.memberNameOf? t member = some text) : Tells i (.name t (some member) text)
  | extInstImport {name : String} {id : Id} (h : i.importOf? name = some id) :
      Tells i (.extInstImport name id)
  | entry {f : Id} (h : i.declaresEntry f) : Tells i (.entry f)

namespace Fact

theorem ofDecorate?_eq_some {i : Instruction} {f : Fact} :
    ofDecorate? i = some f ↔ ∃ t v, i.idOperand? 0 = some t ∧ i.operands[2]? = some v ∧
      ((i.operands[1]? = some Decoration.descriptorSet.value ∧ f = .set t v) ∨
        (i.operands[1]? = some Decoration.binding.value ∧ f = .slot t v)) := by
  have hne : Decoration.binding.value ≠ Decoration.descriptorSet.value := by decide
  unfold ofDecorate? Instruction.idOperand?
  rcases i.operands with _ | ⟨target, _ | ⟨d, _ | ⟨v, r⟩⟩⟩
  · simp
  · simp
  · simp
  cases ht : Id.ofWord? target with
  | none => simp [ht]
  | some t =>
    by_cases hset : d = Decoration.descriptorSet.value
    · simp [ht, hset, hne.symm, @eq_comm _ f]
    · by_cases hslot : d = Decoration.binding.value
      · simp [ht, hslot, hne, eq_comm]
      · simp [ht, hset, hslot]

theorem ofInstruction?_of_tells {i : Instruction} {f : Fact} (h : Tells i f) :
    ofInstruction? i = some f := by
  unfold ofInstruction?
  cases h with
  | set h =>
    obtain ⟨⟨hop, ht, hd⟩, hv⟩ := Option.ite_none_right_eq_some.mp h
    simp only [hop, if_true]
    exact ofDecorate?_eq_some.mpr ⟨_, _, ht, hv, .inl ⟨hd, rfl⟩⟩
  | slot h =>
    obtain ⟨⟨hop, ht, hd⟩, hv⟩ := Option.ite_none_right_eq_some.mp h
    simp only [hop, if_true]
    exact ofDecorate?_eq_some.mpr ⟨_, _, ht, hv, .inr ⟨hd, rfl⟩⟩
  | name h =>
    obtain ⟨⟨hop, ht⟩, hs⟩ := Option.ite_none_right_eq_some.mp h
    simp +decide only [hop, ht, hs, if_true, if_false, Option.bind_some, Option.map_some]
  | memberName h =>
    obtain ⟨⟨hop, ht, hm⟩, hs⟩ := Option.ite_none_right_eq_some.mp h
    simp +decide only [hop, ht, hm, hs, if_true, if_false, Option.bind_some, Option.map_some]
  | extInstImport h =>
    obtain ⟨⟨hop, hs⟩, hid⟩ := Option.ite_none_right_eq_some.mp h
    simp +decide only [hop, hs, hid, if_true, if_false, Option.bind_some, Option.map_some]
  | entry h =>
    simp +decide only [h.1, h.2, if_true, if_false, Option.map_some]

/-- What an instruction tells is told by its opcode and operands. -/
theorem ofInstruction?_eq_some {i : Instruction} {f : Fact} :
    ofInstruction? i = some f ↔ Tells i f := by
  refine ⟨fun h => ?_, ofInstruction?_of_tells⟩
  unfold ofInstruction? at h
  split at h
  · cases h
  rename_i op hop
  split at h
  · rename_i heq
    obtain ⟨t, v, ht, hv, ⟨hd, rfl⟩ | ⟨hd, rfl⟩⟩ := ofDecorate?_eq_some.mp h
    · exact .set (Option.ite_none_right_eq_some.mpr ⟨⟨heq ▸ hop, ht, hd⟩, hv⟩)
    · exact .slot (Option.ite_none_right_eq_some.mpr ⟨⟨heq ▸ hop, ht, hd⟩, hv⟩)
  split at h
  · rename_i heq
    obtain ⟨t, ht, h⟩ := Option.bind_eq_some_iff.mp h
    obtain ⟨text, htext, rfl⟩ := Option.map_eq_some_iff.mp h
    exact .name (Option.ite_none_right_eq_some.mpr ⟨⟨heq ▸ hop, ht⟩, htext⟩)
  split at h
  · rename_i heq
    obtain ⟨t, ht, h⟩ := Option.bind_eq_some_iff.mp h
    obtain ⟨member, hm, h⟩ := Option.bind_eq_some_iff.mp h
    obtain ⟨text, htext, rfl⟩ := Option.map_eq_some_iff.mp h
    exact .memberName (Option.ite_none_right_eq_some.mpr ⟨⟨heq ▸ hop, ht, hm⟩, htext⟩)
  split at h
  · rename_i heq
    obtain ⟨id, hid, h⟩ := Option.bind_eq_some_iff.mp h
    obtain ⟨name, hname, rfl⟩ := Option.map_eq_some_iff.mp h
    exact .extInstImport (Option.ite_none_right_eq_some.mpr ⟨⟨heq ▸ hop, hname⟩, hid⟩)
  split at h
  · rename_i heq
    obtain ⟨id, hid, rfl⟩ := Option.map_eq_some_iff.mp h
    exact .entry ⟨heq ▸ hop, hid⟩
  · cases h

end Fact

/-- The values that are read off instructions, with the offsets of the instructions. -/
def declared {α : Type} (read : Instruction → Option α) (l : List Instruction) : Declarations α :=
  l.filterMap fun i => (read i).map (i.offset, ·)

section
variable {α : Type} {read : Instruction → Option α} {l : List Instruction}

theorem declared_cons (read : Instruction → Option α) (i : Instruction) (l : List Instruction) :
    declared read (i :: l) = match read i with
      | none => declared read l
      | some v => (i.offset, v) :: declared read l := by
  cases h : read i <;> simp [declared, h]

theorem mem_declared {e : Nat × α} :
    e ∈ declared read l ↔ ∃ i ∈ l, read i = some e.2 ∧ i.offset = e.1 := by
  simp only [declared, List.mem_filterMap, Option.map_eq_some_iff, Prod.ext_iff]
  constructor
  · rintro ⟨i, hi, v, hv, ho, rfl⟩
    exact ⟨i, hi, hv, ho⟩
  · rintro ⟨i, hi, hv, ho⟩
    exact ⟨i, hi, e.2, hv, ho, rfl⟩

/-- Something is declared exactly if it is read off some instruction. -/
theorem isEmpty_declared : (declared read l).isEmpty = false ↔ ∃ i ∈ l, (read i).isSome := by
  simp only [List.isEmpty_eq_false_iff_exists_mem, mem_declared, Option.isSome_iff_exists]
  constructor
  · rintro ⟨e, i, hi, hv, -⟩
    exact ⟨i, hi, e.2, hv⟩
  · rintro ⟨i, hi, v, hv⟩
    exact ⟨(i.offset, v), i, hi, hv, rfl⟩

/-- What holds is what a scan of the instructions finds. -/
theorem first?_declared (read : Instruction → Option α) (l : List Instruction) :
    Declarations.first? (declared read l) = l.findSome? read := by
  rw [Declarations.first?, declared, List.head?_filterMap, List.map_findSome?]
  refine congrArg (l.findSome? ·) (funext fun i => ?_)
  cases h : read i <;> simp [h]

/-- What instructions tell about a subject is read off them, where facts `tell v` about it carry a
value. -/
theorem told_about (subject : Subject) (tell : α → Fact)
    (hs : ∀ f, f.subject = subject ↔ ∃ v, f = tell v)
    (hread : ∀ i v, read i = some v ↔ Tells i (tell v)) (l : List Instruction) :
    (told l).filter (·.2.subject = subject) = Declarations.map tell (declared read l) := by
  induction l with
  | nil => rfl
  | cons i r ih =>
    rw [told_cons, declared_cons]
    cases hv : read i with
    | some v =>
      have hf := Fact.ofInstruction?_eq_some.mpr ((hread i v).mp hv)
      have hsub : (tell v).subject = subject := (hs (tell v)).mpr ⟨v, rfl⟩
      rw [hf, List.filter_cons_of_pos (by simpa using hsub), ih]
      rfl
    | none =>
      -- what the instruction tells, if anything, is about something else
      cases hf : Fact.ofInstruction? i with
      | none => exact ih
      | some f =>
        rw [List.filter_cons_of_neg, ih]
        intro hsub
        obtain ⟨v, rfl⟩ := (hs f).mp (of_decide_eq_true hsub)
        cases hv.symm.trans ((hread i v).mpr (Fact.ofInstruction?_eq_some.mp hf))

end

/-! ## Order of ids -/

namespace Id

instance : Std.IsLinearOrder Id := .of_le
  ⟨fun _ _ h h' => ext_value (UInt32.le_antisymm h h')⟩
  ⟨fun h h' => UInt32.le_trans h h'⟩
  ⟨fun a b => UInt32.le_total a.value b.value⟩

theorem min_def (a b : Id) : min a b = if a ≤ b then a else b := rfl

instance : Std.LawfulOrderMin Id where
  min_eq_or a b := by
    rw [min_def]
    split <;> simp
  le_min_iff a b c := by
    rw [min_def]
    split
    · rename_i h
      exact ⟨fun hb => ⟨hb, UInt32.le_trans hb h⟩, And.left⟩
    · rename_i h
      have h := (UInt32.le_total b.value c.value).resolve_left h
      exact ⟨fun hc => ⟨UInt32.le_trans hc h, hc⟩, And.right⟩

end Id

/-! ## The tables of an index -/

namespace Ledger

open Table (under)

variable {x : Ledger} {l : List Instruction} (hx : x.Holds (told l))
include hx

/-- What stands under the key of a subject is what is read off the instructions. -/
theorem Holds.eq_declared {α : Type} {u : Subject} {tell : α → Fact} {d : Declarations α}
    {read : Instruction → Option α} (hd : x.about u = Declarations.map tell d)
    (htell : Function.Injective tell) (hs : ∀ f, f.subject = u ↔ ∃ v, f = tell v)
    (hread : ∀ i v, read i = some v ↔ Tells i (tell v)) : d = declared read l := by
  have habout : x.about u = Declarations.map tell (declared read l) :=
    (hx.about u).trans (told_about u tell hs hread l)
  exact Declarations.map_injective htell (hd.symm.trans habout)

theorem Holds.names (t : Id) : under x.names ⟨t, none⟩ = declared (·.nameOf? t) l := by
  refine hx.eq_declared (u := .name t none) rfl (fun _ _ h => (Fact.name.inj h).2.2)
    (fun f => ?_) fun i text => ?_
  · cases f <;> simp [Fact.subject]
  · exact ⟨.name, fun h => by cases h; assumption⟩

theorem Holds.memberNames (t : Id) (member : Word) :
    under x.names ⟨t, some member⟩ = declared (·.memberNameOf? t member) l := by
  refine hx.eq_declared (u := .name t (some member)) rfl (fun _ _ h => (Fact.name.inj h).2.2)
    (fun f => ?_) fun i text => ?_
  · cases f <;> simp [Fact.subject]
  · exact ⟨.memberName, fun h => by cases h; assumption⟩

theorem Holds.sets (t : Id) :
    (under x.bindings t).sets = declared (·.valueOf? .descriptorSet t) l := by
  refine hx.eq_declared (u := .set t) rfl (fun _ _ h => (Fact.set.inj h).2) (fun f => ?_)
    fun i v => ?_
  · cases f <;> simp [Fact.subject]
  · exact ⟨.set, fun h => by cases h; assumption⟩

theorem Holds.slots (t : Id) : (under x.bindings t).slots = declared (·.valueOf? .binding t) l := by
  refine hx.eq_declared (u := .slot t) rfl (fun _ _ h => (Fact.slot.inj h).2) (fun f => ?_)
    fun i v => ?_
  · cases f <;> simp [Fact.subject]
  · exact ⟨.slot, fun h => by cases h; assumption⟩

theorem Holds.imports (name : String) : under x.imports name = declared (·.importOf? name) l := by
  refine hx.eq_declared (u := .extInstImport name) rfl (fun _ _ h => (Fact.extInstImport.inj h).2)
    (fun f => ?_) fun i id => ?_
  · cases f <;> simp [Fact.subject]
  · exact ⟨.extInstImport, fun h => by cases h; assumption⟩

theorem Holds.entries (f : Id) :
    under x.entries f = declared (fun i => if i.declaresEntry f then some () else none) l := by
  refine hx.eq_declared (u := .entry f) rfl (fun _ _ _ => rfl) (fun g => ?_) fun i v => ?_
  · cases g <;> simp [Fact.subject]
  · rw [Option.ite_none_right_eq_some, and_iff_left rfl]
    exact ⟨.entry, fun h => by cases h; assumption⟩

end Ledger

/-! ## The look-ups of an index -/

namespace Index

variable {x : Index} {l : List Instruction}

theorem name?_eq (x : Index) (t : Id) (member : Option Word) :
    x.name? t member = Declarations.first? (Table.under x.ledger.names ⟨t, member⟩) := by
  rw [name?, Table.under]
  cases x.ledger.names[NameKey.mk t member]? <;> rfl

theorem imported?_eq (x : Index) (name : String) :
    x.imported? name = Declarations.first? (Table.under x.ledger.imports name) := by
  rw [imported?, Table.under]
  cases x.ledger.imports[name]? <;> rfl

theorem entryPoint?_eq (x : Index) (f : Id) :
    x.entryPoint? f = (Table.under x.ledger.entries f).head?.map (·.1) := by
  rw [entryPoint?, Table.under]
  cases x.ledger.entries[f]? <;> rfl

theorem binding_eq (x : Index) (t : Id) :
    x.binding t = (Table.under x.ledger.bindings t).binding := by
  rw [binding, Table.under]
  cases x.ledger.bindings[t]? <;> rfl

theorem name?_eq_scan (hx : x.ledger.Holds (told l)) (t : Id) :
    x.name? t none = l.findSome? (·.nameOf? t) := by
  rw [name?_eq, hx.names, first?_declared]

theorem memberName?_eq_scan (hx : x.ledger.Holds (told l)) (t : Id) (member : Word) :
    x.name? t (some member) = l.findSome? (·.memberNameOf? t member) := by
  rw [name?_eq, hx.memberNames, first?_declared]

theorem imported?_eq_scan (hx : x.ledger.Holds (told l)) (name : String) :
    x.imported? name = l.findSome? (·.importOf? name) := by
  rw [imported?_eq, hx.imports, first?_declared]

theorem binding_eq_scan (hx : x.ledger.Holds (told l)) (t : Id) :
    x.binding t = ⟨(l.findSome? (·.valueOf? .descriptorSet t)).getD Binding.unbound.set,
      (l.findSome? (·.valueOf? .binding t)).getD Binding.unbound.slot⟩ := by
  rw [binding_eq, BindingDecorations.binding, hx.sets, hx.slots, first?_declared, first?_declared]

theorem findSome?_ite {α β : Type} (p : α → Prop) [DecidablePred p] (f : α → β) (l : List α) :
    l.findSome? (fun a => if p a then some (f a) else none) = (l.find? p).map f := by
  induction l with
  | nil => rfl
  | cons a r ih =>
    rw [List.findSome?_cons, List.find?_cons]
    by_cases h : p a <;> simp [h, ih]

theorem entryPoint?_eq_scan (hx : x.ledger.Holds (told l)) (f : Id) :
    x.entryPoint? f = (l.find? (·.declaresEntry f)).map (·.offset) := by
  rw [entryPoint?_eq, hx.entries, declared, List.head?_filterMap, List.map_findSome?,
    ← findSome?_ite]
  refine congrArg (l.findSome? ·) (funext fun i => ?_)
  simp only [Option.map_if, Function.comp_apply]

/-- The ids that some instruction gives a name to. -/
theorem mem_named (hx : x.ledger.Holds (told l)) (text : String) (t : Id) :
    t ∈ (x.ledger.names.toList.filter fun e => e.1.member.isNone && e.2.any (·.2 = text)).map
      (·.1.target) ↔ ∃ i ∈ l, i.nameOf? t = some text := by
  have hnames := hx.names t
  rw [Table.under] at hnames
  simp only [List.mem_map, List.mem_filter, Bool.and_eq_true, Option.isNone_iff_eq_none,
    List.any_eq_true, decide_eq_true_eq]
  constructor
  · rintro ⟨⟨⟨t', member⟩, d⟩, ⟨hd, rfl, e, he, rfl⟩, rfl⟩
    rw [Std.ExtTreeMap.mem_toList_iff_getElem?_eq_some.mp hd, Option.getD_some] at hnames
    obtain ⟨i, hi, hv, -⟩ := mem_declared.mp (hnames ▸ he)
    exact ⟨i, hi, hv⟩
  · rintro ⟨i, hi, hv⟩
    have he : (i.offset, text) ∈ declared (·.nameOf? t) l := mem_declared.mpr ⟨i, hi, hv, rfl⟩
    rw [← hnames] at he
    cases hd : x.ledger.names[NameKey.mk t none]? with
    | none =>
      rw [hd] at he
      cases he
    | some d =>
      rw [hd] at he
      have hmem : (NameKey.mk t none, d) ∈ x.ledger.names.toList :=
        Std.ExtTreeMap.mem_toList_iff_getElem?_eq_some.mpr hd
      exact ⟨_, ⟨hmem, rfl, _, he, rfl⟩, rfl⟩

theorem named?_eq_some (hx : x.ledger.Holds (told l)) (text : String) (t : Id) :
    x.named? text = some t ↔ (∃ i ∈ l, i.nameOf? t = some text) ∧
      ∀ u, (∃ i ∈ l, i.nameOf? u = some text) → t ≤ u := by
  simp only [named?, List.min?_eq_some_iff, mem_named hx]

theorem named?_eq_none (hx : x.ledger.Holds (told l)) (text : String) :
    x.named? text = none ↔ ∀ t, ∀ i ∈ l, i.nameOf? t ≠ some text := by
  rw [named?, List.min?_eq_none_iff, List.eq_nil_iff_forall_not_mem]
  simp only [mem_named hx, not_exists, not_and]

/-- The bindings are those of the ids with both parts. -/
theorem mem_bindings (hx : x.ledger.Holds (told l)) (t : Id) (b : Binding) :
    (t, b) ∈ x.bindings ↔ b = x.binding t ∧
      (∃ i ∈ l, (i.valueOf? .descriptorSet t).isSome) ∧
      ∃ i ∈ l, (i.valueOf? .binding t).isSome := by
  rw [← isEmpty_declared, ← isEmpty_declared, ← hx.sets, ← hx.slots, binding_eq, bindings,
    Table.under]
  simp only [List.mem_map, List.mem_filter, BindingDecorations.isComplete, Bool.and_eq_true,
    Bool.not_eq_true', Prod.ext_iff]
  constructor
  · rintro ⟨⟨t', d⟩, ⟨hd, hcomplete⟩, rfl, rfl⟩
    rw [Std.ExtTreeMap.mem_toList_iff_getElem?_eq_some.mp hd]
    exact ⟨rfl, hcomplete⟩
  · rintro ⟨rfl, hcomplete⟩
    cases hd : x.ledger.bindings[t]? with
    | none =>
      rw [hd] at hcomplete
      cases hcomplete.1
    | some d =>
      rw [hd] at hcomplete
      exact ⟨(t, d), ⟨Std.ExtTreeMap.mem_toList_iff_getElem?_eq_some.mpr hd, hcomplete⟩, rfl, rfl⟩

/-- Bindings come in the order of ids, one for each. -/
theorem bindings_ascending (x : Index) :
    x.bindings.Pairwise fun d e => d.1.value < e.1.value := by
  refine List.pairwise_map.mpr (List.Pairwise.filter _ ?_)
  refine List.Pairwise.imp (fun {d e} h => ?_) Std.ExtTreeMap.ordered_keys_toList
  exact Std.compare_eq_lt.mp (show compare d.1.value e.1.value = .lt from h)

end Index

/-! ## The look-ups of a session -/

namespace Session

/-- All instructions of the words, read from the header on, but for the one in the open bracket. -/
def scanned (s : Session) : List Instruction :=
  (scan headerWords (s.words.drop headerWords)).filter fun i => !s.brackets i.offset

/-- Whether the look-ups of a session answer as scans of the instructions `l` do. -/
structure Scans (s : Session) (l : List Instruction) : Prop where
  name : ∀ t, s.name? t = l.findSome? (·.nameOf? t)
  memberName : ∀ t member, s.memberName? t member = l.findSome? (·.memberNameOf? t member)
  /-- The id that is found is the lowest with the name. -/
  findByName : ∀ text t, s.findByName? text = some t ↔ (∃ i ∈ l, i.nameOf? t = some text) ∧
    ∀ u, (∃ i ∈ l, i.nameOf? u = some text) → t ≤ u
  findByName_none : ∀ text, s.findByName? text = none ↔ ∀ t, ∀ i ∈ l, i.nameOf? t ≠ some text
  binding : ∀ t, s.binding t = ⟨(l.findSome? (·.valueOf? .descriptorSet t)).getD 0,
    (l.findSome? (·.valueOf? .binding t)).getD 0xFFFFFFFF⟩
  /-- Bindings come in the order of ids, and are those of the ids with both parts. -/
  bindings_ascending : s.bindings.Pairwise fun d e => d.1.value < e.1.value
  mem_bindings : ∀ t b, (t, b) ∈ s.bindings ↔ b = s.binding t ∧
    (∃ i ∈ l, (i.valueOf? .descriptorSet t).isSome) ∧ ∃ i ∈ l, (i.valueOf? .binding t).isSome
  entry : ∀ f, s.locateEntry? f = (l.find? (·.declaresEntry f)).map (·.offset)
  imported : ∀ name, s.index.imported? name = l.findSome? (·.importOf? name)

variable {s : Session} {m : Outline} {l : List Instruction}

theorem Shows.scanned_eq_live (h : s.Shows m) : s.scanned = s.live := by
  rw [scanned, live, h.body, scan_flatten _ fun c => m.isChunk_of_mem_chunks, h.listing_eq]

theorem scans_of_ledger (h : s.index.ledger.Holds (told l)) : s.Scans l where
  name t := Index.name?_eq_scan h t
  memberName t member := Index.memberName?_eq_scan h t member
  findByName text t := Index.named?_eq_some h text t
  findByName_none text := Index.named?_eq_none h text
  binding t := Index.binding_eq_scan h t
  bindings_ascending := s.index.bindings_ascending
  mem_bindings t b := Index.mem_bindings h t b
  entry f := Index.entryPoint?_eq_scan h f
  imported name := Index.imported?_eq_scan h name

end Session

/-- Outside a bracket the index answers what a scan of all instructions does. -/
theorem Reached.scans_listing {s : Session} (h : Reachable s) (hb : s.bracket = none) :
    s.Scans s.listing := by
  rw [← Session.live_of_none hb]
  exact Session.scans_of_ledger h.reflects.holds

/-- At every point of every run the index answers what a scan of the module does. -/
theorem Reached.lookups_eq_scans {s : Session} (h : Reachable s) : s.Scans s.scanned := by
  obtain ⟨m, hm⟩ := h.sound
  rw [hm.shows.scanned_eq_live]
  exact Session.scans_of_ledger h.reflects.holds

/-- A name is given twice, and the first is in the open bracket. -/
def twoNames : List Command := [.setName .one "a", .setName .one "b", .beginModify 5]

theorem lookups_eq_scans_twoNames :
    Reachable ((Session.create .never ⟨1, 3⟩ 0).performAll twoNames) ∧
      ((Session.create .never ⟨1, 3⟩ 0).performAll twoNames).Scans
        ((Session.create .never ⟨1, 3⟩ 0).performAll twoNames).scanned := by
  have h : Reachable ((Session.create .never ⟨1, 3⟩ 0).performAll twoNames) :=
    Reached.performAll (.create _ _ _ trivial) (by decide +kernel)
  exact ⟨h, h.lookups_eq_scans⟩

/-! ## Definitions -/

namespace Session

theorem mem_live {s : Session} {i : Instruction} :
    i ∈ s.live ↔ (∃ sec, i ∈ s.instructions sec) ∧ s.brackets i.offset = false := by
  simp [live, listing, Section.mem_all]

end Session

/-- Where an id is located, there stands an instruction that defines it, and not in the open
bracket. As long as no two instructions outside the bracket define the same id, all that are
defined there are located. -/
theorem Reached.locate?_iff_defines {s : Session} (h : Reachable s) :
    (∀ id p, s.locate? id = some p → ∃ sec, ∃ i ∈ s.instructions sec,
      i.offset = p ∧ s.brackets p = false ∧ i.resultId? = some id) ∧
    (Reached Session.IdsDistinct s → ∀ sec, ∀ i ∈ s.instructions sec,
      s.brackets i.offset = false → ∀ id, i.resultId? = some id →
        s.locate? id = some i.offset) := by
  constructor
  · intro id p hp
    obtain ⟨i, hi, rfl, hid⟩ := h.reflects.exists_of_definition id p hp
    obtain ⟨⟨sec, hsec⟩, hb⟩ := Session.mem_live.mp hi
    exact ⟨sec, i, hsec, rfl, hb, hid⟩
  · intro hd sec i hi hb id hid
    exact hd.locates i (Session.mem_live.mpr ⟨⟨sec, hi⟩, hb⟩) id hid

/-- Two types are declared, and the id of the first is changed in a bracket. -/
def renumbered : List Command :=
  [.declareType (.scalar .bool), .declareType (.scalar .void), .beginModify 5,
    .operands 5 (.poke 0 fun _ => 9), .endModify 5]

theorem locate?_iff_defines_renumbered :
    Reached Session.IdsDistinct ((Session.create .never ⟨1, 3⟩ 0).performAll renumbered) ∧
      ((Session.create .never ⟨1, 3⟩ 0).performAll renumbered).locate? ⟨9, by decide⟩ = some 5 := by
  have h : Reached Session.IdsDistinct
      ((Session.create .never ⟨1, 3⟩ 0).performAll renumbered) :=
    Reached.performAll (.create _ _ _ (by decide +kernel)) (by decide +kernel)
  exact ⟨h, h.reachable.locate?_iff_defines.2 h .types ⟨5, Word.lead 2 20, [9]⟩
    (by decide +kernel) (by decide +kernel) _ (by decide +kernel)⟩

end SpirvModule
