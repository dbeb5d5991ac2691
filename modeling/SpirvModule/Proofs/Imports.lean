import SpirvModule.Proofs.Declaring
import SpirvModule.Proofs.Literals

/-!
# Imports

An instruction set is imported once: its id is looked up by its name before it is imported. But
what is looked up is the name that was asked for, and what is found is what was read back of it, up
to its first NUL. A name that has one is never found, and stands for the part in front of it instead.

* `Contents.imported?`: the id that an instruction set is imported with, by the words alone.
* `Operation.importOf?_extInstImport`: the name under which an import is found.

Results:
* `Shows.imported?_eq`: imports are looked up in their own section.
* `importExtInst_yields`: an import is found, or appended with the next id.
* `Reached.imported?_legible`: what is found has no NUL in its name.
* `Reached.imports_follow_names`: when two imports have the same id.
-/
namespace SpirvModule

open Session

/-! ## Names -/

theorem Literal.pack_length_pos (name : String) : 0 < (pack name).length := by
  unfold pack
  fun_cases packBytes (Text.encode name) <;> simp

/-- A string that is written behind one other operand is read up to its first NUL. -/
theorem Operation.stringOperand?_pack (p : Nat) (op : Opcode) (w : Word) (text : String) :
    (Instruction.ofChunk p (words ⟨op, w :: Literal.pack text⟩)).stringOperand? 1 =
      some (Literal.upToNul text) := by
  have hlen : 1 < (w :: Literal.pack text).length := by simpa using Literal.pack_length_pos text
  rw [← Literal.unpack_pack text [], List.append_nil]
  exact if_pos hlen

theorem Instruction.importOf?_eq_some {i : Instruction} {name : String} {a : Id} :
    i.importOf? name = some a ↔ i.opcode? = some .opExtInstImport ∧
      i.stringOperand? 1 = some name ∧ i.resultId? = some a := by
  rw [importOf?, Option.ite_none_right_eq_some, and_assoc]

/-- An import that is written is read under its name up to the first NUL. -/
theorem Operation.importOf?_extInstImport (p : Nat) (i : Id) (name name' : String) :
    (Instruction.ofChunk p (extInstImport i name).words).importOf? name' =
      if name' = Literal.upToNul name then some i else none := by
  have hop : (Instruction.ofChunk p (extInstImport i name).words).opcode? =
      some .opExtInstImport := (extInstImport i name).opcode?_words
  have hid := (resultId?_words p (extInstImport i name)).trans (Edit.resultId?_extInstImport i name)
  have hname : (Instruction.ofChunk p (extInstImport i name).words).stringOperand? 1 =
      some (Literal.upToNul name) := stringOperand?_pack p .opExtInstImport i.value name
  rw [Instruction.importOf?, hid, hname]
  simp only [Option.some.injEq, eq_comm (a := Literal.upToNul name)]
  exact if_congr (and_iff_right hop) rfl rfl

/-! ## The section of imports -/

/-- The id that the instruction set `name` is first imported with. -/
def Contents.imported? (m : Contents) (name : String) : Option Id :=
  (m .extInstImports).findSome? fun c => (Instruction.ofChunk 0 c).importOf? name

/-- Imports are at home in one section. -/
theorem Fits.importOf?_eq_none {sec : Section} {c : List Word} (hc : Fits sec c)
    (hsec : sec ≠ .extInstImports) (p : Nat) (name : String) :
    (Instruction.ofChunk p c).importOf? name = none := by
  rw [Instruction.importOf?, if_neg]
  rintro ⟨hop, -⟩
  exact Opcode.home?_ne (hc.2 _ hop) hsec (by decide +kernel)

/-- Where an import stands does not matter. -/
theorem findSome?_importOf?_place (p : Nat) (cs : List (List Word)) (name : String) :
    (place p cs).findSome? (·.importOf? name) =
      cs.findSome? fun c => (Instruction.ofChunk 0 c).importOf? name := by
  induction cs generalizing p with
  | nil => rfl
  | cons c cs ih =>
    rw [place_cons, List.findSome?_cons, List.findSome?_cons, ih]
    rfl

theorem Contents.imported?_append (m : Contents) (c : List Word) (name : String) :
    (m.append .extInstImports [c]).imported? name =
      (m.imported? name).or ((Instruction.ofChunk 0 c).importOf? name) := by
  rw [imported?, append, Function.update_self, List.findSome?_append, List.findSome?_singleton]
  rfl

/-- No other section than their own is looked at for imports. -/
theorem Session.Shows.imported?_eq {s : Session} {m : Outline} (h : s.Shows m)
    (hb : s.bracket = none) (hl : s.index.ledger.Holds (told s.live)) (name : String) :
    s.index.imported? name = s.contents.imported? name := by
  have hother {l : List Section} (hl : .extInstImports ∉ l) :
      (l.flatMap m.contents).findSome? (fun c => (Instruction.ofChunk 0 c).importOf? name) =
        none := by
    rw [List.findSome?_eq_none_iff]
    intro c hc
    obtain ⟨sec, hsec, hc⟩ := List.mem_flatMap.mp hc
    exact (m.fits sec c hc).importOf?_eq_none (fun heq => hl (heq ▸ hsec)) 0 name
  rw [Index.imported?_eq_scan hl, live_of_none hb, h.listing_eq, findSome?_importOf?_place,
    m.contents.chunks_eq .extInstImports, List.findSome?_append, List.findSome?_append,
    Contents.front, Contents.back, hother (Section.not_mem_before _),
    hother (Section.not_mem_after _), h.contents_eq]
  simp [Contents.imported?]

namespace Edit

variable {s : Session} {m : Outline}

/-- An import is found, or appended with the next id. -/
theorem importExtInst_yields (h : s.Sound m) (name : String) :
    (importExtInst name).Yields s fun i t =>
      (s.index.imported? name = some i ∧ t = s) ∨
      (s.index.imported? name = none ∧ s.Editable ∧
        s.GrowsFresh .extInstImports (.extInstImport · name) i t) := by
  refine yields_get ?_
  split
  · exact yields_pure (.inl ⟨‹_›, rfl⟩)
  · rename_i hnone
    refine ensureNoBracket_settles.yields.bind fun _ u ⟨hu, hs⟩ => ?_
    subst hu
    refine (newId_bind_yields hs.1 (resultId?_extInstImport · name) fun i b => ?_).mono
      fun _ _ hst => .inr ⟨hnone, hs, hst⟩
    exact appendDefining_yields (h.raised b) (home_extInstImport i name)

end Edit

/-! ## Runs -/

/-- An import that is answered was found, or appended. -/
theorem perform_importExtInst {s t : Session} {m : Outline} {name : String} {i : Id}
    (h : s.Sound m) (hrun : s.perform (.importExtInst name) = (.ok (.id i), t)) :
    (s.index.imported? name = some i ∧ t = s) ∨
      (s.index.imported? name = none ∧ s.Editable ∧
        s.GrowsFresh .extInstImports (.extInstImport · name) i t) :=
  (Edit.importExtInst_yields h name).of_map Answer.id.inj hrun

namespace Reached

variable {s t u : Session} {m : Outline} {name name' : String} {a b : Id}

/-- An import that is found is a live instruction. -/
theorem exists_importOf? (h : Reachable s) (ha : s.index.imported? name = some a) :
    ∃ i ∈ s.live, i.importOf? name = some a := by
  rw [Index.imported?_eq_scan h.reflects.holds] at ha
  exact List.exists_of_findSome?_eq_some ha

/-- What is found has no NUL in its name, as it was read. -/
theorem imported?_legible (h : Reachable s) (ha : s.index.imported? name = some a) :
    '\x00' ∉ name.toList := by
  obtain ⟨i, -, hi⟩ := h.exists_importOf? ha
  obtain ⟨-, hname, -⟩ := Instruction.importOf?_eq_some.mp hi
  obtain ⟨-, hname⟩ := Option.ite_none_right_eq_some.mp hname
  exact Option.some.inj hname ▸ Literal.nul_not_mem_unpack _

/-- A name that is found is read as it is. -/
theorem upToNul_of_imported? (h : Reachable s) (ha : s.index.imported? name = some a) :
    Literal.upToNul name = name :=
  Literal.upToNul_eq_self.mpr (h.imported?_legible ha)

/-- An import that is answered is found from then on by what is read of its name, unless that was
found already. -/
theorem imported?_of_answered (h : Reachable s)
    (hrun : s.perform (.importExtInst name) = (.ok (.id a), t)) (n : String) :
    t.index.imported? n =
      (s.index.imported? n).or (if n = Literal.upToNul name then some a else none) := by
  obtain ⟨m, hm⟩ := h.sound
  rcases perform_importExtInst hm hrun with ⟨ha, rfl⟩ | ⟨-, hs, hst⟩
  · rw [h.upToNul_of_imported? ha]
    split
    · rename_i hn
      rw [hn, ha, Option.some_or]
    · rw [Option.or_none]
  · have ht : Reachable t := h.next hrun nofun trivial
    obtain ⟨m', hm'⟩ := ht.sound
    have hb : t.bracket = none := (congrArg (·.bracket) hst.frame).trans hs.2
    rw [hm'.shows.imported?_eq hb ht.reflects.holds, hst.contents hm,
      Contents.imported?_append, hm.shows.imported?_eq hs.2 h.reflects.holds,
      Operation.importOf?_extInstImport]

/-- An import that is answered is a live instruction. -/
theorem exists_importOf?_of_answered (h : Reachable s)
    (hrun : s.perform (.importExtInst name) = (.ok (.id a), t)) :
    ∃ i ∈ t.live, i.importOf? (Literal.upToNul name) = some a := by
  obtain ⟨m, hm⟩ := h.sound
  rcases perform_importExtInst hm hrun with ⟨ha, rfl⟩ | ⟨-, hs, hst⟩
  · rw [h.upToNul_of_imported? ha]
    exact h.exists_importOf? ha
  · refine ⟨_, hst.mem_live hm hs.2, ?_⟩
    rw [Operation.importOf?_extInstImport, if_pos rfl]

/-- While ids are distinct, two names that are imported with one id are read as the same. -/
theorem eq_of_importOf? {i j : Instruction} (hd : t.IdsDistinct) (hi : i ∈ t.live) (hj : j ∈ t.live)
    (ha : i.importOf? name = some a) (ha' : j.importOf? name' = some a) : name' = name := by
  obtain ⟨-, hname, hid⟩ := Instruction.importOf?_eq_some.mp ha
  obtain ⟨-, hname', hid'⟩ := Instruction.importOf?_eq_some.mp ha'
  obtain rfl := eq_of_resultId? hd hi hj hid hid'
  exact Option.some.inj (hname'.symm.trans hname)

/-- A name shares its id with no other, unless that is what is read of it. -/
theorem importExtInst_eq_iff (h : Reachable s)
    (hrun : s.perform (.importExtInst name) = (.ok (.id a), t)) (hne : name' ≠ name)
    (hrun' : t.perform (.importExtInst name') = (.ok (.id b), u)) (hd : u.IdsDistinct) :
    b = a ↔ name' = Literal.upToNul name ∧ s.index.imported? name' = none := by
  obtain ⟨m, hm⟩ := h.sound
  have ht : Reachable t := h.next hrun nofun trivial
  obtain ⟨m', hm'⟩ := ht.sound
  have hafter := h.imported?_of_answered hrun name'
  obtain ⟨i, hi, hia⟩ := h.exists_importOf?_of_answered hrun
  rcases perform_importExtInst hm' hrun' with ⟨hb, rfl⟩ | ⟨hnone, hs', hst'⟩
  · -- the second name is found, by what was there or by what came
    constructor
    · rintro rfl
      obtain ⟨j, hj, hja⟩ := ht.exists_importOf? hb
      have hname := eq_of_importOf? hd hi hj hia hja
      refine ⟨hname, ?_⟩
      rcases perform_importExtInst hm hrun with ⟨ha, -⟩ | ⟨-, hs, hst⟩
      · exact absurd (hname.trans (h.upToNul_of_imported? ha)) hne
      · -- what was there has another id than what came
        have hid := Edit.resultId?_extInstImport b name
        obtain ⟨-, hnew⟩ := hst.new_id hm hs.2 hid hd
        refine Option.eq_none_iff_forall_ne_some.mpr fun c hc => ?_
        rw [hb, hc, Option.some_or] at hafter
        obtain rfl := Option.some.inj hafter
        obtain ⟨k, hk, hkb⟩ := h.exists_importOf? hc
        exact hnew (mem_definedIds hk (Instruction.importOf?_eq_some.mp hkb).2.2)
    · rintro ⟨hname, hnone⟩
      rw [hb, hnone, Option.none_or, if_pos hname] at hafter
      exact Option.some.inj hafter
  · -- the second name is imported with an id that is new
    have hid := Edit.resultId?_extInstImport b name'
    obtain ⟨-, hnew⟩ := hst'.new_id hm' hs'.2 hid hd
    obtain ⟨-, -, hia⟩ := Instruction.importOf?_eq_some.mp hia
    refine iff_of_false (fun heq => hnew (heq ▸ mem_definedIds hi hia)) fun ⟨hname, hnone'⟩ => ?_
    rw [hnone, hnone', Option.none_or, if_pos hname] at hafter
    cases hafter

/-- A name without NUL is imported once, and one that has a NUL is imported with the next id each
time. As long as ids are distinct, a name shares its id with no other name, unless it has a NUL: then
the part in front of it has the same id, if it had none before. -/
theorem imports_follow_names (h : Reachable s)
    (hrun : s.perform (.importExtInst name) = (.ok (.id a), t)) :
    ('\x00' ∉ name.toList → t.perform (.importExtInst name) = (.ok (.id a), t)) ∧
    ('\x00' ∈ name.toList → ∀ b u, t.perform (.importExtInst name) = (.ok (.id b), u) →
      a.succ? = some b) ∧
    ∀ name' b u, name' ≠ name → t.perform (.importExtInst name') = (.ok (.id b), u) →
      u.IdsDistinct → (b = a ↔ name' = Literal.upToNul name ∧ s.index.imported? name' = none) := by
  obtain ⟨m, hm⟩ := h.sound
  have ht : Reachable t := h.next hrun nofun trivial
  obtain ⟨m', hm'⟩ := ht.sound
  refine ⟨fun hnul => ?_, fun hnul b u hrun' => ?_,
    fun name' b u hne hrun' hd => h.importExtInst_eq_iff hrun hne hrun' hd⟩
  · have hfound : t.index.imported? name = some a := by
      rcases perform_importExtInst hm hrun with ⟨ha, rfl⟩ | ⟨hnone, -, -⟩
      · exact ha
      · rw [h.imported?_of_answered hrun, hnone, Option.none_or,
          if_pos (Literal.upToNul_eq_self.mpr hnul).symm]
    exact Edit.run_map (Edit.importExtInst_found hfound) _
  · rcases perform_importExtInst hm' hrun' with ⟨hb, -⟩ | ⟨-, -, hst'⟩
    · exact absurd hnul (ht.imported?_legible hb)
    rcases perform_importExtInst hm hrun with ⟨ha, -⟩ | ⟨-, -, hst⟩
    · exact absurd hnul (h.imported?_legible ha)
    rw [hst.succ? (Edit.resultId?_extInstImport a name), hst'.fresh]

/-- A name without NUL, and one that has a NUL, which is imported twice and found under what is in
front of it. -/
theorem imports_follow_names_nul :
    let s := Session.create .never ⟨1, 3⟩ 0
    let t := (s.perform (.importExtInst "GLSL.std.450")).2
    let u := (s.perform (.importExtInst "a\x00b")).2
    t.perform (.importExtInst "GLSL.std.450") = (.ok (.id .one), t) ∧
    (∀ b v, u.perform (.importExtInst "a\x00b") = (.ok (.id b), v) → Id.one.succ? = some b) ∧
    ∀ b v, u.perform (.importExtInst "a") = (.ok (.id b), v) → b = .one := by
  intro s t u
  have hs : Reachable s := .create .never ⟨1, 3⟩ 0 trivial
  have hplain : s.perform (.importExtInst "GLSL.std.450") = (.ok (.id .one), t) :=
    Prod.ext (by decide +kernel) rfl
  have hnul : s.perform (.importExtInst "a\x00b") = (.ok (.id .one), u) :=
    Prod.ext (by decide +kernel) rfl
  refine ⟨(hs.imports_follow_names hplain).1 (by decide +kernel),
    (hs.imports_follow_names hnul).2.1 (by decide +kernel), fun b v hrun => ?_⟩
  have hd : v.IdsDistinct := by
    rw [← show (u.perform (.importExtInst "a")).2 = v from congrArg Prod.snd hrun]
    decide +kernel
  exact ((hs.imports_follow_names hnul).2.2 "a" b v (by decide +kernel) hrun hd).mpr
    (by decide +kernel)

/-- A name that has a NUL is imported again, though nothing but the import came between. -/
theorem import_repeated : ¬ ∀ (s : Session) (name : String) (a : Id) (t : Session), Reachable s →
    s.Editable → s.perform (.importExtInst name) = (.ok (.id a), t) →
      (t.perform (.importExtInst name)).1 = .ok (.id a) := by
  intro h
  have hrun := h (Session.create .never ⟨1, 3⟩ 0) "a\x00b" .one _ (.create .never ⟨1, 3⟩ 0 trivial)
    ⟨rfl, rfl⟩ (Prod.ext (by decide +kernel) rfl)
  exact absurd hrun (by decide +kernel)

end Reached

end SpirvModule
