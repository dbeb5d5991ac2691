import SpirvModule.Proofs.Outcome

/-!
# Commands act on lists

Read section by section, a module is a header and ten lists of instructions. A command
that answers acts on one of these lists: it puts in, exchanges or blanks out an element, or
appends some. Only a decorated constant goes to two lists. In the header nothing changes
but the bound.

Results:
* `Command.Effect`: what each command does to the ten lists.
* `perform_effect_of_sound`: this is what it does to a sound session.
* `Reached.edits_lists`: so it does at every point of every run, and leaves the other
  lists and the rest of the header alone.
-/
namespace SpirvModule

namespace Session

/-- Whether `p` is in front of the instruction with index `n` of a section, or at its end. -/
def Gap (s : Session) (sec : Section) (n p : Nat) : Prop :=
  (∃ i, (s.instructions sec)[n]? = some i ∧ i.offset = p) ∨
    (n = (s.instructions sec).length ∧ p = s.sectionStop sec)

/-- Whether `i` is the instruction with index `n` of a section, and stands at `p`. -/
def Stands (s : Session) (sec : Section) (n p : Nat) (i : Instruction) : Prop :=
  (s.instructions sec)[n]? = some i ∧ i.offset = p

end Session

/-- What a command that answers does to the lists of instructions, section by section. -/
inductive Command.Effect (s : Session) : Command → Answer → Contents → Prop
  | append {c : Command} {a : Answer} {l : List (Section × Operation)}
      (h : Command.Appended s c a l) : Effect s c a (s.contents.appendAll l)
  | insert {p n : Nat} {op : Operation} {sec : Section} (ha : (s.layout.span sec).accepts p)
      (hh : op.opcode.home?.all (· = sec)) (hn : s.Gap sec n p) :
      Effect s (.insert p op) (.defined op.resultId?) (s.contents.splice sec n 0 [op.words])
  | replace {p n : Nat} {op : Operation} {sec : Section} {i : Instruction}
      (hh : op.opcode.home?.all (· = sec)) (hi : s.Stands sec n p i) :
      Effect s (.replace p op) (.defined op.resultId?) (s.contents.splice sec n 1 [op.words])
  | remove {p n : Nat} {sec : Section} {i : Instruction} (hi : s.Stands sec n p i) :
      Effect s (.remove p) .done
        (s.contents.splice sec n 1 (List.replicate i.wordCount [Edit.nopWord]))
  | beginModify (p : Nat) : Effect s (.beginModify p) .done s.contents
  | operands {p n : Nat} {change : OperandChange} {sec : Section} {i : Instruction}
      {new : List Word} (hi : s.Stands sec n p i) (hnew : change.apply i.operands = some new) :
      Effect s (.operands p change) (.operands new)
        (s.contents.splice sec n 1 [i.leading :: new])
  | endModify (p : Nat) : Effect s (.endModify p) .done s.contents
  | modifyOperands {p n : Nat} {change : OperandChange} {sec : Section} {i : Instruction}
      {new : List Word} (hi : s.Stands sec n p i) (hnew : change.apply i.operands = some new) :
      Effect s (.modifyOperands p change) .done (s.contents.splice sec n 1 [i.leading :: new])

/-! ## Indices in a section -/

namespace Session

variable {s t : Session} {m : Outline} {sec : Section} {p : Nat} {c : List Word}
  {xs ys zs new : List (List Word)}

theorem Shows.gap (h : s.Shows m) (hm : m.Splits sec p xs [] zs) : s.Gap sec xs.length p := by
  have hi : s.instructions sec = place (m.contents.start sec) xs ++ place p zs := by
    rw [h.instructions_eq, hm.contents_eq, place_append, ← hm.offset_eq]
    rfl
  cases zs with
  | nil =>
    refine .inr ⟨by rw [hi]; simp, ?_⟩
    rw [h.sectionStop_eq, Contents.stop, hm.contents_eq, hm.offset_eq]
    simp
  | cons c r =>
    refine .inl ⟨.ofChunk p c, ?_, rfl⟩
    rw [hi, List.getElem?_append_right (by simp)]
    simp

theorem Shows.stands (h : s.Shows m) (hm : m.Splits sec p xs [c] zs) :
    s.Stands sec xs.length p (.ofChunk p c) := by
  refine ⟨?_, rfl⟩
  rw [h.instructions_eq, hm.contents_eq, place_append, ← hm.offset_eq,
    List.getElem?_append_right (by simp)]
  simp

/-- The contents after some chunks of a section have given way. -/
theorem Shows.contents_exchange (h : s.Shows m) (hm : m.Splits sec p xs ys zs)
    (hn : ∀ c ∈ new, Fits sec c) (ht : t.Shows (hm.exchange hn)) :
    t.contents = s.contents.splice sec xs.length ys.length new := by
  rw [ht.contents_eq, h.contents_eq, hm.exchange_contents, Contents.splice_eq _ hm.contents_eq]

end Session

/-- Sessions that show the same outline have the same contents. -/
theorem contents_congr {s t : Session} {m : Outline} (h : s.Shows m) (ht : t.Shows m) :
    t.contents = s.contents := by
  rw [ht.contents_eq, h.contents_eq]

/-- What a command with proper places that answers does to the lists of a sound session. -/
theorem perform_effect_of_sound {s t : Session} {m : Outline} {c : Command} {a : Answer}
    (h : s.Sound m) (hc : c.Proper s) (hrun : s.perform c = (.ok a, t)) :
    c.Effect s a t.contents := by
  cases perform_outcome h hc hrun with
  | adds hl hadds =>
    obtain ⟨m', h', hcontents⟩ := hadds.sound h
    rw [h'.shows.contents_eq, hcontents, ← h.shows.contents_eq]
    exact .append hl
  | insert hs hsec hu hm hf =>
    obtain ⟨ha, hh⟩ := Edit.placement_eq_some hsec
    rw [h.shows.contents_exchange hm hf ((hu.sound h).inserted (hu.editable hs) hm hf).shows]
    exact .insert ha hh (h.shows.gap hm)
  | replace hs hsec hh hm hf =>
    rw [h.shows.contents_exchange hm hf (h.replaced hs hm hf).shows]
    exact .replace hh (h.shows.stands hm)
  | @remove p sec d xs zs hs hm =>
    have hd : IsChunk d := hm.isChunk (List.mem_singleton_self d)
    rw [h.shows.contents_exchange hm _ (h.blanked hs hm).shows,
      ← Instruction.ofChunk_wordCount p hd]
    exact .remove (h.shows.stands hm)
  | beginModify hs hm =>
    rw [contents_congr h.shows (h.opened hm).shows]
    exact .beginModify _
  | operands hb hm hl hnew =>
    have hn := OperandChange.length_apply _ hnew
    have hf := hm.fits_operands hn
    rw [h.shows.contents_exchange hm hf (h.overwritten hb hm hl hf hn).shows]
    exact .operands (h.shows.stands hm) hnew
  | endModify hb hi =>
    rw [contents_congr h.shows (h.closed _).shows]
    exact .endModify _
  | modifyOperands hs hm hnew =>
    have hn := OperandChange.length_apply _ hnew
    have hf := hm.fits_operands hn
    rw [h.shows.contents_exchange hm hf (h.modified hm hf hn).shows]
    exact .modifyOperands (h.shows.stands hm) hnew

/-! ## The header -/

theorem getElem?_replaceWords {ws new : List Word} {p old k : Nat} (hk : k < p)
    (hl : k < ws.length) : (replaceWords ws p old new)[k]? = ws[k]? := by
  rw [replaceWords, List.append_assoc, List.getElem?_append_left (by simp; omega),
    List.getElem?_take_of_lt hk]

/-- Words behind those that are exchanged for as many stay where they are. -/
theorem getElem?_replaceWords_of_le {ws new : List Word} {p k : Nat}
    (hp : p + new.length ≤ ws.length) (hk : p + new.length ≤ k) :
    (replaceWords ws p new.length new)[k]? = ws[k]? := by
  have hlen : (ws.take p ++ new).length = p + new.length := by
    rw [List.length_append, List.length_take]
    omega
  rw [replaceWords, List.getElem?_append_right (hlen ▸ hk), List.getElem?_drop, hlen,
    Nat.add_sub_cancel' hk]

theorem length_replaceWords {ws new : List Word} {p : Nat} (hp : p + new.length ≤ ws.length) :
    (replaceWords ws p new.length new).length = ws.length := by
  simp only [replaceWords, List.length_append, List.length_take, List.length_drop]
  omega

namespace Session

variable {s t : Session} {m : Outline}

/-- A move raises the bound, or it leaves the header alone. -/
theorem Sound.raised_or_header (h : s.Sound m) (hst : Move s t) : (∃ b, t = s.raised b) ∨
    t.bound = s.bound ∧ ∀ k < headerWords, t.words[k]? = s.words[k]? := by
  have hlen {k : Nat} (hk : k < headerWords) : k < s.words.length :=
    Nat.lt_of_lt_of_le hk h.shows.header
  have below {k : Nat} (hk : k < headerWords) {sec : Section} {p : Nat}
      {xs ys zs : List (List Word)} (hm : m.Splits sec p xs ys zs) : k < p := by
    have := hm.headerWords_add
    omega
  cases hst with
  | breach e => exact .inr ⟨rfl, fun _ _ => rfl⟩
  | raise hs hb => exact .inl ⟨_, rfl⟩
  | insert hs hp ha hh hl hb =>
    obtain ⟨xs, zs, hm⟩ := h.shows.split_of_accepts hp ha
    exact .inr ⟨rfl, fun k hk => getElem?_replaceWords (below hk hm) (hlen hk)⟩
  | beginModify hs hp hi => exact .inr ⟨rfl, fun _ _ => rfl⟩
  | operands hs hb hn =>
    obtain ⟨sec, xs, w, us, zs, hm, hl⟩ := h.split_of_bracket hb
    exact .inr ⟨rfl, fun k hk =>
      getElem?_replaceWords (Nat.lt_succ_of_lt (below hk hm)) (hlen hk)⟩
  | endModify hs hb hi => exact .inr ⟨rfl, fun _ _ => rfl⟩
  | remove hs hp hi hn =>
    obtain ⟨sec, xs, c, zs, hm, rfl⟩ := h.shows.split_of_instruction? hp hi
    exact .inr ⟨rfl, fun k hk => getElem?_replaceWords (below hk hm) (hlen hk)⟩
  | replace hs hp hi hc hh hl =>
    obtain ⟨sec, xs, c, zs, hm, rfl⟩ := h.shows.split_of_instruction? hp hi
    exact .inr ⟨rfl, fun k hk => getElem?_replaceWords (below hk hm) (hlen hk)⟩

/-- No move changes a word of the header other than the bound. -/
theorem Sound.header_move (h : s.Sound m) (hst : Move s t) {k : Nat} (hk : k < headerWords)
    (hb : k ≠ boundWord) : t.words[k]? = s.words[k]? := by
  rcases h.raised_or_header hst with ⟨b, rfl⟩ | ⟨-, hheader⟩
  · exact List.getElem?_set_ne (Ne.symm hb)
  · exact hheader k hk

theorem Sound.header_moves (h : s.Sound m) (hst : Moves s t) {k : Nat} (hk : k < headerWords)
    (hb : k ≠ boundWord) : t.words[k]? = s.words[k]? := by
  induction hst with
  | refl => rfl
  | tail hmoves hmove ih =>
    obtain ⟨m', h'⟩ := h.moves hmoves
    rw [h'.header_move hmove hk hb, ih]

end Session

/-! ## One list at a time -/

theorem Contents.splice_of_ne (m : Contents) {sec u : Section} (h : u ≠ sec) (n removed : Nat)
    (new : List (List Word)) : m.splice sec n removed new u = m u := Function.update_of_ne h ..

/-- Operations that are all appended to one section leave the other ones alone. -/
theorem Contents.appendAll_of_ne (m : Contents) {sec u : Section} (h : u ≠ sec)
    {l : List (Section × Operation)} (hl : ∀ e ∈ l, e.1 = sec) : m.appendAll l u = m u := by
  induction l generalizing m with
  | nil => rfl
  | cons e r ih =>
    obtain ⟨he, hr⟩ := List.forall_mem_cons.mp hl
    have hu : m.append e.1 [e.2.words] u = m u := Function.update_of_ne (he ▸ h) ..
    rw [← hu]
    exact ih _ hr

theorem Edit.Declared.types {s : Session} {k : TypeKey} {i : Id} {l : List (Section × Operation)}
    (h : Declared s k i l) : ∀ e ∈ l, e.1 = .types := by
  obtain ⟨-, rfl⟩ | ⟨op, -, rfl⟩ := h <;> simp

namespace Command

/-- Whether a command adds a constant and a decoration of it. -/
def addsSpecConstant : Command → Prop
  | addSpecConstantImmediate .. => True
  | _ => False

/-- All that a command appends goes to one section, unless it is a decorated constant. -/
theorem Appended.one_section {s : Session} {c : Command} {a : Answer}
    {l : List (Section × Operation)} (h : c.Appended s a l) (hc : ¬ c.addsSpecConstant) :
    ∃ sec, ∀ e ∈ l, e.1 = sec := by
  cases h with
  | newId => exact ⟨.types, by simp⟩
  | declareType hl => exact ⟨.types, hl.types⟩
  | declareStruct hl => exact ⟨.types, by obtain rfl | rfl := hl <;> simp⟩
  | addConstantImmediate hl =>
    refine ⟨.types, fun e he => ?_⟩
    rcases List.mem_append.mp he with he | he
    · exact hl.types e he
    · rw [List.mem_singleton.mp he]
  | addSpecConstantImmediate => exact (hc trivial).elim
  | importExtInst hl => exact ⟨.extInstImports, by obtain ⟨-, rfl⟩ | rfl := hl <;> simp⟩
  | addFunction ops => exact ⟨.functions, by simp⟩
  | _ => exact ⟨_, by simp; rfl⟩

/-- A command that answers changes the list of one section at most, unless it declares a decorated
constant. -/
theorem Effect.one_section {s : Session} {c : Command} {a : Answer} {m : Contents}
    (h : c.Effect s a m) (hc : ¬ c.addsSpecConstant) : ∃ sec, ∀ u, u ≠ sec → m u = s.contents u := by
  cases h with
  | append h =>
    obtain ⟨sec, hl⟩ := h.one_section hc
    exact ⟨sec, fun u hu => s.contents.appendAll_of_ne hu hl⟩
  | beginModify | endModify => exact ⟨.types, fun _ _ => rfl⟩
  | insert | replace | remove | operands | modifyOperands =>
    exact ⟨_, fun u hu => s.contents.splice_of_ne hu ..⟩

end Command

/-! ## Runs -/

/-- What is true of a session `s` that answers `a` to a command and goes on as `t`. -/
structure Command.Refines (s : Session) (c : Command) (a : Answer) (t : Session) : Prop where
  effect : c.Effect s a t.contents
  /-- No list changes but one. A decorated constant is appended to two. -/
  others : ¬ c.addsSpecConstant → ∃ sec, ∀ u, u ≠ sec → t.contents u = s.contents u
  /-- Only the bound changes in the header. -/
  header : ∀ k < headerWords, k ≠ Session.boundWord → t.words[k]? = s.words[k]?

/-- At every point of every run a module is its header and ten lists of instructions, and a command
that answers acts on these. -/
theorem Reached.edits_lists {s : Session} (hs : Reachable s) :
    (s.header.length = headerWords ∧ s.words = s.header ++ s.contents.chunks.flatten) ∧
      ∀ (c : Command) (a : Answer) (t : Session), c.Proper s → s.perform c = (.ok a, t) →
        c.Refines s a t := by
  obtain ⟨m, hm⟩ := hs.sound
  refine ⟨⟨hm.shows.length_header, ?_⟩, fun c a t hc hrun => ?_⟩
  · rw [hm.shows.contents_eq]
    exact hm.shows.words_eq
  · have heffect := perform_effect_of_sound hm hc hrun
    have hmoves := (perform_leads hm hc).1
    rw [hrun] at hmoves
    exact ⟨heffect, heffect.one_section, fun k hk hb => hm.header_moves hmoves hk hb⟩

/-- A type and a constant are declared, and the type is named. -/
def namedConstant : List Command :=
  [.addConstantImmediate (.u32 7), .setName .one "uint"]

theorem edits_lists_namedConstant :
    Reachable ((Session.create .never ⟨1, 3⟩ 0).performAll namedConstant) ∧
      (Command.replace 5 (.name .one "u")).Refines
        ((Session.create .never ⟨1, 3⟩ 0).performAll namedConstant) (.defined none)
        (((Session.create .never ⟨1, 3⟩ 0).performAll namedConstant).perform
          (.replace 5 (.name .one "u"))).2 := by
  have h : Reachable ((Session.create .never ⟨1, 3⟩ 0).performAll namedConstant) :=
    Reached.performAll (.create _ _ _ trivial) (by decide +kernel)
  exact ⟨h, h.edits_lists.2 _ _ _ (by decide +kernel) (Prod.ext (by decide +kernel) rfl)⟩

/-- A decorated constant changes two lists. -/
theorem specConstant_edits_two_lists :
    ¬ ∀ (s t : Session) (c : Command) (a : Answer), Reachable s → c.Proper s →
      s.perform c = (.ok a, t) → ∃ sec, ∀ u, u ≠ sec → t.contents u = s.contents u := by
  intro h
  obtain ⟨sec, hsec⟩ := h (.create .never ⟨1, 3⟩ 0) _ (.addSpecConstantImmediate (.u32 7) 3)
    (.id ⟨2, by decide⟩) (.create _ _ _ trivial) (by decide +kernel)
    (Prod.ext (by decide +kernel) rfl)
  have htypes : Section.types = sec := by
    by_contra hne
    exact absurd (hsec .types hne) (by decide +kernel)
  have hannotations : Section.annotations = sec := by
    by_contra hne
    exact absurd (hsec .annotations hne) (by decide +kernel)
  cases htypes.trans hannotations.symm

end SpirvModule
