import SpirvModule.Proofs.Chunk

/-!
# Walks

The walk that reads a module goes from instruction to instruction with a running section. An
instruction that has a home takes it there, and is refused when it lies before; a variable or
an undefined value in front of the types takes it to the types. `Walk` says which
instructions may follow one another in this way, and `Offends` what ends a walk early. Over
any words there is one walk, to their end or to the first offence.

Results:
* `Section.advance_eq_iff`: what an instruction does to the running section.
* `exists_walk`: some instructions stand in front of the end or of an offence.
* `walkFrom_eq_ok`, `walkFrom_eq_error`: the walk that is computed is that one.
-/
namespace SpirvModule

namespace Section

theorem lt_iff {a b : Section} : a < b ↔ a.index.val < b.index.val := Iff.rfl

theorem le_iff {a b : Section} : a ≤ b ↔ a.index.val ≤ b.index.val := Iff.rfl

end Section

/-- The opcodes that move a walk to the types, but have no home there. -/
def Opcode.Wanders (op : Opcode) : Prop := op = .opVariable ∨ op = .opUndef

instance (op : Opcode) : Decidable op.Wanders := inferInstanceAs (Decidable (_ ∨ _))

theorem Opcode.home?_of_wanders {op : Opcode} (h : op.Wanders) : op.home? = none := by
  rcases h with rfl | rfl
  · decide +kernel
  · decide +kernel

namespace Instruction

/-- The section that an instruction has to stand in. -/
def home? (i : Instruction) : Option Section := i.opcode? >>= Opcode.home?

/-- Whether an instruction is one that moves a walk to the types. -/
def Wanders (i : Instruction) : Prop := ∃ op ∈ i.opcode?, op.Wanders

instance (i : Instruction) : Decidable i.Wanders :=
  inferInstanceAs (Decidable (∃ op ∈ i.opcode?, op.Wanders))

theorem home?_of_opcode {i : Instruction} {op : Opcode} (h : i.opcode? = some op) :
    i.home? = op.home? := by
  rw [home?, h]
  rfl

theorem home?_of_wanders {i : Instruction} (h : i.Wanders) : i.home? = none := by
  obtain ⟨op, hop, hw⟩ := h
  rw [home?_of_opcode hop]
  exact op.home?_of_wanders hw

end Instruction

/-! ## The running section -/

namespace Section

/-- What an instruction does to the running section. -/
inductive Advanced (current : Section) (i : Instruction) :
    Except (Opcode × Section) Section → Prop
  | late {op : Opcode} {home : Section} (hop : i.opcode? = some op) (hh : op.home? = some home)
      (h : home < current) : Advanced current i (.error (op, home))
  | home {home : Section} (hh : i.home? = some home) (h : current ≤ home) :
      Advanced current i (.ok home)
  | wander (hw : i.Wanders) (h : current < .types) : Advanced current i (.ok .types)
  | stay (hh : i.home? = none) (hw : i.Wanders → .types ≤ current) :
      Advanced current i (.ok current)

variable {current sec : Section} {i : Instruction} {r : Except (Opcode × Section) Section}

theorem advanced (current : Section) (i : Instruction) :
    current.Advanced i (current.advance i.opcode?) := by
  unfold advance
  cases hop : i.opcode? with
  | none => exact .stay (by rw [Instruction.home?, hop]; rfl) (by simp [Instruction.Wanders, hop])
  | some op =>
    have hhome : i.home? = op.home? := Instruction.home?_of_opcode hop
    dsimp only
    cases hh : op.home? with
    | some home =>
      dsimp only
      split
      · exact .late hop hh ‹_›
      · rename_i hlt
        exact .home (hhome.trans hh) (by rw [lt_iff] at hlt; rw [le_iff]; omega)
    | none =>
      dsimp only
      have hw : i.Wanders ↔ op.Wanders := by simp [Instruction.Wanders, hop]
      split
      · rename_i h
        exact .wander (hw.mpr h.1) h.2
      · rename_i h
        refine .stay (hhome.trans hh) fun hwander => ?_
        have hlt : ¬ current < .types := fun hlt => h ⟨hw.mp hwander, hlt⟩
        rw [lt_iff] at hlt
        rw [le_iff]
        omega

/-- There is nothing else that an instruction does. -/
theorem Advanced.advance_eq (h : current.Advanced i r) : current.advance i.opcode? = r := by
  cases h with
  | late hop hh h => simp only [advance, hop, hh, if_pos h]
  | home hh h =>
    obtain ⟨op, hop, hhome⟩ := Option.bind_eq_some_iff.mp hh
    simp only [advance, hop, hhome]
    exact if_neg (Nat.not_lt.mpr h)
  | wander hw h =>
    obtain ⟨op, hop, hw⟩ := hw
    simp only [advance, Option.mem_def.mp hop, op.home?_of_wanders hw]
    exact if_pos ⟨hw, h⟩
  | stay hh hw =>
    cases hop : i.opcode? with
    | none => rfl
    | some op =>
      have hhome : op.home? = none := (Instruction.home?_of_opcode hop).symm.trans hh
      simp only [advance, hhome]
      exact if_neg fun h => Nat.not_lt.mpr (hw ⟨op, hop, h.1⟩) h.2

theorem advance_eq_iff : current.advance i.opcode? = r ↔ current.Advanced i r :=
  ⟨fun h => h ▸ current.advanced i, Advanced.advance_eq⟩

/-- The running section never moves back. -/
theorem Advanced.le (h : current.Advanced i (.ok sec)) : current ≤ sec := by
  cases h with
  | home _ h => exact h
  | wander _ h => exact Nat.le_of_lt h
  | stay => exact Nat.le_refl _

/-- It is the home of an instruction that has one. -/
theorem Advanced.home_eq (h : current.Advanced i (.ok sec)) : i.home?.all (· = sec) := by
  cases h with
  | home hh => simp [hh]
  | wander hw => rw [Instruction.home?_of_wanders hw]; rfl
  | stay hh => rw [hh]; rfl

theorem Advanced.types_le (h : current.Advanced i (.ok sec)) (hw : i.Wanders) : .types ≤ sec := by
  cases h with
  | home hh => cases hh.symm.trans (Instruction.home?_of_wanders hw)
  | wander => exact Nat.le_refl _
  | stay _ h => exact h hw

end Section

/-! ## Walks over instructions -/

/-- Instructions, each with a section. -/
abbrev Tagged := List (Section × Instruction)

namespace Tagged

/-- The words of instructions, one behind the other. -/
def words (l : Tagged) : List Word := l.flatMap (·.2.words)

/-- Section and offset of each instruction. -/
def starts (l : Tagged) : List (Section × Nat) := l.map fun e => (e.1, e.2.offset)

/-- Whether sections come in order. -/
def Sorted (l : Tagged) : Prop := l.Pairwise fun d e => d.1.index ≤ e.1.index

@[simp] theorem words_nil : words [] = [] := rfl

@[simp] theorem words_cons (e : Section × Instruction) (l : Tagged) :
    words (e :: l) = e.2.words ++ l.words := rfl

theorem words_eq_flatten (l : Tagged) : l.words = (l.map (·.2.words)).flatten :=
  List.flatMap_def ..

end Tagged

/-- A walk over instructions, each with the section that it takes. They follow one another from `p`
to `q`, each as long as it says, and lead the running section from `current` to `final`. -/
inductive Walk : Section → Nat → Tagged → Section → Nat → Prop
  | nil (current : Section) (p : Nat) : Walk current p [] current p
  | cons {current sec final : Section} {p q : Nat} {i : Instruction} {l : Tagged}
      (hp : i.offset = p) (hi : Word.count i.leading = i.wordCount)
      (ha : current.Advanced i (.ok sec))
      (h : Walk sec i.stop l final q) : Walk current p ((sec, i) :: l) final q

/-- What ends a walk at `p` of a module of `length` words, when the words `ws` are still to come: no
instruction starts there that is as long as it says, or one that comes too late. -/
inductive Offends (length : Nat) (current : Section) (p : Nat) : List Word → LoadError → Prop
  | empty {w : Word} {r : List Word} (h : Word.count w = 0) :
      Offends length current p (w :: r) (.zeroWordCount p)
  | overrun {w : Word} {r : List Word} (h : (w :: r).length < Word.count w) :
      Offends length current p (w :: r) (.instructionOverrun p (Word.count w) length)
  | late {i : Instruction} {r : List Word} {op : Opcode} {home : Section} (hp : i.offset = p)
      (hi : Word.count i.leading = i.wordCount) (ha : current.Advanced i (.error (op, home))) :
      Offends length current p (i.words ++ r) (.sectionOrder p op home current)

theorem Instruction.ofChunk_of_words (i : Instruction) : .ofChunk i.offset i.words = i := rfl

theorem Instruction.length_words (i : Instruction) : i.words.length = i.wordCount := rfl

theorem Instruction.isChunk_words {i : Instruction} (h : Word.count i.leading = i.wordCount) :
    IsChunk i.words := h

namespace Walk

variable {current final last : Section} {p q r : Nat} {l k : Tagged}

/-- A walk ends right behind the words of its instructions. -/
theorem stop_eq (h : Walk current p l final q) : q = p + l.words.length := by
  induction h with
  | nil => rfl
  | @cons _ _ _ p q i l hp _ _ _ ih =>
    rw [ih, Tagged.words_cons, List.length_append, Instruction.stop, hp, Instruction.length_words,
      Nat.add_assoc]

theorem append (h : Walk current p l final q) (h' : Walk final q k last r) :
    Walk current p (l ++ k) last r := by
  induction h with
  | nil => exact h'
  | cons hp hi ha _ ih => exact .cons hp hi ha (ih h')

/-- The instructions of a walk are its words, in place. -/
theorem place_eq (h : Walk current p l final q) :
    l.map (·.2) = place p (l.map (·.2.words)) := by
  induction h with
  | nil => rfl
  | @cons _ _ _ p _ i _ hp _ _ _ ih =>
    rw [List.map_cons, List.map_cons, place_cons, ih, ← hp, Instruction.ofChunk_of_words,
      Instruction.length_words]
    rfl

/-- Sections are not behind the first running section, nor in front of the last. -/
theorem current_le (h : Walk current p l final q) : ∀ e ∈ l, current ≤ e.1 := by
  induction h with
  | nil => exact nofun
  | cons _ _ ha _ ih =>
    exact List.forall_mem_cons.mpr ⟨ha.le, fun e he => Nat.le_trans ha.le (ih e he)⟩

/-- Sections come in order. -/
theorem sorted (h : Walk current p l final q) : l.Sorted := by
  induction h with
  | nil => exact .nil
  | cons _ _ _ h ih => exact List.pairwise_cons.mpr ⟨h.current_le, ih⟩

/-- Between its ends a walk leaves nothing out. -/
theorem exists_covering (h : Walk current p l final q) (hp : p ≤ r) (hq : r < q) :
    ∃ e ∈ l, e.2.offset ≤ r ∧ r < e.2.stop := by
  induction h with
  | nil => omega
  | @cons _ _ _ p q i l hi _ _ _ ih =>
    subst hi
    by_cases hr : r < i.stop
    · exact ⟨_, List.mem_cons_self, hp, hr⟩
    · obtain ⟨e, he, hcover⟩ := ih (by omega) hq
      exact ⟨e, List.mem_cons_of_mem _ he, hcover⟩

end Walk

/-! ## The walk that is computed -/

theorem walkFrom_skip (length k p : Nat) (current : Section) (ws : List Word) :
    walkFrom length k p current ws = walkFrom length 0 (p + k) current (ws.drop k) := by
  induction ws generalizing k p with
  | nil => simp [walkFrom]
  | cons w r ih =>
    cases k with
    | zero => rfl
    | succ k => rw [walkFrom, ih, List.drop_succ_cons, Nat.add_assoc, Nat.add_comm 1 k]

theorem walk_chunk {length p : Nat} {c : List Word} (current : Section) (r : List Word)
    (hc : IsChunk c) (hl : p + c.length ≤ length) :
    walkFrom length 0 p current (c ++ r) =
      match current.advance (Instruction.ofChunk p c).opcode? with
      | .error (op, home) => .error (.sectionOrder p op home current)
      | .ok s =>
        match walkFrom length 0 (p + c.length) s r with
        | .error e => .error e
        | .ok starts => .ok ((s, p) :: starts) := by
  cases c with
  | nil => exact hc.elim
  | cons w ops =>
    have hw : Word.count w = ops.length + 1 := hc
    rw [List.length_cons] at hl
    rw [List.cons_append, walkFrom]
    rw [if_neg (by omega), if_neg (by omega)]
    have hop : (Instruction.ofChunk p (w :: ops)).opcode? = Opcode.ofNumber? (Word.number w) := rfl
    have hp : p + 1 + ops.length = p + (ops.length + 1) := by omega
    rw [hop]
    cases current.advance (Opcode.ofNumber? (Word.number w)) with
    | error e => rfl
    | ok s =>
      dsimp only
      rewrite [walkFrom_skip, hw, Nat.add_sub_cancel, List.drop_left, List.length_cons, hp]
      cases walkFrom length 0 (p + (ops.length + 1)) s r <;> rfl

section
variable {length p q : Nat} {current final : Section} {ws rest : List Word} {e : LoadError}
  {l : Tagged}

/-- A walk is computed as far as it goes. -/
theorem Walk.walkFrom_append (h : Walk current p l final q) (hl : length = q + rest.length) :
    walkFrom length 0 p current (l.words ++ rest) =
      match walkFrom length 0 q final rest with
      | .error e => .error e
      | .ok starts => .ok (l.starts ++ starts) := by
  induction h with
  | nil =>
    rw [Tagged.words_nil, List.nil_append]
    cases walkFrom length 0 _ _ rest <;> rfl
  | @cons current sec final p q i l hp hi ha h ih =>
    subst hp
    have hle : i.offset + i.words.length ≤ length := by
      rw [Instruction.length_words, hl, h.stop_eq, Instruction.stop]
      omega
    rw [Tagged.words_cons, List.append_assoc,
      walk_chunk current _ (Instruction.isChunk_words hi) hle, Instruction.ofChunk_of_words,
      Section.advance_eq_iff.mpr ha]
    dsimp only
    rw [Instruction.length_words, ← Instruction.stop, ih hl]
    cases walkFrom length 0 q final rest <;> rfl

theorem Offends.walkFrom_eq (h : Offends length current p ws e) (hl : length = p + ws.length) :
    walkFrom length 0 p current ws = .error e := by
  cases h with
  | empty h => rw [walkFrom, if_pos h]
  | overrun h => rw [walkFrom, if_neg (by omega), if_pos (by omega)]
  | @late i r op home hp hi ha =>
    subst hp
    rw [List.length_append] at hl
    rw [walk_chunk current r (Instruction.isChunk_words hi) (by omega),
      Instruction.ofChunk_of_words, Section.advance_eq_iff.mpr ha]

/-- Words start with an instruction that is as long as their first word says. -/
theorem exists_instruction (p : Nat) {w : Word} {r : List Word} (hzero : Word.count w ≠ 0)
    (hcount : Word.count w ≤ (w :: r).length) :
    ∃ i : Instruction, ∃ rest, i.offset = p ∧ Word.count i.leading = i.wordCount ∧
      w :: r = i.words ++ rest := by
  rw [List.length_cons] at hcount
  refine ⟨⟨p, w, r.take (Word.count w - 1)⟩, r.drop (Word.count w - 1), rfl, ?_, ?_⟩
  · show Word.count w = (r.take (Word.count w - 1)).length + 1
    rw [List.length_take_of_le (by omega)]
    omega
  · simp [Instruction.words]

/-- Over any words there is a walk to their end or to an offence. -/
theorem exists_walk (current : Section) (hl : length = p + ws.length) :
    ∃ l final q rest, ws = l.words ++ rest ∧ Walk current p l final q ∧
      (rest = [] ∨ ∃ e, Offends length final q rest e) := by
  -- by the number of words: a walk goes on behind its first instruction
  induction hn : ws.length using Nat.strongRecOn generalizing p current ws with
  | ind n ih =>
    cases ws with
    | nil => exact ⟨[], current, p, [], rfl, .nil _ _, .inl rfl⟩
    | cons w r =>
      by_cases hzero : Word.count w = 0
      · exact ⟨[], current, p, w :: r, rfl, .nil _ _, .inr ⟨_, .empty hzero⟩⟩
      by_cases hover : (w :: r).length < Word.count w
      · exact ⟨[], current, p, w :: r, rfl, .nil _ _, .inr ⟨_, .overrun hover⟩⟩
      obtain ⟨i, rest, hp, hi, hwords⟩ := exists_instruction p hzero (Nat.le_of_not_lt hover)
      rw [List.length_cons] at hl hn
      have hlen := congrArg List.length hwords
      rw [List.length_append, Instruction.length_words, List.length_cons] at hlen
      have hcount : 0 < i.wordCount := Nat.succ_pos _
      have hadv := current.advanced i
      cases ha : current.advance i.opcode? with
      | error x =>
        rw [ha] at hadv
        obtain ⟨op, home⟩ := x
        refine ⟨[], current, p, w :: r, rfl, .nil _ _, .inr ⟨.sectionOrder p op home current, ?_⟩⟩
        rw [hwords]
        exact .late hp hi hadv
      | ok sec =>
        rw [ha] at hadv
        obtain ⟨l, final, q, rest', rfl, hwalk, hend⟩ :=
          ih rest.length (by omega) (p := i.stop) sec (by rw [Instruction.stop]; omega) rfl
        refine ⟨(sec, i) :: l, final, q, rest', ?_, .cons hp hi hadv hwalk, hend⟩
        rw [hwords, Tagged.words_cons, List.append_assoc]

/-- The walk over some words is to their end if no instruction offends. -/
theorem walkFrom_eq_ok (hl : length = p + ws.length) {starts : List (Section × Nat)} :
    walkFrom length 0 p current ws = .ok starts ↔
      ∃ l final, ws = l.words ∧ Walk current p l final length ∧ starts = l.starts := by
  constructor
  · intro h
    obtain ⟨l, final, q, rest, rfl, hwalk, hend⟩ := exists_walk current hl
    have hq : length = q + rest.length := by
      rw [hl, List.length_append, hwalk.stop_eq, Nat.add_assoc]
    rw [hwalk.walkFrom_append hq] at h
    rcases hend with rfl | ⟨e, he⟩
    · cases h
      exact ⟨l, final, List.append_nil _, by rwa [hq], List.append_nil _⟩
    · rw [he.walkFrom_eq hq] at h
      cases h
  · rintro ⟨l, final, rfl, hwalk, rfl⟩
    have h := hwalk.walkFrom_append (show length = length + ([] : List Word).length from rfl)
    rw [List.append_nil] at h
    rw [h, walkFrom]
    dsimp only
    rw [List.append_nil]

/-- It ends at the first instruction that offends. -/
theorem walkFrom_eq_error (hl : length = p + ws.length) :
    walkFrom length 0 p current ws = .error e ↔
      ∃ l final q rest, ws = l.words ++ rest ∧ Walk current p l final q ∧
        Offends length final q rest e := by
  have hend {l : Tagged} {final : Section} {q : Nat} {rest : List Word}
      (hws : ws = l.words ++ rest) (hwalk : Walk current p l final q) :
      length = q + rest.length := by
    rw [hl, hws, List.length_append, hwalk.stop_eq, Nat.add_assoc]
  constructor
  · intro h
    obtain ⟨l, final, q, rest, hws, hwalk, hrest⟩ := exists_walk current hl
    have hq := hend hws hwalk
    rw [hws, hwalk.walkFrom_append hq] at h
    rcases hrest with rfl | ⟨x, hx⟩
    · cases h
    · rw [hx.walkFrom_eq hq] at h
      cases h
      exact ⟨l, final, q, rest, hws, hwalk, hx⟩
  · rintro ⟨l, final, q, rest, hws, hwalk, hx⟩
    have hq := hend hws hwalk
    rw [hws, hwalk.walkFrom_append hq, hx.walkFrom_eq hq]

end

end SpirvModule
