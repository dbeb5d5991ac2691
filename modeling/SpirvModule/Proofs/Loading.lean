import SpirvModule.Proofs.Bound

/-!
# Loading a module again

A walk over the words of a session meets no malformed instruction. It can only be stopped
by the order of sections: a variable or an undefined value in front of the types moves the
running section to the types, and an instruction that is at home before them comes too late
then. A module opens unless one follows the other in this way, or the largest id is defined.

Results:
* `walk_place`: how a walk over chunks in the order of their homes ends.
* `Reached.loads_iff`: the sessions whose words read as a module and open again.
* `ReachedUnder.loads`: they stay so until a variable or an undefined value is put in front
  of the types.
-/
namespace SpirvModule

namespace Instruction

/-- Whether an instruction has to stand in front of the types. -/
def Early (i : Instruction) : Prop := ∃ home ∈ i.home?, home < .types

instance (i : Instruction) : Decidable i.Early :=
  inferInstanceAs (Decidable (∃ home ∈ i.home?, home < .types))

end Instruction

/-! ## The walk over chunks -/

/-- Whether no variable and no undefined value stands in front of an instruction that has to stand
in front of the types. -/
def Settled (is : List Instruction) : Prop := is.Pairwise fun i j => i.Wanders → ¬ j.Early

/-- Whether instructions that have a home come in the order of their homes. -/
def HomesAscend (is : List Instruction) : Prop :=
  is.Pairwise fun i j => ∀ a ∈ i.home?, ∀ b ∈ j.home?, a ≤ b

instance (is : List Instruction) : Decidable (Settled is) :=
  inferInstanceAs (Decidable (is.Pairwise _))

namespace Section

/-- Whether a walk goes over `is` to the end when the running section is `current`. -/
def Passes (current : Section) (is : List Instruction) : Prop :=
  Settled is ∧ (current = .types → ∀ j ∈ is, ¬ j.Early)

/-- Whether `current` is not behind the homes of `is`, or was moved to the types. -/
def Level (current : Section) (is : List Instruction) : Prop :=
  current = .types ∨ ∀ j ∈ is, ∀ home ∈ j.home?, current ≤ home

variable {current home : Section} {i : Instruction} {is : List Instruction}

theorem not_early_of_le (h : .types ≤ current) (hj : ∀ j ∈ is, ∀ home ∈ j.home?, current ≤ home) :
    ∀ j ∈ is, ¬ j.Early := by
  intro j hmem hearly
  obtain ⟨home, hh, hlt⟩ := hearly
  have hle := hj j hmem home hh
  rw [le_iff] at h hle
  rw [lt_iff] at hlt
  omega

theorem passes_home (hh : i.home? = some home) (h : current ≤ home)
    (ho : ∀ j ∈ is, ∀ b ∈ j.home?, home ≤ b) : current.Passes (i :: is) ↔ home.Passes is := by
  have hw : ¬ i.Wanders := fun hw => by rw [Instruction.home?_of_wanders hw] at hh; cases hh
  simp only [Passes, Settled, List.pairwise_cons]
  constructor
  · rintro ⟨⟨-, hs⟩, -⟩
    refine ⟨hs, ?_⟩
    rintro rfl
    exact not_early_of_le (Nat.le_refl _) ho
  · rintro ⟨hs, -⟩
    refine ⟨⟨fun _ _ hwander => absurd hwander hw, hs⟩, ?_⟩
    rintro rfl
    rw [List.forall_mem_cons]
    refine ⟨?_, not_early_of_le h ho⟩
    rintro ⟨b, hb, hlt⟩
    rw [hh, Option.mem_some_iff] at hb
    subst hb
    rw [le_iff] at h
    rw [lt_iff] at hlt
    omega

theorem passes_wander (hw : i.Wanders) (h : current < .types) :
    current.Passes (i :: is) ↔ Section.types.Passes is := by
  simp only [Passes, Settled, List.pairwise_cons]
  constructor
  · rintro ⟨⟨hi, hs⟩, -⟩
    exact ⟨hs, fun _ j hj => hi j hj hw⟩
  · rintro ⟨hs, hearly⟩
    refine ⟨⟨fun j hj _ => hearly trivial j hj, hs⟩, ?_⟩
    rintro rfl
    exact absurd h (Nat.lt_irrefl _)

theorem passes_stay (hh : i.home? = none) (hw : i.Wanders → .types ≤ current)
    (hl : current.Level is) : current.Passes (i :: is) ↔ current.Passes is := by
  simp only [Passes, Settled, List.pairwise_cons]
  constructor
  · rintro ⟨⟨-, hs⟩, hearly⟩
    exact ⟨hs, fun hc j hj => hearly hc j (List.mem_cons_of_mem _ hj)⟩
  · rintro ⟨hs, hearly⟩
    refine ⟨⟨fun j hj hwander => ?_, hs⟩, fun hc => ?_⟩
    · rcases hl with hc | hle
      · exact hearly hc j hj
      · exact not_early_of_le (hw hwander) hle j hj
    · rw [List.forall_mem_cons]
      refine ⟨?_, hearly hc⟩
      rintro ⟨b, hb, -⟩
      rw [hh] at hb
      cases hb

end Section

/-- How a walk over instructions in the order of their homes ends: at the end, or at one that should
stand in front of the types. -/
inductive WalkEnds (current : Section) (is : List Instruction) :
    Except LoadError (List (Section × Nat)) → Prop
  | done {starts : List (Section × Nat)} (h : current.Passes is) : WalkEnds current is (.ok starts)
  | late {j : Instruction} {op : Opcode} {home : Section} (hj : j ∈ is)
      (hop : j.opcode? = some op) (hh : op.home? = some home) (hlt : home < .types)
      (h : ¬ current.Passes is) : WalkEnds current is (.error (.sectionOrder j.offset op home .types))

theorem WalkEnds.cons {current s : Section} {i : Instruction} {is : List Instruction}
    {e : Section × Nat} (hp : current.Passes (i :: is) ↔ s.Passes is)
    {r : Except LoadError (List (Section × Nat))} :
    WalkEnds s is r → WalkEnds current (i :: is) (match r with
      | .error x => .error x
      | .ok starts => .ok (e :: starts)) := by
  intro h
  cases h with
  | done h => exact .done (hp.mpr h)
  | late hj hop hh hlt h => exact .late (List.mem_cons_of_mem _ hj) hop hh hlt fun h' => h (hp.mp h')

/-- How a walk over chunks ends, wherever they stand. -/
theorem walk_place {length p : Nat} {cs : List (List Word)} {current : Section}
    (hc : ∀ c ∈ cs, IsChunk c) (hl : p + cs.flatten.length ≤ length)
    (ho : HomesAscend (place p cs)) (hlev : current.Level (place p cs)) :
    WalkEnds current (place p cs) (walkFrom length 0 p current cs.flatten) := by
  induction cs generalizing p current with
  | nil => exact .done ⟨.nil, fun _ => nofun⟩
  | cons c r ih =>
    obtain ⟨hchunk, hr⟩ := List.forall_mem_cons.mp hc
    rw [List.flatten_cons, List.length_append] at hl
    rw [place_cons] at ho hlev ⊢
    obtain ⟨hfirst, hrest⟩ := List.pairwise_cons.mp ho
    have ih := fun {current} => @ih (p + c.length) current hr (by omega) hrest
    rw [List.flatten_cons, walk_chunk current r.flatten hchunk (by omega)]
    have hadv := current.advanced (.ofChunk p c)
    generalize current.advance (Instruction.ofChunk p c).opcode? = a at hadv
    have hlevel : current.Level (place (p + c.length) r) :=
      hlev.imp_right fun h j hj => h j (List.mem_cons_of_mem _ hj)
    cases hadv with
    | @late op home hop hh hlt =>
      have hhome : (Instruction.ofChunk p c).home? = some home :=
        (Instruction.home?_of_opcode hop).trans hh
      -- only a running section that was moved to the types is behind a home
      have hcur : current = .types := by
        rcases hlev with hcur | hle
        · exact hcur
        · have := hle _ List.mem_cons_self home hhome
          rw [Section.le_iff] at this
          rw [Section.lt_iff] at hlt
          omega
      subst hcur
      exact .late List.mem_cons_self hop hh hlt fun h =>
        h.2 rfl _ List.mem_cons_self ⟨home, hhome, hlt⟩
    | @home home hh hle =>
      have hlater : ∀ j ∈ place (p + c.length) r, ∀ b ∈ j.home?, home ≤ b :=
        fun j hj b hb => hfirst j hj home hh b hb
      exact WalkEnds.cons (Section.passes_home hh hle hlater) (ih (.inr hlater))
    | wander hw hlt => exact WalkEnds.cons (Section.passes_wander hw hlt) (ih (.inl rfl))
    | stay hh hw => exact WalkEnds.cons (Section.passes_stay hh hw hlevel) (ih hlevel)

/-! ## Sessions -/

/-- What holds of any two chunks, one in front of the other, holds of them where they stand. -/
theorem pairwise_place {R : Instruction → Instruction → Prop} {cs : List (List Word)}
    (h : cs.Pairwise fun c d => ∀ p q, R (.ofChunk p c) (.ofChunk q d)) (p : Nat) :
    (place p cs).Pairwise R := by
  induction cs generalizing p with
  | nil => exact .nil
  | cons c r ih =>
    obtain ⟨hc, hr⟩ := List.pairwise_cons.mp h
    rw [place_cons, List.pairwise_cons]
    refine ⟨fun j hj => ?_, ih hr _⟩
    obtain ⟨front, d, back, rfl, rfl⟩ := place_split hj
    exact hc d (by simp) p _

theorem Fits.home {sec home : Section} {c : List Word} {p : Nat} (hc : Fits sec c)
    (hh : home ∈ (Instruction.ofChunk p c).home?) : home = sec := by
  obtain ⟨op, hop, hhome⟩ := Option.bind_eq_some_iff.mp hh
  have hall := hc.2 op hop
  rw [hhome] at hall
  simpa using hall

/-- The chunks of an outline come in the order of their homes. -/
theorem Outline.homesAscend (m : Outline) (p : Nat) : HomesAscend (place p m.contents.chunks) := by
  apply pairwise_place
  have hall : Section.all.Pairwise fun s t => s.index ≤ t.index := by decide
  rw [Contents.chunks, List.pairwise_flatMap]
  constructor
  · intro sec _
    refine List.pairwise_of_forall_mem_list fun c hc d hd p q a ha b hb => ?_
    rw [(m.fits sec c hc).home ha, (m.fits sec d hd).home hb]
    exact Nat.le_refl _
  · refine hall.imp fun {s t} hst c hc d hd p q a ha b hb => ?_
    rw [(m.fits s c hc).home ha, (m.fits t d hd).home hb]
    exact hst

/-- A module that reads as one starts with the magic word. -/
theorem magic_of_parse {ws : List Word} {v : ModuleView} (h : ModuleView.parse ws = .ok v) :
    ws[0]? = some magic := by
  obtain ⟨ver, reserved, l, final, hws, -⟩ := parse_eq_ok.mp h
  rw [hws]
  rfl

namespace Session

variable {s : Session} {m : Outline}

/-- Reading the words of a session comes down to the walk over its instructions. -/
theorem Shows.parse_ends (h : s.Shows m) (hmagic : s.words[0]? = some magic) :
    ∃ r, WalkEnds .capabilities s.listing r ∧
      ((∃ e, r = .error e ∧ ModuleView.parse s.words = .error e) ∨
        ∃ starts v, r = .ok starts ∧ ModuleView.parse s.words = .ok v) := by
  obtain ⟨ver, generator, bound, hparse⟩ := parse_eq_walk h.header hmagic
  have hends : WalkEnds .capabilities (place headerWords m.contents.chunks)
      (walkFrom s.words.length 0 headerWords .capabilities m.contents.chunks.flatten) :=
    walk_place (fun c => m.isChunk_of_mem_chunks) (by rw [h.length_words]) (m.homesAscend _)
      (.inr fun _ _ home _ => Nat.zero_le _)
  rw [← h.listing_eq, ← h.body] at hends
  refine ⟨_, hends, ?_⟩
  rw [hparse]
  cases walkFrom s.words.length 0 headerWords .capabilities (s.words.drop headerWords) with
  | error e => exact .inl ⟨e, rfl, rfl⟩
  | ok starts => exact .inr ⟨starts, _, rfl, rfl⟩

/-- The instructions that are found in the words of a session when they are read as a module. -/
theorem Shows.listing_of_parse (h : s.Shows m) {v : ModuleView}
    (hv : ModuleView.parse s.words = .ok v) :
    found s.words v.layout = s.listing := by
  obtain ⟨-, m', -, hread⟩ := parse_ok hv
  have h' := hread { s with layout := v.layout } rfl rfl rfl
  -- both outlines have the same words, and these are scanned in one way only
  have hscan : place headerWords m'.contents.chunks = place headerWords m.contents.chunks := by
    rw [← scan_flatten _ fun c => m'.isChunk_of_mem_chunks,
      ← scan_flatten _ fun c => m.isChunk_of_mem_chunks, ← h'.body, ← h.body]
  rw [h.listing_eq, ← hscan, ← h'.listing_eq]
  rfl

/-- Whether the largest id is defined, so that there is none to hand out. -/
def Exhausted (s : Session) : Prop := ∃ id ∈ definedIds s.listing, id.value = 0xFFFFFFFF

instance (s : Session) : Decidable s.Exhausted := inferInstanceAs (Decidable (∃ id ∈ _, _))

theorem firstFresh?_ofInstructions (policy : StructPolicy) (b : Word) (l : List Instruction) :
    firstFresh? b (Index.ofInstructions policy l).highestId? = none ↔
      ∃ id ∈ definedIds l, id.value = 0xFFFFFFFF := by
  rw [firstFresh?_eq_none]
  simp only [← Index.mem_definitions_ofInstructions policy]
  constructor
  · rintro ⟨high, hhigh, heq⟩
    exact ⟨high, (Index.highestId?_eq_some hhigh).1, heq⟩
  · rintro ⟨id, hid, heq⟩
    cases hhigh : (Index.ofInstructions policy l).highestId? with
    | none => exact absurd hid (Index.highestId?_eq_none hhigh id)
    | some high =>
      refine ⟨high, rfl, ?_⟩
      have hle := (Index.highestId?_eq_some hhigh).2 id hid
      have hlt := high.value.toNat_lt
      apply UInt32.toNat_inj.mp
      rw [heq, UInt32.le_iff_toNat_le] at hle
      simp only [UInt32.reduceToNat] at hle ⊢
      omega

/-- A session whose words read as a module can be opened from them unless ids are exhausted. -/
theorem Shows.ofWords_iff (h : s.Shows m) {v : ModuleView} (policy : StructPolicy)
    (hv : ModuleView.parse s.words = .ok v) :
    (∃ t, ofWords policy s.words = .ok t) ↔ ¬ s.Exhausted := by
  have hfound : Section.all.flatMap (fun sec => instructionsIn s.words (v.layout.span sec)) =
      s.listing := h.listing_of_parse hv
  unfold ofWords
  rw [hv]
  dsimp only
  rw [hfound, Exhausted, ← firstFresh?_ofInstructions policy v.bound]
  split
  · rename_i hnone
    simp [hnone]
  · rename_i fresh hsome
    simp [hsome]

end Session

/-- The first word of a session stays the magic one. -/
theorem Reached.magic {P : Session → Prop} {s : Session} (h : Reached P s) :
    s.words[0]? = some SpirvModule.magic := by
  induction h with
  | create policy v generator _ => rfl
  | ofWords hs _ =>
    obtain ⟨v, fresh, hv, -, hs⟩ := Session.ofWords_ok hs
    rw [hs, List.getElem?_set_ne (by decide)]
    exact magic_of_parse hv
  | perform hrun c hc _ ih =>
    obtain ⟨m, hm⟩ := hrun.sound
    rw [hm.header_moves (perform_leads hm hc).1 (by decide) (by decide), ih]

/-- Whether an error says that `j` should stand in front of the types. -/
def LoadError.Blames (e : LoadError) (j : Instruction) : Prop :=
  ∃ op home, j.opcode? = some op ∧ op.home? = some home ∧ home < .types ∧
    e = .sectionOrder j.offset op home .types

/-- The words of a session read as a module exactly if no variable and no undefined value stands in
front of an instruction that has to stand in front of the types; they are never malformed, and the
error is about such an instruction. If they read as a module, it opens again unless ids are
exhausted. -/
theorem Reached.loads_iff {s : Session} (h : Reachable s) :
    ((∃ v, ModuleView.parse s.words = .ok v) ↔ Settled s.listing) ∧
      (∀ e, ModuleView.parse s.words = .error e → ∃ j ∈ s.listing, e.Blames j) ∧
      ∀ policy, (∃ t, Session.ofWords policy s.words = .ok t) ↔
        Settled s.listing ∧ ¬ s.Exhausted := by
  obtain ⟨m, hm⟩ := h.sound
  have hpass : Section.capabilities.Passes s.listing ↔ Settled s.listing := by
    simp [Section.Passes]
  obtain ⟨r, hends, hparse⟩ := hm.shows.parse_ends h.magic
  rcases hparse with ⟨e, rfl, hparse⟩ | ⟨starts, v, rfl, hparse⟩
  · cases hends with
    | late hj hop hh hlt hp =>
      rw [hpass] at hp
      refine ⟨by simp [hparse, hp], fun e he => ?_, fun policy => ?_⟩
      · rw [hparse] at he
        exact ⟨_, hj, _, _, hop, hh, hlt, (Except.error.inj he).symm⟩
      · unfold Session.ofWords
        simp [hparse, hp]
  · cases hends with
    | done hp =>
      rw [hpass] at hp
      refine ⟨by simp [hparse, hp], fun e he => ?_, fun policy => ?_⟩
      · rw [hparse] at he
        cases he
      · rw [hm.shows.ofWords_iff policy hparse]
        simp [hp]

/-- A capability and a type, and a variable behind the type. -/
def variableBehindType : List Command :=
  [.addCapability .shader, .declareType (.scalar .bool), .addVariable ⟨.opVariable, [1, 2, 6]⟩]

theorem loads_iff_variableBehindType :
    Reachable ((Session.create .never ⟨1, 3⟩ 0).performAll variableBehindType) ∧
      (∃ v, ModuleView.parse ((Session.create .never ⟨1, 3⟩ 0).performAll
        variableBehindType).words = .ok v) ∧
      ∃ t, Session.ofWords .byMembers ((Session.create .never ⟨1, 3⟩ 0).performAll
        variableBehindType).words = .ok t := by
  have h : Reachable ((Session.create .never ⟨1, 3⟩ 0).performAll variableBehindType) :=
    Reached.performAll (.create _ _ _ trivial) (by decide +kernel)
  have hsettled : Settled ((Session.create .never ⟨1, 3⟩ 0).performAll variableBehindType).listing :=
    by decide +kernel
  exact ⟨h, h.loads_iff.1.mpr hsettled, (h.loads_iff.2.2 _).mpr ⟨hsettled, by decide +kernel⟩⟩

/-- A variable that is put in front of a capability. Every command is answered, and what is left is
no module. -/
theorem variable_before_capability :
    ¬ ∀ s, ReachedUnder (fun _ => True) (fun s c => c.Answered s) s →
      ∃ v, ModuleView.parse s.words = .ok v := by
  intro h
  obtain ⟨v, hv⟩ := h ((Session.create .never ⟨1, 3⟩ 0).performAll
      [.addCapability .shader, .insert 5 ⟨.opVariable, [1, 2, 6]⟩])
    (ReachedUnder.performAll (.create _ _ _ trivial) (by decide +kernel))
  have herr : ModuleView.parse ((Session.create .never ⟨1, 3⟩ 0).performAll
      [.addCapability .shader, .insert 5 ⟨.opVariable, [1, 2, 6]⟩]).words =
        .error (.sectionOrder 9 .opCapability .capabilities .types) := by
    rfl
  rw [herr] at hv
  cases hv

/-! ## Runs that stay clear -/

theorem stays_words {sec : Section} {op : Operation} (h : op.opcode.Wanders → ¬ sec < .types) :
    Stays sec op.words := by
  intro o ho
  rw [Operation.opcode?_words, Option.some.injEq] at ho
  exact ho ▸ h

theorem stays_nop (sec : Section) : Stays sec [Edit.nopWord] := by
  intro o ho hw
  rw [List.headD_cons, opcode?_nopWord, Option.some.injEq] at ho
  subst ho
  exact absurd hw (by decide)

theorem Contents.Clear.update {m : Contents} (h : m.Clear) {sec : Section} {x : List (List Word)}
    (hx : ∀ c ∈ x, Stays sec c) : Contents.Clear (Function.update m sec x) := by
  intro s c hc
  by_cases hs : s = sec
  · subst hs
    rw [Function.update_self] at hc
    exact hx c hc
  · rw [Function.update_of_ne hs] at hc
    exact h s c hc

/-- Operations may be appended to sections that they do not have to stay out of. -/
theorem Contents.Clear.appendAll {m : Contents} (h : m.Clear) {l : List (Section × Operation)}
    (hl : ∀ e ∈ l, e.2.opcode.Wanders → ¬ e.1 < .types) : (m.appendAll l).Clear := by
  induction l generalizing m with
  | nil => exact h
  | cons e r ih =>
    obtain ⟨he, hr⟩ := List.forall_mem_cons.mp hl
    refine ih (h.update fun c hc => ?_) hr
    rcases List.mem_append.mp hc with hc | hc
    · exact h _ c hc
    · rw [List.mem_singleton.mp hc]
      exact stays_words he

namespace Outline.Splits

variable {m : Outline} {sec : Section} {p : Nat} {xs ys zs new : List (List Word)}

theorem clear_exchange (hm : m.Splits sec p xs ys zs) (hn : ∀ c ∈ new, Fits sec c)
    (h : m.contents.Clear) (hnew : ∀ c ∈ new, Stays sec c) :
    (hm.exchange hn).contents.Clear := by
  have hold : ∀ c ∈ xs ++ (ys ++ zs), Stays sec c := fun c hc => h sec c (hm.contents_eq ▸ hc)
  apply h.update
  intro c hc
  simp only [List.mem_append] at hc hold
  rcases hc with hc | hc | hc
  · exact hold c (.inl hc)
  · exact hnew c hc
  · exact hold c (.inr (.inr hc))

/-- Operands do not matter. -/
theorem stays_operands {w : Word} {us vs : List Word} (hm : m.Splits sec p xs [w :: us] zs)
    (h : m.contents.Clear) : ∀ c ∈ [w :: vs], Stays sec c := by
  intro c hc
  rw [List.mem_singleton.mp hc]
  exact h sec (w :: us) (by simp [hm.contents_eq])

end Outline.Splits

namespace Command

/-- The operation that a command puts in as it is given, and where it goes when that may be a
section before the types. -/
def given? (s : Session) : Command → Option (Section × Operation)
  | insert p op => (s.layout.placement op.opcode p).map (·, op)
  | replace p op => (s.layout.containing p).map (·, op)
  | addDecoration op => some (.annotations, op)
  | addExecutionMode op => some (.executionModes, op)
  | _ => none

/-- Whether a command puts a variable or an undefined value in front of the types. -/
def Strays (s : Session) (c : Command) : Prop :=
  ∃ e ∈ c.given? s, e.2.opcode.Wanders ∧ e.1 < .types

instance (s : Session) (c : Command) : Decidable (c.Strays s) :=
  inferInstanceAs (Decidable (∃ e ∈ c.given? s, _))

end Command

namespace Session

/-- No variable and no undefined value stands in a section before the types. -/
def Clear (s : Session) : Prop := s.contents.Clear

variable {s t : Session} {m : Outline}

theorem Shows.clear (h : s.Shows m) : s.Clear ↔ m.contents.Clear := by rw [Clear, h.contents_eq]

/-- Then none stands in front of an instruction that has to stand in front of the types. -/
theorem Shows.settled (h : s.Shows m) (hclear : s.Clear) : Settled s.listing := by
  rw [h.clear] at hclear
  rw [h.listing_eq]
  apply pairwise_place
  have hall : Section.all.Pairwise fun s t => s.index ≤ t.index := by decide
  -- an instruction that wanders is in the types at least, and so are those behind it
  have hlater {a b : Section} (hab : a.index ≤ b.index) {c d : List Word}
      (hc : c ∈ m.contents a) (hd : d ∈ m.contents b) (p q : Nat)
      (hw : (Instruction.ofChunk p c).Wanders) : ¬ (Instruction.ofChunk q d).Early := by
    rintro ⟨home, hh, hlt⟩
    obtain ⟨op, hop, hw⟩ := hw
    have hstays := hclear a c hc op hop hw
    rw [(m.fits b d hd).home hh] at hlt
    rw [Section.lt_iff] at hstays hlt
    omega
  rw [Contents.chunks, List.pairwise_flatMap]
  constructor
  · intro sec _
    exact List.pairwise_of_forall_mem_list fun c hc d hd p q => hlater (Nat.le_refl _) hc hd p q
  · exact hall.imp fun {a b} hab c hc d hd p q => hlater hab hc hd p q

end Session

namespace Command

theorem not_lt_types {sec : Section} (h : sec = .types) : ¬ sec < .types := h ▸ Nat.lt_irrefl _

/-- What a command appends goes behind the section before the types, or is not an operation that has
to stay out of it. -/
theorem Appended.stays {s : Session} {c : Command} {a : Answer} {l : List (Section × Operation)}
    (h : c.Appended s a l) (hc : ¬ c.Strays s) :
    ∀ e ∈ l, e.2.opcode.Wanders → ¬ e.1 < .types := by
  -- operations of the library's own making do not wander
  have made {sec : Section} {op : Operation} (o : Opcode) (ho : op.opcode = o)
      (hop : ¬ o.Wanders) : ∀ e ∈ [(sec, op)], e.2.opcode.Wanders → ¬ e.1 < .types := by
    intro e he hw
    rw [List.mem_singleton.mp he] at hw
    exact absurd (ho ▸ hw) hop
  have atTypes {k : List (Section × Operation)} (hk : ∀ e ∈ k, e.1 = .types) :
      ∀ e ∈ k, e.2.opcode.Wanders → ¬ e.1 < .types := fun e he _ => not_lt_types (hk e he)
  -- an operation that is given is checked
  have given {sec : Section} {op : Operation} (hg : c.given? s = some (sec, op)) :
      ∀ e ∈ [(sec, op)], e.2.opcode.Wanders → ¬ e.1 < .types := by
    intro e he hw hlt
    rw [List.mem_singleton.mp he] at hw hlt
    exact hc ⟨(sec, op), hg, hw, hlt⟩
  cases h with
  | newId => exact nofun
  | declareType hl => exact atTypes hl.types
  | declareStruct hl =>
    refine atTypes ?_
    obtain rfl | rfl := hl <;> simp
  | addType | addConstant | addVariable => exact atTypes (by simp)
  | addConstantImmediate hl =>
    refine atTypes ?_
    intro e he
    rcases List.mem_append.mp he with he | he
    · exact hl.types e he
    · rw [List.mem_singleton.mp he]
  | addSpecConstantImmediate hl =>
    intro e he
    simp only [List.mem_append, List.mem_cons, List.not_mem_nil, or_false] at he
    rcases he with he | rfl | rfl
    · exact atTypes hl.types e he
    · exact fun _ => not_lt_types rfl
    · exact made .opDecorate rfl (by decide) _ List.mem_cons_self
  | addDecoration op => exact given rfl
  | addExecutionMode op => exact given rfl
  | importExtInst hl =>
    obtain ⟨-, rfl⟩ | rfl := hl
    · exact nofun
    · exact made .opExtInstImport rfl (by decide)
  | addFunction ops =>
    intro e he _
    obtain ⟨op, -, rfl⟩ := List.mem_map.mp he
    exact Nat.not_lt.mpr (Nat.le_succ _)
  | addCapability c => exact made .opCapability rfl (by decide)
  | addExtension name => exact made .opExtension rfl (by decide)
  | decorateStorageBuffer i => exact made .opDecorate rfl (by decide)
  | setName i text => exact made .opName rfl (by decide)
  | setMemberName i member text => exact made .opMemberName rfl (by decide)

end Command

/-- A command that is answered keeps the sections before the types clear unless it strays. -/
theorem perform_clear {s t : Session} {m : Outline} {c : Command} {a : Answer} (h : s.Sound m)
    (hclear : m.contents.Clear) (hc : c.Proper s) (hrun : s.perform c = (.ok a, t))
    (hstray : ¬ c.Strays s) : ∃ m', t.Sound m' ∧ m'.contents.Clear := by
  cases perform_outcome h hc hrun with
  | adds hl hadds =>
    obtain ⟨m', h', hcontents⟩ := hadds.sound h
    exact ⟨m', h', hcontents ▸ hclear.appendAll (hl.stays hstray)⟩
  | @insert p op sec u xs zs hs hsec hu hm hf =>
    refine ⟨_, (hu.sound h).inserted (hu.editable hs) hm hf, hm.clear_exchange hf hclear ?_⟩
    intro d hd
    rw [List.mem_singleton.mp hd]
    refine stays_words fun hw hlt => hstray ⟨(sec, op), ?_, hw, hlt⟩
    simp [Command.given?, hsec]
  | @replace p op sec c xs zs hs hsec hh hm hf =>
    refine ⟨_, h.replaced hs hm hf, hm.clear_exchange hf hclear ?_⟩
    intro d hd
    rw [List.mem_singleton.mp hd]
    refine stays_words fun hw hlt => hstray ⟨(sec, op), ?_, hw, hlt⟩
    simp [Command.given?, hsec]
  | @remove p sec c xs zs hs hm =>
    refine ⟨_, h.blanked hs hm, hm.clear_exchange _ hclear ?_⟩
    intro d hd
    rw [List.eq_of_mem_replicate hd]
    exact stays_nop sec
  | beginModify hs hm => exact ⟨m, h.opened hm, hclear⟩
  | operands hb hm hl hnew =>
    have hn := OperandChange.length_apply _ hnew
    have hf := hm.fits_operands hn
    exact ⟨_, h.overwritten hb hm hl hf hn, hm.clear_exchange hf hclear (hm.stays_operands hclear)⟩
  | endModify hb hi => exact ⟨m, h.closed _, hclear⟩
  | modifyOperands hs hm hnew =>
    have hn := OperandChange.length_apply _ hnew
    have hf := hm.fits_operands hn
    exact ⟨_, h.modified hm hf hn, hm.clear_exchange hf hclear (hm.stays_operands hclear)⟩

namespace ReachedUnder

variable {s : Session}

theorem clear (h : ReachedUnder (fun _ => True) (fun s c => c.Answered s ∧ ¬ c.Strays s) s) :
    ∃ m, s.Sound m ∧ m.contents.Clear := by
  induction h with
  | create policy v generator _ =>
    exact ⟨_, Session.create_sound policy v generator, fun _ _ hc => nomatch hc⟩
  | ofWords hs _ =>
    obtain ⟨m, hm, -, -, hclear⟩ := Session.ofWords_sound hs
    exact ⟨m, hm, hclear⟩
  | perform _ c hc hr ih =>
    obtain ⟨m, hm, hclear⟩ := ih
    obtain ⟨⟨a, ha⟩, hstray⟩ := hr
    exact perform_clear hm hclear hc (Prod.ext ha rfl) hstray

/-- In a run whose commands are answered and put no variable and no undefined value in front of the
types, the words read as a module at every point. -/
theorem loads (h : ReachedUnder (fun _ => True) (fun s c => c.Answered s ∧ ¬ c.Strays s) s) :
    ∃ v, ModuleView.parse s.words = .ok v := by
  obtain ⟨m, hm, hclear⟩ := h.clear
  obtain ⟨r, hends, hparse⟩ := hm.shows.parse_ends h.reachable.magic
  have hsettled := hm.shows.settled (hm.shows.clear.mpr hclear)
  rcases hparse with ⟨e, rfl, -⟩ | ⟨starts, v, -, hv⟩
  · cases hends with
    | late _ _ _ _ hp => exact absurd ⟨hsettled, nofun⟩ hp
  · exact ⟨v, hv⟩

end ReachedUnder

end SpirvModule
