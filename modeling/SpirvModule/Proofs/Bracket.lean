import SpirvModule.Proofs.Locked
import SpirvModule.Proofs.Lookup
import SpirvModule.Proofs.Outcome
import SpirvModule.Proofs.Refine

/-!
# Brackets

A bracket keeps one instruction to itself. While it is open, commands may change the operands of
that instruction and hand out ids; whatever else there is to do is refused. So the words around the
instruction, the layout and the index wait until the bracket is closed, which enters the changed
instruction in the place of the old one.

Results:
* `Command.Inside`, `perform_inside`: what one command does while a bracket is open.
* `Session.performAll_kept`: what any number of commands leave as it is.
* `Session.Sound.closed_scans`: the look-ups after the bracket is closed.
* `Reached.bracket_isolates`: all of it, for a bracket that a run opens.
-/
namespace SpirvModule

/-! ## One command -/

/-- What a command that does not close the bracket `b` is answered inside of it, and the session that
it leaves behind. -/
inductive Command.Inside (s : Session) (b : Bracket) (c : Command) :
    Except Failure Answer × Session → Prop
  | needless {a : Answer} (hc : c.needless s) : Inside s b c (.ok a, s)
  | newId {i : Id} {u : Session} (hc : c = .newId) (hu : Edit.Raised s u) :
      Inside s b c (.ok (.id i), u)
  | operands {change : OperandChange} {new : List Word} (hc : c = .operands b.offset change)
      (hn : new.length = b.wordCount - 1) :
      Inside s b c (.ok (.operands new), s.overwritten (b.offset + 1) (b.wordCount - 1) new)
  | breaksOff {change : OperandChange} (hc : c = .operands b.offset change) :
      Inside s b c (.error .crash, s)
  | refused {x : EditError} {u : Session} (hu : u = s ∨ c.allocates ∧ Edit.Raised s u) :
      Inside s b c (.error (.refused x), u.breached x)

/-- Whether the bracket `b` is open, around an instruction. -/
def Session.Surrounds (s : Session) (b : Bracket) : Prop :=
  s.bracket = some b ∧ ∃ i, s.instruction? b.offset = some i ∧ i.wordCount = b.wordCount

namespace Session.Surrounds

variable {s : Session} {b : Bracket}

theorem not_editable (h : s.Surrounds b) : ¬ s.Editable := by
  intro he
  cases h.1.symm.trans he.2

theorem bounds (h : s.Surrounds b) :
    headerWords ≤ b.offset ∧ b.offset + b.wordCount ≤ s.words.length ∧ 0 < b.wordCount := by
  obtain ⟨-, i, hi, hl⟩ := h
  obtain ⟨hp, hlen⟩ := at?_bounds hi
  exact ⟨hp, hl ▸ hlen, hl ▸ Nat.succ_pos _⟩

theorem not_open_at (h : s.Surrounds b) {p : Nat} (hp : p ≠ b.offset) :
    ¬ (s.breach = none ∧ ∃ b', s.bracket = some b' ∧ b'.offset = p) := by
  rintro ⟨-, b', hb', rfl⟩
  obtain rfl : b = b' := Option.some.inj (h.1.symm.trans hb')
  exact hp rfl

/-- A change of the operands in the bracket keeps their number. -/
theorem length_apply (h : s.Surrounds b) {change : OperandChange} {new : List Word}
    (hnew : change.apply ((s.words.drop (b.offset + 1)).take (b.wordCount - 1)) = some new) :
    new.length = b.wordCount - 1 := by
  obtain ⟨-, hlen, hpos⟩ := h.bounds
  rw [change.length_apply hnew, List.length_take, List.length_drop]
  omega

end Session.Surrounds

/-- Inside a bracket every command but its end is needless, hands out an id, is about the operands in
the bracket, or is refused. -/
theorem perform_inside {s : Session} {b : Bracket} (h : s.Surrounds b) {c : Command}
    (hc : c ≠ .endModify b.offset) : c.Inside s b (s.perform c) := by
  have stopped (hx : ∃ x, c.edit.Stops x s) : c.Inside s b (s.perform c) := by
    obtain ⟨x, hx⟩ := hx
    rw [show s.perform c = (.error (.refused x), s.breached x) from hx]
    exact .refused (.inl rfl)
  by_cases hn : c.needless s
  · obtain ⟨a, ha⟩ := perform_needless hn
    rw [ha]
    exact .needless hn
  by_cases hin : c.insideBracket
  · cases c with
    | newId =>
      rcases Edit.newId_settles (s := s) with hx | ⟨i, u, hrun, -, -, hu, -⟩
      · exact stopped (Edit.stops_bind hx _)
      · rw [show s.perform .newId = (.ok (.id i), u) from Edit.run_map hrun _]
        exact .newId rfl hu
    | operands p change =>
      rcases Edit.operands_run (p := p) (s := s) change with
        (hx | ⟨new, t, hrun, -, b', hb', rfl, hnew, rfl⟩) | ⟨b', hb', rfl, -, hrun⟩
      · exact stopped (Edit.stops_bind hx _)
      · obtain rfl : b = b' := Option.some.inj (h.1.symm.trans hb')
        rw [show s.perform (.operands b.offset change) = (.ok (.operands new), _) from
          Edit.run_map hrun _]
        exact .operands rfl (h.length_apply hnew)
      · obtain rfl : b = b' := Option.some.inj (h.1.symm.trans hb')
        rw [show s.perform (.operands b.offset change) = (.error .crash, s) from
          Edit.run_map hrun _]
        exact .breaksOff rfl
    | endModify p =>
      have hother := h.not_open_at fun hp => hc (hp ▸ rfl)
      exact stopped (Edit.stops_bind (Edit.unbracketed_stops hother) _)
    | _ => cases hin
  obtain ⟨x, u, hu, hrun⟩ := perform_locked h.not_editable hn hin
  rw [hrun]
  exact .refused hu

/-- What is refused inside a bracket aborts the session. -/
theorem Session.Surrounds.refuses {s : Session} {b : Bracket} (h : s.Surrounds b) {c : Command}
    (hn : ¬ c.needless s) (hid : c ≠ .newId) (hops : ∀ change, c ≠ .operands b.offset change)
    (hend : c ≠ .endModify b.offset) :
    ∃ x, (s.perform c).1 = .error (.refused x) ∧ (s.perform c).2.aborted := by
  generalize hr : s.perform c = r
  cases hr ▸ perform_inside h hend with
  | needless hc => exact absurd hc hn
  | newId hc hu => exact absurd hc hid
  | operands hc hl => exact absurd hc (hops _)
  | breaksOff hc => exact absurd hc (hops _)
  | @refused x u hu => exact ⟨x, rfl, Edit.aborted_breached u x⟩

/-! ## Many commands -/

/-- A session without its words, its bound and its breach. -/
def Session.shell (s : Session) : Session := { s with words := [], fresh := .one, breach := none }

/-- What some commands leave of the session `s` that they are given to inside the bracket `b`. -/
structure Session.Kept (s : Session) (b : Bracket) (cs : List Command) (t : Session) : Prop where
  length : t.words.length = s.words.length
  word : ∀ k, t.words[k]? = s.words[k]? ∨ (k = boundWord ∧ ∃ c ∈ cs, c.allocates) ∨
    (b.offset < k ∧ k < b.offset + b.wordCount ∧ ∃ change, .operands b.offset change ∈ cs)
  shell : t.shell = s.shell
  sound : ∀ m, s.Sound m → (∃ m', t.Sound m') ∧ t.live = s.live

namespace Session.Kept

variable {s t u : Session} {b : Bracket} {cs ds : List Command}

theorem refl (s : Session) (b : Bracket) (cs : List Command) : s.Kept b cs s :=
  ⟨rfl, fun _ => .inl rfl, rfl, fun m h => ⟨⟨m, h⟩, rfl⟩⟩

theorem trans (h : s.Kept b cs u) (h' : u.Kept b ds t) : s.Kept b (cs ++ ds) t := by
  refine ⟨h'.length.trans h.length, fun k => ?_, h'.shell.trans h.shell, fun m hm => ?_⟩
  · rcases h'.word k with hk | ⟨hk, c, hc, ha⟩ | ⟨hl, hr, change, hc⟩
    · rw [hk]
      refine (h.word k).imp_right (Or.imp ?_ ?_)
      · exact fun ⟨hk, c, hc, ha⟩ => ⟨hk, c, List.mem_append_left _ hc, ha⟩
      · exact fun ⟨hl, hr, change, hc⟩ => ⟨hl, hr, change, List.mem_append_left _ hc⟩
    · exact .inr (.inl ⟨hk, c, List.mem_append_right _ hc, ha⟩)
    · exact .inr (.inr ⟨hl, hr, change, List.mem_append_right _ hc⟩)
  · obtain ⟨⟨m', hm'⟩, hlive⟩ := h.sound m hm
    obtain ⟨hsound, hlive'⟩ := h'.sound m' hm'
    exact ⟨hsound, hlive'.trans hlive⟩

theorem bracket (h : s.Kept b cs t) : t.bracket = s.bracket := congrArg (·.bracket) h.shell

theorem surrounds (h : s.Kept b cs t) (hb : s.Surrounds b) : t.Surrounds b := by
  obtain ⟨hopen, i, hi, hl⟩ := hb
  have hp := (at?_bounds hi).1
  refine ⟨h.bracket.trans hopen, ?_⟩
  have hword : t.words[b.offset]? = s.words[b.offset]? := by
    rcases h.word b.offset with hk | ⟨hk, -⟩ | ⟨hk, -⟩
    · exact hk
    · rw [hk] at hp
      exact absurd hp (by decide)
    · exact absurd hk (Nat.lt_irrefl _)
  obtain ⟨j, hj, hjl⟩ := at?_of_leading hi hword h.length
  exact ⟨j, hj, hjl.trans hl⟩

end Session.Kept

theorem Session.kept_raised {s u : Session} {b : Bracket} {c : Command} (hc : c.allocates)
    (hu : Edit.Raised s u) : s.Kept b [c] u := by
  refine ⟨hu.length_words, fun k => ?_, ?_, fun m h => ⟨⟨m, hu.sound h⟩, hu.live h⟩⟩
  · rcases hu with rfl | ⟨i, d, -, -, rfl⟩
    · exact .inl rfl
    · by_cases hk : k = boundWord
      · exact .inr (.inl ⟨hk, c, List.mem_singleton_self c, hc⟩)
      · exact .inl (List.getElem?_set_ne (Ne.symm hk))
  · rcases hu with rfl | ⟨i, d, -, -, rfl⟩ <;> rfl

theorem Session.kept_overwritten {s : Session} {b : Bracket} {change : OperandChange}
    {new : List Word} (hb : s.Surrounds b) (hn : new.length = b.wordCount - 1) :
    s.Kept b [.operands b.offset change] (s.overwritten (b.offset + 1) (b.wordCount - 1) new) := by
  obtain ⟨-, hfit, hpos⟩ := hb.bounds
  have hfit' : b.offset + 1 + new.length ≤ s.words.length := by omega
  refine ⟨?_, fun k => ?_, rfl, fun m h => h.live_overwritten hb.1 hn⟩
  · rw [overwritten, ← hn]
    exact length_replaceWords hfit'
  · by_cases hk : b.offset < k ∧ k < b.offset + b.wordCount
    · exact .inr (.inr ⟨hk.1, hk.2, change, List.mem_singleton_self _⟩)
    · rw [overwritten, ← hn]
      refine .inl ?_
      rcases Nat.lt_or_ge b.offset k with hlt | hge
      · exact getElem?_replaceWords_of_le hfit' (by omega)
      · exact getElem?_replaceWords (by omega) (by omega)

theorem Session.kept_breached (s : Session) (b : Bracket) (x : EditError) :
    s.Kept b [] (s.breached x) :=
  ⟨rfl, fun _ => .inl rfl, rfl, fun m h => ⟨⟨m, h.breached x⟩, h.live_congr (h.breached x) rfl⟩⟩

theorem Command.Inside.kept {s : Session} {b : Bracket} {c : Command}
    {r : Except Failure Answer × Session} (h : c.Inside s b r) (hb : s.Surrounds b) :
    s.Kept b [c] r.2 := by
  cases h with
  | needless _ | breaksOff _ => exact .refl s b [c]
  | newId hc hu => exact Session.kept_raised (hc ▸ rfl) hu
  | operands hc hn => exact hc ▸ Session.kept_overwritten hb hn
  | @refused x u hu =>
    have hraised : s.Kept b [c] u := by
      rcases hu with rfl | ⟨halloc, hu⟩
      · exact .refl u b [c]
      · exact Session.kept_raised halloc hu
    exact hraised.trans (Session.kept_breached u b x)

/-- However many commands there are, they keep what is not theirs as long as none closes the
bracket. -/
theorem Session.performAll_kept {s : Session} {b : Bracket} (hb : s.Surrounds b)
    {cs : List Command} (hcs : .endModify b.offset ∉ cs) : s.Kept b cs (s.performAll cs) := by
  induction cs generalizing s with
  | nil => exact .refl s b []
  | cons c cs ih =>
    obtain ⟨hc, hcs⟩ := not_or.mp (mt List.mem_cons.mpr hcs)
    have hfirst := (perform_inside hb (Ne.symm hc)).kept hb
    exact hfirst.trans (ih (hfirst.surrounds hb) hcs)

/-! ## The end of the bracket -/

namespace Session

variable {s t : Session} {m : Outline} {b : Bracket} {i j : Instruction}

/-- An open bracket is closed unless the session is aborted. -/
theorem Surrounds.closes (h : t.Surrounds b) (hlive : t.breach = none) :
    ∃ j, t.instruction? b.offset = some j ∧
      t.perform (.endModify b.offset) = (.ok .done, t.closed j) := by
  obtain ⟨hb, j, hj, -⟩ := h
  obtain ⟨_, u, hrun, rfl⟩ := Edit.endModify_answers hlive hb hj
  exact ⟨j, hj, Edit.run_map hrun _⟩

/-- Instructions in front of a place and behind it are told apart by their offsets. -/
theorem eq_of_append_offsets {p : Nat} {xs xs' ys ys' : List Instruction}
    (h : xs ++ ys = xs' ++ ys') (hx : ∀ i ∈ xs, i.offset < p) (hx' : ∀ i ∈ xs', i.offset < p)
    (hy : ∀ i ∈ ys, p < i.offset) (hy' : ∀ i ∈ ys', p < i.offset) : xs = xs' ∧ ys = ys' := by
  have front {a c : List Instruction} (ha : ∀ i ∈ a, i.offset < p) (hc : ∀ i ∈ c, p < i.offset) :
      (a ++ c).filter (fun i => i.offset < p) = a := by
    rw [List.filter_append, List.filter_eq_self.mpr fun i hi => by simpa using ha i hi,
      List.filter_eq_nil_iff.mpr fun i hi => by simpa using Nat.le_of_lt (hc i hi), List.append_nil]
  have hxs : xs = xs' := by rw [← front hx hy, h, front hx' hy']
  subst hxs
  exact ⟨rfl, List.append_cancel_left h⟩

/-- When the bracket is closed, the look-ups answer as scans do that find the changed instruction in
the place of the old one. -/
theorem Sound.closed_scans (h : s.Sound m) (hr : s.index.Reflects s.live) (hs : s.Editable)
    {p : Nat} (hp : s.IsPlace p) (hi : s.instruction? p = some i) {cs : List Command}
    (hk : (s.opened i).Kept ⟨p, i.wordCount⟩ cs t) (hj : t.instruction? p = some j) :
    (t.closed j).Scans (s.scanned.map fun k => if k.offset = p then j else k) := by
  obtain ⟨sec, xs, c, zs, hm, rfl⟩ := h.shows.split_of_instruction? hp hi
  obtain ⟨⟨m', h'⟩, hlive⟩ := hk.sound m (h.opened hm)
  have hb : t.bracket = some ⟨p, _⟩ := hk.bracket
  have hreflects : t.index.Reflects t.live := by
    rw [hlive, show t.index = _ from congrArg (·.index) hk.shell]
    exact (h.tracks_opened hs hm).reflects hr
  have hclosed := (h'.tracks_closed hb hj).reflects hreflects
  suffices heq : s.scanned.map (fun k => if k.offset = p then j else k) = (t.closed j).live by
    rw [heq]
    exact scans_of_ledger hclosed.holds
  obtain ⟨sec', xs', w, us, zs', hm', -⟩ := h'.split_of_bracket hb
  obtain rfl := Option.some.inj ((h'.shows.instruction?_of_splits hm').symm.trans hj)
  have hpos : 0 < c.length := (hm.isChunk (List.mem_singleton_self c)).pos
  have hpos' : 0 < (w :: us).length := Nat.succ_pos _
  -- the instructions around the bracket are the same in both outlines
  have haround := (h'.live_of_bracket hb hm').symm.trans
    (hlive.trans ((h.opened hm).live_of_bracket rfl hm))
  obtain ⟨hahead, hbehind⟩ := eq_of_append_offsets haround hm'.ahead_lt hm.ahead_lt
    (hm'.lt_behind hpos') (hm.lt_behind hpos)
  have same {l : List Instruction} (hl : ∀ k ∈ l, k.offset ≠ p) :
      l.map (fun k => if k.offset = p then .ofChunk p (w :: us) else k) = l := by
    refine (List.map_congr_left fun k hk => ?_).trans l.map_id
    exact if_neg (hl k hk)
  rw [h.shows.scanned_eq_live, h.live_of_splits hs.2 hm, (h'.closed _).live_of_splits rfl hm',
    List.map_append, List.map_append, List.flatten_singleton, List.flatten_singleton,
    same fun k hk => Nat.ne_of_lt (hm.ahead_lt k hk),
    same fun k hk => Nat.ne_of_gt (hm.lt_behind hpos k hk), hahead, hbehind]
  simp

/-- A bracket that opens takes its instruction out of the index and does nothing else. -/
theorem perform_beginModify {p : Nat} (hi : s.instruction? p = some i)
    (ha : (Command.beginModify p).Answered s) :
    s.Editable ∧ s.perform (.beginModify p) = (.ok .done, s.opened i) := by
  obtain ⟨a, ha⟩ := ha
  rcases Edit.beginModify_settles (p := p) (s := s) with ⟨x, hx⟩ | ⟨_, u, hrun, hs, j, hj, rfl⟩
  · rw [show s.perform (.beginModify p) = (.error (.refused x), _) from hx.bind _] at ha
    cases ha
  · obtain rfl := Option.some.inj (hi.symm.trans hj)
    exact ⟨hs, Edit.run_map hrun _⟩

/-- What holds of the session `t` that the commands `cs` lead to after a bracket was opened around
`i` in the session `s`, as long as the bracket is not closed. -/
structure Isolated (s : Session) (i : Instruction) (cs : List Command) (t : Session) : Prop where
  length_words : t.words.length = s.words.length
  /-- Words change by changes of operands in the bracket, and the bound by the hand-out of ids. -/
  word : ∀ k, t.words[k]? = s.words[k]? ∨ (k = boundWord ∧ ∃ c ∈ cs, c.allocates) ∨
    (i.offset < k ∧ k < i.offset + i.wordCount ∧ ∃ change, .operands i.offset change ∈ cs)
  layout : t.layout = s.layout
  /-- The index is that of the session in which the bracket was opened. -/
  index : t.index = s.index.unregister i
  /-- Whatever else there is to do fails, and aborts the session. -/
  refuses : ∀ c : Command, ¬ c.needless t → c ≠ .newId →
    (∀ change, c ≠ .operands i.offset change) → c ≠ .endModify i.offset →
    ∃ x, (t.perform c).1 = .error (.refused x) ∧ (t.perform c).2.aborted
  closes : ¬ t.aborted → (Command.endModify i.offset).Answered t
  /-- At a place of the module, the changed instruction is found instead of the old one. -/
  scans : s.IsPlace i.offset → ¬ t.aborted → ∃ j, t.instruction? i.offset = some j ∧
    (t.perform (.endModify i.offset)).2.Scans
      (s.scanned.map fun k => if k.offset = i.offset then j else k)

end Session

/-- A bracket isolates its instruction, whatever commands are given until it is closed. -/
theorem Reached.bracket_isolates {s : Session} (h : Reachable s) {p : Nat} {i : Instruction}
    (hi : s.instruction? p = some i) (ha : (Command.beginModify p).Answered s) {cs : List Command}
    (hcs : .endModify p ∉ cs) : s.Isolated i cs (s.performAll (.beginModify p :: cs)) := by
  obtain ⟨hs, hopen⟩ := Session.perform_beginModify hi ha
  obtain rfl := at?_offset hi
  have hrun : s.performAll (.beginModify i.offset :: cs) = (s.opened i).performAll cs := by
    show (s.perform (.beginModify i.offset)).2.performAll cs = _
    rw [hopen]
  have hb : (s.opened i).Surrounds ⟨i.offset, i.wordCount⟩ := ⟨rfl, i, hi, rfl⟩
  have hkept := Session.performAll_kept hb hcs
  rw [hrun]
  have hb' := hkept.surrounds hb
  have hlive (ht : ¬ ((s.opened i).performAll cs).aborted) :
      ((s.opened i).performAll cs).breach = none := by simpa [Session.aborted] using ht
  constructor
  · exact hkept.length
  · exact hkept.word
  · exact congrArg (·.layout) hkept.shell
  · exact congrArg (·.index) hkept.shell
  · exact fun c => hb'.refuses
  · intro ht
    obtain ⟨j, -, hclose⟩ := hb'.closes (hlive ht)
    exact ⟨.done, by rw [hclose]⟩
  · intro hp ht
    obtain ⟨m, hm⟩ := h.sound
    obtain ⟨j, hj, hclose⟩ := hb'.closes (hlive ht)
    refine ⟨j, hj, ?_⟩
    rw [hclose]
    exact hm.closed_scans h.reflects hs hp hi hkept hj

/-- A session in which an id has a name. -/
def named : Session := (Session.create .never ⟨1, 3⟩ 0).performAll [.setName .one "a"]

/-- Inside the bracket around the name an id is handed out, nothing is added, and the name becomes
another one. -/
def renamed : List Command := [.newId, .addFunction [], .operands 5 (.poke 1 fun _ => 98)]

theorem bracket_isolates_renamed :
    named.name? .one = some "a" ∧
      (named.performAll (.beginModify 5 :: renamed)).layout = named.layout ∧
      ((named.performAll (.beginModify 5 :: renamed)).perform (.endModify 5)).2.name? .one =
        some "b" := by
  have h : Reachable named := Reached.performAll (.create _ _ _ trivial) (by decide +kernel)
  have hi : named.instruction? 5 = some ⟨5, Word.lead 3 Opcode.opName.number, [1, 97]⟩ := by
    decide +kernel
  have hcs : .endModify 5 ∉ renamed := by simp [renamed]
  have hiso := h.bracket_isolates hi (by decide +kernel) hcs
  obtain ⟨j, hj, hscans⟩ := hiso.scans (by decide +kernel) (by decide +kernel)
  have hread : (named.performAll (.beginModify 5 :: renamed)).instruction? 5 =
      some ⟨5, Word.lead 3 Opcode.opName.number, [1, 98]⟩ := by decide +kernel
  obtain rfl := Option.some.inj (hread.symm.trans hj)
  refine ⟨by decide +kernel, hiso.layout, ?_⟩
  rw [hscans.name]
  decide +kernel

end SpirvModule
