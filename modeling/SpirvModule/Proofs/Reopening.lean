import SpirvModule.Proofs.Allocation
import SpirvModule.Proofs.Loading

/-!
# Opening the module of a session again

When the words of a session are opened again, the instructions are those that the session has: words
can be scanned in one way only, although an instruction without a home may count to another section.
The bound in the header is kept if it is above all ids.

Results:
* `ofWords_words`, `words_of_ofWords`: what opening changes, and what it finds.
* `Shows.listing_eq_scan`: the instructions are a scan of the words.
* `firstFresh?_bound`, `IdsBelow.firstFresh?_bound`: a bound above all ids is handed out first.
* `ReachedUnder.reopens`: what a run leaves behind opens again, with the same words, bound and
  instructions.
-/
namespace SpirvModule

namespace Session

variable {s : Session} {m : Outline}

/-- A module that opens, checked by what can be computed of its session. -/
theorem opens_of_any {policy : StructPolicy} {ws : List Word} {P : Session → Bool}
    (h : (ofWords policy ws).toOption.any P) : ∃ s, ofWords policy ws = .ok s ∧ P s := by
  cases hs : ofWords policy ws with
  | error e =>
    rw [hs] at h
    cases h
  | ok s =>
    rw [hs] at h
    exact ⟨s, rfl, h⟩

/-- Opening changes the bound and no other word. -/
theorem ofWords_words {policy : StructPolicy} {ws : List Word} (h : ofWords policy ws = .ok s) :
    s.words = ws.set boundWord s.bound := by
  obtain ⟨v, fresh, -, -, rfl⟩ := ofWords_ok h
  rfl

/-- The words that are opened are a header and those of the sections. -/
theorem words_of_ofWords {policy : StructPolicy} {ws : List Word} (h : ofWords policy ws = .ok s) :
    ws = ws.take headerWords ++ s.contents.chunks.flatten := by
  obtain ⟨m, hm, -⟩ := ofWords_sound h
  have hbody : ws.drop headerWords = m.contents.chunks.flatten := by
    rw [← hm.shows.body, ofWords_words h, List.drop_set_of_lt (by decide)]
  rw [hm.shows.contents_eq, ← hbody, List.take_append_drop]

/-- The instructions of a session are a scan of its words behind the header. -/
theorem Shows.listing_eq_scan (h : s.Shows m) :
    s.listing = scan headerWords (s.words.drop headerWords) := by
  rw [h.listing_eq, h.body, scan_flatten _ fun c => m.isChunk_of_mem_chunks]

/-- The bound of a module is the word that stands in its place. -/
theorem bound_of_parse {ws : List Word} {v : ModuleView} (hv : ModuleView.parse ws = .ok v) :
    ws[boundWord]? = some v.bound := by
  obtain ⟨ver, reserved, l, final, rfl, -⟩ := parse_eq_ok.mp hv
  rfl

/-- The bound is the id to hand out first if it is above all ids. -/
theorem firstFresh?_bound (s : Session) {highest : Option Id}
    (h : ∀ id ∈ highest, id.value < s.bound) : firstFresh? s.bound highest = some s.fresh := by
  have hleast : (Id.ofWord? s.bound).getD .one = s.fresh := by
    rw [bound, Id.ofWord?_value]
    rfl
  unfold firstFresh?
  rw [hleast]
  cases highest with
  | none => rfl
  | some id => exact if_pos (h id rfl)

/-- The same of a session with all ids below its bound. -/
theorem IdsBelow.firstFresh?_bound (h : s.IdsBelow) (policy : StructPolicy) :
    firstFresh? s.bound (Index.ofInstructions policy s.listing).highestId? = some s.fresh := by
  apply s.firstFresh?_bound
  intro id hid
  apply h
  rw [← Index.mem_definitions_ofInstructions policy]
  exact (Index.highestId?_eq_some hid).1

/-- A session with all ids below its bound opens again from its words, if they read as a module. -/
theorem Shows.reopens (h : s.Shows m) (hb : s.words[boundWord]? = some s.bound)
    (hbelow : s.IdsBelow) {v : ModuleView} (hv : ModuleView.parse s.words = .ok v)
    (policy : StructPolicy) :
    ∃ t, ofWords policy s.words = .ok t ∧ t.words = s.words ∧ t.fresh = s.fresh ∧
      t.listing = s.listing := by
  have hbound : v.bound = s.bound := Option.some.inj ((bound_of_parse hv).symm.trans hb)
  have hexhausted : ¬ s.Exhausted := by
    rintro ⟨id, hid, heq⟩
    have hlt := hbelow id hid
    have hmax := s.bound.toNat_lt
    rw [UInt32.lt_iff_toNat_lt, heq] at hlt
    simp only [UInt32.reduceToNat] at hlt
    omega
  obtain ⟨t, ht⟩ := (h.ofWords_iff policy hv).mpr hexhausted
  obtain ⟨v', fresh, hv', hfresh, rfl⟩ := ofWords_ok ht
  obtain rfl : v = v' := Except.ok.inj (hv.symm.trans hv')
  have hsame : fresh = s.fresh := by
    rw [h.listing_of_parse hv, hbound, hbelow.firstFresh?_bound] at hfresh
    exact (Option.some.inj hfresh).symm
  subst hsame
  obtain ⟨m', -, hshows, -⟩ := ofWords_shows ht
  have hwords : s.words.set boundWord s.fresh.value = s.words := by
    obtain ⟨hlt, heq⟩ := List.getElem?_eq_some_iff.mp hb
    rw [← bound, ← heq, List.set_getElem_self]
  refine ⟨_, ht, hwords, rfl, ?_⟩
  rw [hshows.listing_eq_scan, h.listing_eq_scan]
  exact congrArg (fun ws => scan headerWords (ws.drop headerWords)) hwords

end Session

/-- What a run leaves behind opens again as it is, as long as all commands are answered, no variable
and no undefined value comes in front of the types, and no instruction is made to define an id that
is not below the bound. -/
theorem ReachedUnder.reopens {s : Session} (h : ReachedUnder (fun _ => True)
      (fun s c => c.Answered s ∧ ¬ c.Strays s ∧ ¬ c.Overreaches s) s) (policy : StructPolicy) :
    ∃ t, Session.ofWords policy s.words = .ok t ∧ t.words = s.words ∧ t.fresh = s.fresh ∧
      t.listing = s.listing := by
  obtain ⟨m, hm⟩ := h.reachable.sound
  obtain ⟨v, hv⟩ := (h.mono (fun _ h => h) fun _ _ hr => ⟨hr.1, hr.2.1⟩).loads
  have hbelow := (h.mono (fun _ h => h) fun _ _ hr => hr.2.2).idsBelow
  exact hm.shows.reopens h.reachable.boundWord_eq hbelow hv policy

end SpirvModule
