import SpirvModule.Proofs.DatabaseText
import SpirvModule.Blessing.Directory

/-!
# What runs do to a database

A run blesses if there is no database, if it is asked to, or if the database says so. Then it keeps
the results of all scenarios that make a valid module, and writes the database with the remark that
runs bless. Any other run leaves the file as it is, and fails if a result is not the one that is
kept. So once a run has written the database, all that follow bless.

* `plainArguments`, `inputPaths`: the arguments, and the paths among them.
* `Request.asked`: what a run is asked for.
* `Request.kept`, `Request.Fails`: what becomes of the results of scenarios.
* `Directory.Holds`: the database that a directory holds.

Results:
* `Request.extend_error`, `Request.ofArguments_eq`: which arguments end a run at once, and what
  others ask for.
* `Progress.perform_goes_on`, `Progress.performAll_ok`: one scenario, and scenarios one after the
  other.
* `Directory.run_effect`: what one run does.
* `Directory.bless_after`, `Directory.unblessed_run_keeps`: what runs one after the other do.
-/
namespace SpirvModule

/-! ## Arguments -/

/-- The arguments that are no paths. -/
def plainArguments : List String → List String
  | [] => []
  | "--input" :: _ :: args => plainArguments args
  | a :: args => a :: plainArguments args

/-- The arguments behind `--input`, which are paths whatever they are. -/
def inputPaths : List String → List String
  | [] => []
  | "--input" :: path :: args => path :: inputPaths args
  | _ :: args => inputPaths args

section
variable {read : FileReader} {path a : String} {args : List String} {ws : List Word}

theorem plainArguments_cons (ha : a ≠ "--input") :
    plainArguments (a :: args) = a :: plainArguments args := by
  rw [plainArguments.eq_def]
  split <;> simp_all

theorem inputPaths_cons (ha : a ≠ "--input") : inputPaths (a :: args) = inputPaths args := by
  rw [inputPaths.eq_def]
  split <;> simp_all

/-- An argument is no `--input` if it is neither one with a path behind it nor the last one. -/
theorem ne_input (hpath : ∀ path rest, a = "--input" → args = path :: rest → False)
    (hlast : a = "--input" → args = [] → False) : a ≠ "--input" := by
  intro ha
  cases args with
  | nil => exact hlast ha rfl
  | cons path rest => exact hpath path rest ha rfl

theorem mem_of_mem_plainArguments (h : a ∈ plainArguments args) : a ∈ args := by
  fun_induction plainArguments args with
  | case1 => exact h
  | case2 _ args ih => exact List.mem_cons_of_mem _ (List.mem_cons_of_mem _ (ih h))
  | case3 b args _ ih =>
    rcases List.mem_cons.mp h with rfl | hrest
    · exact List.mem_cons_self
    · exact List.mem_cons_of_mem _ (ih hrest)

/-- Whether a run ends at once: an `--input` has no path, or a path leads to no module. -/
def Unloadable (read : FileReader) (args : List String) : Prop :=
  "--input" ∈ plainArguments args ∨ ∃ p ∈ inputPaths args, ∃ e, loadInput read p = .error e

theorem unloadable_cons (ha : a ≠ "--input") :
    Unloadable read (a :: args) ↔ Unloadable read args := by
  simp [Unloadable, plainArguments_cons ha, inputPaths_cons ha, ha.symm]

theorem unloadable_input (h : loadInput read path = .ok ws) :
    Unloadable read ("--input" :: path :: args) ↔ Unloadable read args := by
  simp [Unloadable, plainArguments, inputPaths, h]

theorem unloadable_input_error {e : TrialError} (h : loadInput read path = .error e) :
    Unloadable read ("--input" :: path :: args) :=
  .inr ⟨path, by simp [inputPaths], e, h⟩

namespace Request

/-- What a run is asked for, unless it ends at once. -/
def asked (read : FileReader) (args : List String) : Request where
  bless := "bless" ∈ plainArguments args
  input := (inputPaths args).getLast?.bind fun p => (loadInput read p).toOption.map (p, ·)
  names := (plainArguments args).filter (· ≠ "bless")

/-- An input counts unless another follows. -/
theorem asked_input (h : loadInput read path = .ok ws) (hu : ¬ Unloadable read args)
    (before : Option (String × List Word)) :
    (asked read ("--input" :: path :: args)).input.or before =
      (asked read args).input.or (some (path, ws)) := by
  rcases hl : (inputPaths args).getLast? with - | p
  · simp [asked, inputPaths, hl, h, List.getLast?_cons, Except.toOption]
  · obtain ⟨us, hus⟩ : ∃ us, loadInput read p = .ok us := by
      rcases hp : loadInput read p with e | us
      · exact absurd (.inr ⟨p, List.mem_of_getLast? hl, e, hp⟩) hu
      · exact ⟨us, rfl⟩
    simp [asked, inputPaths, hl, hus, List.getLast?_cons, Except.toOption]

/-- What ends a run at once is reported. -/
theorem extend_error (r : Request) (h : Unloadable read args) :
    ∃ said, extend read r args = .error said := by
  fun_induction extend read r args with
  | case1 r => simp [Unloadable, plainArguments, inputPaths] at h
  | case2 r path args ws hws ih => exact ih ((unloadable_input hws).mp h)
  | case3 => exact ⟨_, rfl⟩
  | case4 => exact ⟨_, rfl⟩
  | case5 r args ih => exact ih ((unloadable_cons (by decide)).mp h)
  | case6 r a args h1 h2 h3 ih =>
    have ha := ne_input h1 h2
    exact ih ((unloadable_cons ha).mp h)

/-- What other arguments ask for on top of `r`. -/
theorem extend_ok (r : Request) (h : ¬ Unloadable read args) :
    extend read r args = .ok ⟨r.bless || (asked read args).bless,
      (asked read args).input.or r.input, r.names ++ (asked read args).names⟩ := by
  fun_induction extend read r args with
  | case1 r => simp [asked, plainArguments, inputPaths]
  | case2 r path args ws hws ih =>
    rw [unloadable_input hws] at h
    rw [ih h, asked_input hws h]
    simp [asked, plainArguments]
  | case3 r path args e he => exact absurd (unloadable_input_error he) h
  | case4 => exact absurd (.inl (by simp [plainArguments])) h
  | case5 r args ih =>
    have ha : "bless" ≠ "--input" := by decide
    rw [ih (by rwa [unloadable_cons ha] at h)]
    simp [asked, plainArguments_cons ha, inputPaths_cons ha]
  | case6 r a args h1 h2 h3 ih =>
    have ha := ne_input h1 h2
    rw [ih (by rwa [unloadable_cons ha] at h)]
    have hb : a ≠ "bless" := h3
    simp [asked, plainArguments_cons ha, inputPaths_cons ha, hb, hb.symm]

/-- What the arguments ask for, if nothing ends the run at once. -/
theorem ofArguments_eq (h : ¬ Unloadable read args) :
    ofArguments read args = .ok (asked read args) := by
  simp [ofArguments, extend_ok _ h]

end Request

end

/-! ## Results of scenarios -/

namespace Request

/-- The scenarios that are asked for. -/
def scenarios (r : Request) : List Scenario := r.names.filterMap Scenario.ofName?

/-- What a scenario makes of the input. -/
def outcome (r : Request) (sc : Scenario) : Except Breakdown (List Word) :=
  (sc.run (r.input.map (·.2))).1

/-- Whether a scenario crashes, and with it the run. -/
def Crashes (r : Request) : Prop := ∃ sc ∈ r.scenarios, r.outcome sc = .error .crash

/-- Whether a scenario fails: it makes no module, or an invalid one in a run that blesses, or one
that differs from the result in `t` in any other run. -/
inductive Fails (tools : Toolbox) (r : Request) (blesses : Prop)
    (t : Std.ExtTreeMap String (List Word)) (sc : Scenario) : Prop where
  | broken (e : Breakdown) (h : r.outcome sc = .error e)
  | rejected (ws : List Word) (h : r.outcome sc = .ok ws) (hb : blesses) (said : String)
      (hs : tools.objection? ws = some said)
  | differs (ws : List Word) (h : r.outcome sc = .ok ws) (hb : ¬ blesses) (old : List Word)
      (ht : t[r.resultName sc]? = some old) (hne : old ≠ ws)

/-- The result of a scenario with its name, if it is fit to be kept. -/
def fit? (tools : Toolbox) (r : Request) (sc : Scenario) : Option (String × List Word) :=
  match r.outcome sc with
  | .ok ws => if tools.objection? ws = none then some (r.resultName sc, ws) else none
  | .error _ => none

/-- The results that a run keeps if it blesses. -/
def kept (tools : Toolbox) (r : Request) : List (String × List Word) :=
  r.scenarios.filterMap (r.fit? tools)

variable {tools : Toolbox} {r : Request} {sc : Scenario} {ws : List Word} {blesses : Prop}
  {t : Std.ExtTreeMap String (List Word)}

theorem fails_iff_of_ok (h : r.outcome sc = .ok ws) :
    r.Fails tools blesses t sc ↔
      (blesses ∧ ∃ said, tools.objection? ws = some said) ∨
      (¬ blesses ∧ ∃ old, t[r.resultName sc]? = some old ∧ old ≠ ws) := by
  constructor
  · intro hf
    cases hf with
    | broken e he => cases h.symm.trans he
    | rejected us hu hb said hs =>
      cases h.symm.trans hu
      exact .inl ⟨hb, said, hs⟩
    | differs us hu hb old ht hne =>
      cases h.symm.trans hu
      exact .inr ⟨hb, old, ht, hne⟩
  · rintro (⟨hb, said, hs⟩ | ⟨hb, old, ht, hne⟩)
    · exact .rejected ws h hb said hs
    · exact .differs ws h hb old ht hne

theorem fit?_of_ok (h : r.outcome sc = .ok ws) :
    (r.fit? tools sc).toList =
      if tools.objection? ws = none then [(r.resultName sc, ws)] else [] := by
  simp only [fit?, h]
  split <;> rfl

/-! The scenario that builds a module succeeds, and its module is more than a header. -/

theorem outcome_emptyModule : r.outcome .emptyModule = Scenario.build.1 := rfl

theorem build_ok : ∃ ws, Scenario.build.1 = .ok ws ∧ headerWords < ws.length := by
  have hbuild : Scenario.build.1.toOption.any (headerWords < ·.length) = true := by decide +kernel
  rcases hb : Scenario.build.1 with e | ws
  · rw [hb] at hbuild
    cases hbuild
  · exact ⟨ws, rfl, by simpa [hb, Except.toOption] using hbuild⟩

theorem not_crashes_of_build (hs : r.scenarios = [.emptyModule]) (hws : Scenario.build.1 = .ok ws) :
    ¬ r.Crashes := by
  rintro ⟨sc, hsc, hcrash⟩
  rw [hs, List.mem_singleton] at hsc
  subst hsc
  rw [outcome_emptyModule, hws] at hcrash
  cases hcrash

theorem kept_of_build (hs : r.scenarios = [.emptyModule]) (hws : Scenario.build.1 = .ok ws) :
    r.kept ⟨none, none⟩ = [(r.resultName .emptyModule, ws)] := by
  have ho : r.outcome .emptyModule = .ok ws := by rw [outcome_emptyModule, hws]
  simp [kept, hs, fit?, ho, Toolbox.objection?]

end Request

namespace Database

/-- Keeps results, if this database is one to bless. -/
def keepAll (d : Database) (results : List (String × List Word)) : Database :=
  if d.bless then results.foldl (fun d e => d.keep e.1 e.2) d else d

variable {d : Database} {results : List (String × List Word)}

theorem keepAll_of_not_bless (h : d.bless = false) : d.keepAll results = d := by
  simp [keepAll, h]

@[simp] theorem keepAll_nil : d.keepAll [] = d := by simp [keepAll]

theorem keepAll_cons (e : String × List Word) :
    d.keepAll (e :: results) = (d.keepAll [e]).keepAll results := by
  cases h : d.bless <;> simp [keepAll, keep, h]

theorem keepAll_append (first : List (String × List Word)) :
    d.keepAll (first ++ results) = (d.keepAll first).keepAll results := by
  induction first generalizing d with
  | nil => rw [List.nil_append, keepAll_nil]
  | cons e first ih => rw [List.cons_append, keepAll_cons, ih, ← keepAll_cons]

@[simp] theorem bless_keepAll : (d.keepAll results).bless = d.bless := by
  induction results generalizing d with
  | nil => rw [keepAll_nil]
  | cons e results ih =>
    rw [keepAll_cons, ih]
    cases h : d.bless <;> simp [keepAll, keep, h]

/-- Of kept results with one name the last counts, and results with other names stay. -/
theorem getElem?_keepAll (h : d.bless = true) (name : String) :
    (d.keepAll results).results[name]? = (results.reverse.lookup name).or d.results[name]? := by
  induction results generalizing d with
  | nil => simp
  | cons e results ih =>
    obtain ⟨key, ws⟩ := e
    have hfirst : (d.keepAll [(key, ws)]).results[name]? =
        ([(key, ws)].lookup name).or d.results[name]? := by
      simp only [keepAll, h, if_true, List.foldl_cons, List.foldl_nil, keep,
        Std.ExtTreeMap.getElem?_insert, Std.LawfulEqCmp.compare_eq_iff_eq, List.lookup_cons]
      by_cases hkey : key = name
      · simp [hkey]
      · have hother : (name == key) = false := beq_eq_false_iff_ne.mpr (Ne.symm hkey)
        simp [hkey, hother]
    rw [keepAll_cons, ih (by rwa [bless_keepAll]), hfirst, List.reverse_cons, List.lookup_append,
      Option.or_assoc]

/-- A result is kept if it is valid, in a run that blesses. It does not pass if it is invalid there,
and in any other run if it differs from the one that is kept. -/
theorem check_eq (d : Database) (tools : Toolbox) (name : String) (ws : List Word) :
    (d.check tools name ws).1 =
      d.keepAll (if tools.objection? ws = none then [(name, ws)] else []) ∧
    ((∃ e, (d.check tools name ws).2.2 = .error e) ↔
      (d.bless = true ∧ ∃ said, tools.objection? ws = some said) ∨
      (¬ d.bless = true ∧ ∃ old, d.results[name]? = some old ∧ old ≠ ws)) := by
  cases hb : d.bless with
  | true =>
    rcases ho : tools.objection? ws with - | said <;> simp [check, hb, ho, keepAll]
  | false =>
    rw [keepAll_of_not_bless hb]
    rcases ht : d.results[name]? with - | old
    · simp [check, hb, ht]
    · by_cases he : old = ws <;> simp [check, hb, ht, he]

end Database

theorem Request.fails_keepAll {tools : Toolbox} {r : Request} {sc : Scenario} {d : Database}
    {results : List (String × List Word)} :
    r.Fails tools ((d.keepAll results).bless = true) (d.keepAll results).results sc ↔
      r.Fails tools (d.bless = true) d.results sc := by
  cases hb : d.bless with
  | false => simp [Database.keepAll_of_not_bless hb, hb]
  | true =>
    rw [Database.bless_keepAll, hb]
    rcases ho : r.outcome sc with e | ws
    · exact iff_of_true (.broken e ho) (.broken e ho)
    · simp [fails_iff_of_ok ho]

namespace Progress

variable {tools : Toolbox} {r : Request} {p : Progress} {sc : Scenario}

@[simp] theorem database_say (source : LogSource) (text : String) :
    (p.say source text).database = p.database := rfl

@[simp] theorem failed_say (source : LogSource) (text : String) :
    (p.say source text).failed = p.failed := rfl

@[simp] theorem database_fail (e : TrialError) : (p.fail sc e).database = p.database := rfl

@[simp] theorem failed_fail (e : TrialError) : (p.fail sc e).failed = p.failed + 1 := rfl

theorem foldl_say (said : List String) :
    said.foldl (say · .runner) p =
      { p with log := p.log ++ said.map (⟨.runner, ·⟩) } := by
  induction said generalizing p with
  | nil => simp
  | cons text said ih => simp [ih, say]

theorem perform_crashes (p : Progress) (tools : Toolbox) (h : r.outcome sc = .error .crash) :
    ∃ log, p.perform tools r sc = .error log := by
  rw [Request.outcome] at h
  simp [perform, h]

/-- What becomes of the result of a scenario. -/
theorem perform_goes_on (p : Progress) (tools : Toolbox) (h : r.outcome sc ≠ .error .crash) :
    ∃ q, p.perform tools r sc = .ok q ∧
      q.database = p.database.keepAll (r.fit? tools sc).toList ∧
      (0 < q.failed ↔
        0 < p.failed ∨ r.Fails tools (p.database.bless = true) p.database.results sc) := by
  rcases hrun : sc.run (r.input.map (·.2)) with ⟨result, breach⟩
  have ho : r.outcome sc = result := by rw [Request.outcome, hrun]
  -- What is logged about a breach of contract changes neither the database nor the failures.
  rcases result with (e | _) | ws
  · have hfails : r.Fails tools (p.database.bless = true) p.database.results sc := .broken _ ho
    have hfit : r.fit? tools sc = none := by rw [Request.fit?, ho]
    cases breach <;> simp [perform, hrun, hfails, hfit]
  · exact absurd ho h
  · obtain ⟨hkeep, hverdict⟩ := p.database.check_eq tools (r.resultName sc) ws
    rw [r.fit?_of_ok ho, r.fails_iff_of_ok ho, ← hkeep, ← hverdict]
    rcases hc : p.database.check tools (r.resultName sc) ws with ⟨d, said, e | ⟨⟩⟩
    · cases breach <;> simp [perform, hrun, hc, foldl_say]
    · cases breach <;> simp [perform, hrun, hc, foldl_say]

/-- Only a scenario that crashes ends a run before the others. -/
theorem performAll_error {scs : List Scenario} {log : List LogRecord}
    (h : p.performAll tools r scs = .error log) : ∃ sc ∈ scs, r.outcome sc = .error .crash := by
  induction scs generalizing p with
  | nil => cases h
  | cons sc scs ih =>
    by_cases hsc : r.outcome sc = .error .crash
    · exact ⟨sc, List.mem_cons_self, hsc⟩
    · obtain ⟨q, hq, -, -⟩ := perform_goes_on p tools hsc
      rw [performAll, hq] at h
      obtain ⟨sc', hmem, hcrash⟩ := ih h
      exact ⟨sc', List.mem_cons_of_mem _ hmem, hcrash⟩

/-- The results of scenarios are kept one after the other. Whether one fails does not depend on
those before it. -/
theorem performAll_ok {scs : List Scenario} {q : Progress}
    (h : p.performAll tools r scs = .ok q) :
    (∀ sc ∈ scs, r.outcome sc ≠ .error .crash) ∧
      q.database = p.database.keepAll (scs.filterMap (r.fit? tools)) ∧
      (0 < q.failed ↔ 0 < p.failed ∨
        ∃ sc ∈ scs, r.Fails tools (p.database.bless = true) p.database.results sc) := by
  induction scs generalizing p with
  | nil => cases h; simp
  | cons sc scs ih =>
    rw [performAll] at h
    by_cases hsc : r.outcome sc = .error .crash
    · obtain ⟨log, hlog⟩ := perform_crashes p tools hsc
      rw [hlog] at h
      cases h
    · obtain ⟨p', hp', hd, hf⟩ := perform_goes_on p tools hsc
      rw [hp'] at h
      obtain ⟨hrest, hqd, hqf⟩ := ih h
      refine ⟨List.forall_mem_cons.mpr ⟨hsc, hrest⟩, ?_, ?_⟩
      · rw [hqd, hd, ← Database.keepAll_append, List.filterMap_cons]
        cases r.fit? tools sc <;> rfl
      · rw [hqf, hf, hd]
        simp only [Request.fails_keepAll, List.mem_cons, exists_eq_or_imp, or_assoc]

end Progress

/-! ## Runs -/

/-- Whether a run on a database, `none` where there is no file, blesses. -/
def Blesses (found : Option Database) (args : List String) : Prop :=
  found = none ∨ (∃ db, found = some db ∧ db.bless = true) ∨ "bless" ∈ plainArguments args

/-- The results in a database, none where there is no file. -/
def resultsIn (found : Option Database) : Std.ExtTreeMap String (List Word) :=
  (found.map (·.results)).getD ∅

/-- The database that a run starts from. -/
def Request.opened (r : Request) (found : Option Database) : Database :=
  { found.getD .fresh with bless := (found.getD .fresh).bless || r.bless }

section
variable {args : List String} {read : FileReader} {tools : Toolbox} {found : Option Database}

theorem opened_bless :
    ((Request.asked read args).opened found).bless = true ↔ Blesses found args := by
  cases found <;> simp [Request.opened, Request.asked, Blesses, Database.fresh]

theorem opened_results (r : Request) : (r.opened found).results = resultsIn found := by
  cases found <;> rfl

theorem runOn_unloadable (tools : Toolbox) (found : Option Database) (h : Unloadable read args) :
    (runOn args read tools found).exit = .failure ∧
      (runOn args read tools found).saved = none := by
  obtain ⟨said, hsaid⟩ := Request.extend_error ⟨false, none, []⟩ h
  simp [runOn, Request.ofArguments, hsaid]

theorem runOn_crashes (tools : Toolbox) (found : Option Database) (h : ¬ Unloadable read args)
    (hc : (Request.asked read args).Crashes) :
    (runOn args read tools found).exit = .crash ∧
      (runOn args read tools found).saved = none := by
  simp only [runOn, Request.ofArguments_eq h]
  split
  · exact ⟨rfl, rfl⟩
  · next q hq =>
    obtain ⟨sc, hsc, hcrash⟩ := hc
    exact absurd hcrash ((Progress.performAll_ok hq).1 sc hsc)

/-- What a run does that comes to its end. -/
theorem runOn_goes_on (tools : Toolbox) (found : Option Database) (h : ¬ Unloadable read args)
    (hc : ¬ (Request.asked read args).Crashes) :
    let r := Request.asked read args
    let o := runOn args read tools found
    (Blesses found args → o.saved = some ((r.opened found).keepAll (r.kept tools))) ∧
    (¬ Blesses found args → o.saved = none) ∧
    (o.exit = .success ∨ o.exit = .failure) ∧
    (o.exit = .failure ↔
      ∃ sc ∈ r.scenarios, r.Fails tools (Blesses found args) (resultsIn found) sc) := by
  intro r o
  simp only [o, runOn, Request.ofArguments_eq h]
  split
  · next log hlog => exact absurd (Progress.performAll_error hlog) hc
  · next q hq =>
    obtain ⟨-, hqd, hqf⟩ := Progress.performAll_ok hq
    have hdatabase : q.database = (r.opened found).keepAll (r.kept tools) := hqd
    have hbless : q.database.bless = true ↔ Blesses found args := by
      rw [hdatabase, Database.bless_keepAll, opened_bless]
    have hfailed : 0 < q.failed ↔
        ∃ sc ∈ r.scenarios, r.Fails tools (Blesses found args) (resultsIn found) sc := by
      have hstart : 0 < q.failed ↔ 0 < 0 ∨ ∃ sc ∈ r.scenarios, r.Fails tools
        ((r.opened found).bless = true) (r.opened found).results sc := hqf
      simpa only [Nat.lt_irrefl, false_or, r, opened_bless, opened_results] using hstart
    rw [← hfailed, ← hbless, ← hdatabase]
    by_cases hzero : q.failed = 0
    · simp only [if_pos hzero]
      simp [hzero]
    · simp only [if_neg hzero]
      simp [Nat.pos_of_ne_zero hzero]

/-- A database that is written says that runs bless. -/
theorem runOn_saved {db : Database} (h : (runOn args read tools found).saved = some db) :
    db.bless = true := by
  by_cases hu : Unloadable read args
  · rw [(runOn_unloadable _ _ hu).2] at h
    cases h
  by_cases hc : (Request.asked read args).Crashes
  · rw [(runOn_crashes _ _ hu hc).2] at h
    cases h
  obtain ⟨hsaves, hkeeps, -⟩ := runOn_goes_on tools found hu hc
  by_cases hb : Blesses found args
  · rw [hsaves hb] at h
    cases h
    rw [Database.bless_keepAll, opened_bless]
    exact hb
  · rw [hkeeps hb] at h
    cases h

end

/-! ## Directories -/

namespace Directory

/-- A directory holds a database, or no file where it would be. -/
def Holds (d : Directory) : Option Database → Prop
  | none => d.read databaseName = .error .missing
  | some db => ∃ bytes, d.read databaseName = .ok bytes ∧ Database.ofBytes? bytes = some db

variable {d : Directory} {found : Option Database} {args : List String} {tools : Toolbox}

theorem Holds.unique {a b : Database} (ha : d.Holds (some a)) (hb : d.Holds (some b)) : a = b := by
  obtain ⟨bytes, hread, ha⟩ := ha
  obtain ⟨bytes', hread', hb⟩ := hb
  cases hread.symm.trans hread'
  exact Option.some.inj (ha.symm.trans hb)

/-- The database is read where it is written. -/
theorem read_write (bytes : List UInt8) :
    (d.write databaseName bytes).read databaseName = .ok bytes := by
  have hparts : partsFrom [] databaseName.toList = [databaseName] := by decide
  have hhere : (d.write databaseName bytes).leadsToDirectory d.place = true := by
    simp [leadsToDirectory, write]
  have hfile : (d.write databaseName bytes).file? (d.place ++ [databaseName]) = some bytes := by
    simp [file?, write]
  have hresolve : (d.write databaseName bytes).resolve databaseName =
      .ok (d.place ++ [databaseName]) := by
    have hfollow : (d.write databaseName bytes).follow d.place [databaseName] =
        .ok (d.place ++ [databaseName]) := by
      rw [follow, if_neg (by simp [hhere]), if_neg (by decide), if_neg (by decide),
        if_neg (by decide)]
      simp [hfile, follow]
    rw [resolve, if_neg (by decide), if_neg (by decide), hparts]
    exact hfollow
  rw [read, hresolve]
  simp only [hfile]

theorem holds_write (db : Database) :
    (d.write databaseName (Text.encode db.render)).Holds (some db) :=
  ⟨_, read_write _, Database.ofBytes?_render db⟩

theorem fst_run : (d.run args tools).1 = SpirvModule.run args d.read tools := by
  simp only [run]
  split <;> rfl

theorem fst_run_eq (h : d.Holds found) :
    (d.run args tools).1 = runOn args d.read tools found := by
  rw [fst_run]
  cases found with
  | none => rw [SpirvModule.run, show d.read databaseName = _ from h]
  | some db =>
    obtain ⟨bytes, hread, hdb⟩ := h
    simp only [SpirvModule.run, hread, hdb]

/-- A run that saves nothing leaves its directory as it is. -/
theorem run_of_saved_none (h : (d.run args tools).1.saved = none) : (d.run args tools).2 = d := by
  rw [fst_run] at h
  simp only [run, h]

/-- What a run saves is in its directory afterwards. -/
theorem run_of_saved {db : Database} (h : (d.run args tools).1.saved = some db) :
    (d.run args tools).2 = d.write databaseName (Text.encode db.render) := by
  rw [fst_run] at h
  simp only [run, h]

theorem holds_of_saved {db : Database} (h : (d.run args tools).1.saved = some db) :
    (d.run args tools).2.Holds (some db) := by
  rw [run_of_saved h]
  exact holds_write db

theorem run_unloadable (h : d.Holds found) (hu : Unloadable d.read args) :
    (d.run args tools).1.exit.code = 1 ∧ (d.run args tools).2 = d := by
  obtain ⟨hexit, hsaved⟩ := runOn_unloadable tools found hu
  rw [← fst_run_eq h] at hexit hsaved
  exact ⟨by rw [hexit]; rfl, run_of_saved_none hsaved⟩

theorem run_crashes (h : d.Holds found) (hu : ¬ Unloadable d.read args)
    (hc : (Request.asked d.read args).Crashes) :
    (d.run args tools).1.exit.code = 101 ∧ (d.run args tools).2 = d := by
  obtain ⟨hexit, hsaved⟩ := runOn_crashes tools found hu hc
  rw [← fst_run_eq h] at hexit hsaved
  exact ⟨by rw [hexit]; rfl, run_of_saved_none hsaved⟩

/-! A run that comes to its end. -/
section
variable (h : d.Holds found) (hu : ¬ Unloadable d.read args)
  (hc : ¬ (Request.asked d.read args).Crashes)
include h hu hc

theorem saved_of_blesses (hb : Blesses found args) (tools : Toolbox) :
    (d.run args tools).1.saved = some (((Request.asked d.read args).opened found).keepAll
      ((Request.asked d.read args).kept tools)) := by
  rw [fst_run_eq h]
  exact (runOn_goes_on tools found hu hc).1 hb

theorem run_of_not_blesses (hb : ¬ Blesses found args) : (d.run args tools).2 = d := by
  refine run_of_saved_none ?_
  rw [fst_run_eq h]
  exact (runOn_goes_on tools found hu hc).2.1 hb

theorem exit_code_eq_one : (d.run args tools).1.exit.code = 1 ↔
    ∃ sc ∈ (Request.asked d.read args).scenarios, (Request.asked d.read args).Fails tools
      (Blesses found args) (resultsIn found) sc := by
  obtain ⟨-, -, hends, hfails⟩ := runOn_goes_on tools found hu hc
  rw [← hfails, fst_run_eq h]
  rcases hends with he | he <;> rw [he] <;> decide

theorem exit_code_eq_zero : (d.run args tools).1.exit.code = 0 ↔
    ¬ ∃ sc ∈ (Request.asked d.read args).scenarios, (Request.asked d.read args).Fails tools
      (Blesses found args) (resultsIn found) sc := by
  obtain ⟨-, -, hends, hfails⟩ := runOn_goes_on tools found hu hc
  rw [← hfails, fst_run_eq h]
  rcases hends with he | he <;> rw [he] <;> decide

end

/-- What one run does to its directory and how it ends. It writes no file but the database, and that
only if it blesses and comes to its end. What a later run gets from that file is what `Holds` says;
its bytes are given for results in the order of their names, one of the orders that they may be
written in. -/
theorem run_effect (h : d.Holds found) (args : List String) (tools : Toolbox) :
    let r := Request.asked d.read args
    let o := d.run args tools
    (Unloadable d.read args → o.1.exit.code = 1 ∧ o.2 = d) ∧
    (¬ Unloadable d.read args → r.Crashes → o.1.exit.code = 101 ∧ o.2 = d) ∧
    (¬ Unloadable d.read args → ¬ r.Crashes →
      (Blesses found args → ∃ db : Database, o.2 = d.write databaseName (Text.encode db.render) ∧
        o.2.Holds (some db) ∧ db.bless = true ∧ ∀ name, db.results[name]? =
          ((r.kept tools).reverse.lookup name).or (resultsIn found)[name]?) ∧
      (¬ Blesses found args → o.2 = d) ∧
      (o.1.exit.code = 1 ↔
        ∃ sc ∈ r.scenarios, r.Fails tools (Blesses found args) (resultsIn found) sc) ∧
      (o.1.exit.code = 0 ↔
        ¬ ∃ sc ∈ r.scenarios, r.Fails tools (Blesses found args) (resultsIn found) sc)) := by
  intro r o
  refine ⟨run_unloadable h, run_crashes h, fun hu hc => ⟨fun hb => ?_, run_of_not_blesses h hu hc,
    exit_code_eq_one h hu hc, exit_code_eq_zero h hu hc⟩⟩
  have hsaved := saved_of_blesses h hu hc hb tools
  have hopened : (r.opened found).bless = true := opened_bless.mpr hb
  refine ⟨_, run_of_saved hsaved, holds_of_saved hsaved, ?_, fun name => ?_⟩
  · rw [Database.bless_keepAll, hopened]
  · rw [Database.getElem?_keepAll hopened, opened_results]

/-- The first run in a directory blesses, and names of no scenario are passed over. -/
theorem run_effect_first :
    let d : Directory := ⟨[], []⟩
    let o := d.run ["empty_module", "nothing"] ⟨none, none⟩
    o.1.exit.code = 0 ∧ ∃ db : Database, o.2.Holds (some db) ∧ db.bless = true ∧
      db.results["empty_module"]? = Scenario.build.1.toOption := by
  intro d o
  obtain ⟨ws, hws, -⟩ := Request.build_ok
  have hholds : d.Holds none := rfl
  have hu : ¬ Unloadable d.read ["empty_module", "nothing"] := by
    simp [Unloadable, plainArguments, inputPaths]
  have hs : (Request.asked d.read ["empty_module", "nothing"]).scenarios = [.emptyModule] := rfl
  obtain ⟨-, -, hend⟩ := run_effect hholds ["empty_module", "nothing"] ⟨none, none⟩
  obtain ⟨hkeeps, -, -, hpasses⟩ := hend hu (Request.not_crashes_of_build hs hws)
  refine ⟨hpasses.mpr ?_, ?_⟩
  · rintro ⟨sc, hsc, hfails⟩
    rw [hs, List.mem_singleton] at hsc
    subst hsc
    rw [Request.fails_iff_of_ok (Request.outcome_emptyModule.trans hws)] at hfails
    simp [Blesses, Toolbox.objection?] at hfails
  · obtain ⟨db, -, hdb, hbless, hresults⟩ := hkeeps (.inl rfl)
    refine ⟨db, hdb, hbless, ?_⟩
    rw [hresults, Request.kept_of_build hs hws, hws]
    rfl

/-- The bytes of a module without instructions. -/
def emptyInput : List UInt8 := [3, 2, 35, 7, 0, 3, 1, 0, 0, 0, 0, 0, 1, 0, 0, 0, 0, 0, 0, 0]

/-- A directory with an input `bless`, and a database that neither holds results nor says that runs
bless. -/
def withInputBless : Directory :=
  (⟨[], [(["bless"], emptyInput)]⟩ : Directory).write databaseName
    (Text.encode (⟨false, ∅⟩ : Database).render)

/-- A `bless` behind `--input` is a path, and the run does not bless. -/
theorem input_named_bless :
    ¬ ∀ (d : Directory) (found : Option Database) (args : List String) (tools : Toolbox),
      d.Holds found → ¬ Unloadable d.read args → ¬ (Request.asked d.read args).Crashes →
      (found = none ∨ (∃ db, found = some db ∧ db.bless = true) ∨ "bless" ∈ args) →
      ∃ db : Database, (d.run args tools).2.Holds (some db) ∧ ∀ name, db.results[name]? =
        (((Request.asked d.read args).kept tools).reverse.lookup name).or
          (resultsIn found)[name]? := by
  intro hclaim
  let args := ["--input", "bless", "empty_module"]
  let r := Request.asked withInputBless.read args
  obtain ⟨ws, hws, -⟩ := Request.build_ok
  have hholds : withInputBless.Holds (some ⟨false, ∅⟩) := holds_write _
  have hinput : loadInput withInputBless.read "bless" = .ok [0x07230203, 0x10300, 0, 1, 0] := rfl
  have hu : ¬ Unloadable withInputBless.read args := by
    simp [args, Unloadable, plainArguments, inputPaths, hinput]
  have hs : r.scenarios = [.emptyModule] := rfl
  have hc : ¬ r.Crashes := Request.not_crashes_of_build hs hws
  obtain ⟨db, hdb, hresults⟩ :=
    hclaim withInputBless (some ⟨false, ∅⟩) args ⟨none, none⟩ hholds hu hc (.inr (.inr (by decide)))
  have hnot : ¬ Blesses (some ⟨false, ∅⟩) args := by simp [args, Blesses, plainArguments]
  rw [run_of_not_blesses hholds hu hc hnot] at hdb
  cases Holds.unique hdb hholds
  have hname : r.resultName .emptyModule = "empty_module@bless" := rfl
  have hlost := hresults "empty_module@bless"
  rw [Request.kept_of_build hs hws, hname] at hlost
  simp at hlost

/-! ## One run after the other -/

/-- The directory after runs. -/
def after (d : Directory) (runs : List (List String × Toolbox)) : Directory :=
  runs.foldl (fun d x => (d.run x.1 x.2).2) d

@[simp] theorem after_nil : d.after [] = d := rfl

@[simp] theorem after_cons (runs : List (List String × Toolbox)) :
    d.after ((args, tools) :: runs) = (d.run args tools).2.after runs := rfl

/-- Whether one of some runs writes the database. -/
def Saves (d : Directory) : List (List String × Toolbox) → Prop
  | [] => False
  | x :: runs => (d.run x.1 x.2).1.saved.isSome ∨ (d.run x.1 x.2).2.Saves runs

/-- A run that writes the database says in it that runs bless. -/
theorem bless_of_saved {db : Database} (h : (d.run args tools).1.saved = some db) :
    db.bless = true := by
  rw [fst_run] at h
  unfold SpirvModule.run at h
  split at h
  · exact runOn_saved h
  · cases h
  · split at h
    · cases h
    · exact runOn_saved h

/-- A database says that runs bless if it said so at the beginning, or if a run has written it. -/
theorem bless_after {runs : List (List String × Toolbox)} {db : Database}
    (h : (d.after runs).Holds (some db)) :
    db.bless = true ↔ (∃ db₀, d.Holds (some db₀) ∧ db₀.bless = true) ∨ d.Saves runs := by
  induction runs generalizing d with
  | nil =>
    constructor
    · exact fun hb => .inl ⟨db, h, hb⟩
    · rintro (⟨db₀, h₀, hb⟩ | hf)
      · rwa [Holds.unique h h₀]
      · exact hf.elim
  | cons x runs ih =>
    rw [ih h, Saves, ← or_assoc]
    refine or_congr_left ?_
    cases hs : (d.run x.1 x.2).1.saved with
    | none => simp [run_of_saved_none hs]
    | some db' =>
      exact iff_of_true ⟨db', holds_of_saved hs, bless_of_saved hs⟩ (.inr rfl)

/-- A run that is not asked to bless leaves the database alone and reports results that differ, as
long as no run has written the database and it does not say that runs bless. From then on every run
blesses. -/
theorem unblessed_run_keeps {d₀ : Directory} {runs : List (List String × Toolbox)} {db : Database}
    (h : (d₀.after runs).Holds (some db)) {args : List String} (hargs : "bless" ∉ args)
    (tools : Toolbox) :
    let d := d₀.after runs
    let r := Request.asked d.read args
    let o := d.run args tools
    (db.bless = true ↔ (∃ db₀, d₀.Holds (some db₀) ∧ db₀.bless = true) ∨ d₀.Saves runs) ∧
    (db.bless = false → o.2 = d ∧
      ((∃ sc ∈ r.scenarios, ∃ ws old, r.outcome sc = .ok ws ∧
          db.results[r.resultName sc]? = some old ∧ old ≠ ws) →
        o.1.exit.code = 1 ∨ r.Crashes ∧ o.1.exit.code = 101)) := by
  intro d r o
  refine ⟨bless_after h, fun hbless => ?_⟩
  have hasked : ¬ Blesses (some db) args := by
    rintro (hnone | ⟨db', hdb, hb⟩ | hb)
    · cases hnone
    · cases hdb
      exact absurd hb (by simp [hbless])
    · exact hargs (mem_of_mem_plainArguments hb)
  by_cases hu : Unloadable d.read args
  · exact ⟨(run_unloadable h hu).2, fun _ => .inl (run_unloadable h hu).1⟩
  by_cases hc : r.Crashes
  · exact ⟨(run_crashes h hu hc).2, fun _ => .inr ⟨hc, (run_crashes h hu hc).1⟩⟩
  refine ⟨run_of_not_blesses h hu hc hasked, ?_⟩
  rintro ⟨sc, hsc, ws, old, hws, hold, hne⟩
  exact .inl ((exit_code_eq_one h hu hc).mpr ⟨sc, hsc, .differs ws hws hasked old hold hne⟩)

/-- A database by which a single word is the right result of `empty_module`. -/
def wrongDatabase (bless : Bool) : Database :=
  ⟨bless, (∅ : Std.ExtTreeMap String (List Word)).insert "empty_module" [1]⟩

/-- A directory with that database. -/
def withWrongResult : Directory :=
  (⟨[], []⟩ : Directory).write databaseName (Text.encode (wrongDatabase false).render)

theorem holds_withWrongResult : withWrongResult.Holds (some (wrongDatabase false)) :=
  holds_write _

theorem getElem?_wrongDatabase (bless : Bool) :
    (wrongDatabase bless).results["empty_module"]? = some [1] := by
  simp [wrongDatabase]

section
variable (read : FileReader)

theorem scenarios_emptyModule :
    (Request.asked read ["empty_module"]).scenarios = [.emptyModule] := rfl

theorem resultName_emptyModule :
    (Request.asked read ["empty_module"]).resultName .emptyModule = "empty_module" := rfl

theorem scenarios_bless : (Request.asked read ["bless"]).scenarios = [] := rfl

theorem opened_wrongDatabase :
    (Request.asked read ["bless"]).opened (some (wrongDatabase false)) = wrongDatabase true := by
  simp [Request.opened, Request.asked, plainArguments, wrongDatabase]

end

/-- As no run has blessed yet, the wrong result is reported. -/
theorem unblessed_run_keeps_wrongDatabase :
    let o := withWrongResult.run ["empty_module"] ⟨none, none⟩
    o.2 = withWrongResult ∧ o.1.exit.code = 1 := by
  obtain ⟨ws, hws, hlen⟩ := Request.build_ok
  have hs := scenarios_emptyModule withWrongResult.read
  have hholds : (withWrongResult.after []).Holds (some (wrongDatabase false)) := by
    rw [after_nil]
    exact holds_withWrongResult
  have hkeeps :=
    (unblessed_run_keeps hholds (show "bless" ∉ ["empty_module"] by decide) ⟨none, none⟩).2 rfl
  simp only [after_nil] at hkeeps
  obtain ⟨hsame, hreports⟩ := hkeeps
  have hold : (wrongDatabase false).results[(Request.asked withWrongResult.read
      ["empty_module"]).resultName .emptyModule]? = some [1] := by
    rw [resultName_emptyModule]
    exact getElem?_wrongDatabase false
  have hne : [1] ≠ ws := by
    intro he
    rw [← he] at hlen
    exact absurd hlen (by decide)
  have hdiffers := hreports ⟨.emptyModule, by rw [hs]; exact List.mem_singleton_self _, ws, [1],
    by rw [Request.outcome_emptyModule, hws], hold, hne⟩
  refine ⟨hsame, hdiffers.resolve_right fun hcrash => ?_⟩
  exact Request.not_crashes_of_build hs hws hcrash.1

theorem holds_after_bless :
    (withWrongResult.after [(["bless"], ⟨none, none⟩)]).Holds (some (wrongDatabase true)) := by
  have hu : ¬ Unloadable withWrongResult.read ["bless"] := by
    simp [Unloadable, plainArguments, inputPaths]
  have hc : ¬ (Request.asked withWrongResult.read ["bless"]).Crashes := by
    simp [Request.Crashes, scenarios_bless]
  have hb : Blesses (some (wrongDatabase false)) ["bless"] := .inr (.inr (by decide))
  have hsaved := saved_of_blesses holds_withWrongResult hu hc hb ⟨none, none⟩
  rw [Request.kept, scenarios_bless, List.filterMap_nil, Database.keepAll_nil,
    opened_wrongDatabase] at hsaved
  rw [after_cons, after_nil]
  exact holds_of_saved hsaved

/-- Once a run has blessed, a run that is not asked to bless accepts a wrong result as well. -/
theorem unasked_run_blesses :
    ¬ ∀ (d₀ : Directory) (runs : List (List String × Toolbox)) (db : Database)
        (args : List String) (tools : Toolbox),
      (d₀.after runs).Holds (some db) → "bless" ∉ args →
      let r := Request.asked (d₀.after runs).read args
      let o := (d₀.after runs).run args tools
      (∃ db', o.2.Holds (some db') ∧ db'.results = db.results) ∧
      ((∃ sc ∈ r.scenarios, ∃ ws old, r.outcome sc = .ok ws ∧
          db.results[r.resultName sc]? = some old ∧ old ≠ ws) → o.1.exit.code = 1) := by
  intro hclaim
  obtain ⟨ws, hws, hlen⟩ := Request.build_ok
  obtain ⟨⟨db, hdb, hsame⟩, -⟩ := hclaim _ _ _ ["empty_module"] ⟨none, none⟩ holds_after_bless
    (by decide)
  have hblessed := holds_after_bless
  generalize withWrongResult.after [(["bless"], ⟨none, none⟩)] = d at hdb hblessed
  have hs := scenarios_emptyModule d.read
  have hu : ¬ Unloadable d.read ["empty_module"] := by
    simp [Unloadable, plainArguments, inputPaths]
  have hb : Blesses (some (wrongDatabase true)) ["empty_module"] := .inr (.inl ⟨_, rfl, rfl⟩)
  have hsaved := saved_of_blesses hblessed hu (Request.not_crashes_of_build hs hws) hb
    ⟨none, none⟩
  rw [Holds.unique hdb (holds_of_saved hsaved)] at hsame
  have hword := getElem?_wrongDatabase true
  rw [← hsame, Database.getElem?_keepAll (opened_bless.mpr hb), Request.kept_of_build hs hws,
    resultName_emptyModule] at hword
  have hone : ws = [1] := by simpa using hword
  rw [hone] at hlen
  exact absurd hlen (by decide)

end Directory

end SpirvModule
