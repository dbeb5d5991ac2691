import SpirvModule.Proofs.JsonText
import SpirvModule.Blessing.Database

/-!
# A database that is read back

What a run writes is what the next run finds. Names of results may hold any characters, and words
are written by their digits. An object may repeat a name, but a database does not, so that no result
is lost.

Results:
* `Database.writes_render`: the text of a database writes its two members.
* `Database.ofBytes?_render`: it is read as the same database.
-/
namespace SpirvModule

open JsonValue

theorem JsonValue.spelled_ascii {s : String} (h : s.toList.all (·.toNat < 0x80)) :
    spelled s = s.toList := by
  rw [spelled_eq, flatMap_signs_ascii fun c hc => by simpa using List.all_eq_true.mp h c hc]

theorem JsonValue.spelled_intercalate (ts : List String) :
    spelled (String.intercalate "," ts) = [','].intercalate (ts.map spelled) := by
  have hcomma : spelled "," = [','] := spelled_ascii (by decide)
  induction ts with
  | nil => rfl
  | cons t ts ih =>
    cases ts with
    | nil => rw [String.intercalate_singleton, List.map_singleton, List.intercalate_singleton]
    | cons u ts =>
      rw [String.intercalate_cons_cons, spelled_append, spelled_append, ih, hcomma, List.map_cons,
        List.map_cons, List.map_cons, List.intercalate_cons_cons]

/-- A list is made of what each of its items is made of. -/
theorem mapM_map_some {α β γ : Type} {f : β → Option γ} {g : α → β} {h : α → γ}
    (hf : ∀ a, f (g a) = some (h a)) (l : List α) : (l.map g).mapM f = some (l.map h) := by
  induction l with
  | nil => rfl
  | cons a l ih =>
    rw [List.map_cons, List.mapM_cons, hf, ih]
    rfl

namespace Database

/-! ## Words -/

/-- A word as it is written. -/
def wordValue (w : Word) : JsonValue := .number (Nat.toDigits 10 w.toNat)

theorem spelled_word (w : Word) : spelled (toString w) = Nat.toDigits 10 w.toNat := by
  have htext : (toString w).toList = Nat.toDigits 10 w.toNat := Nat.toList_repr
  have hascii : (toString w).toList.all (·.toNat < 0x80) := by
    refine List.all_eq_true.mpr fun c hc => decide_eq_true ?_
    rw [htext] at hc
    have hdigit := isDigit_toDigits c hc
    simp only [isDigit, Bool.and_eq_true, decide_eq_true_eq, Char.le_def, UInt32.le_iff_toNat_le]
      at hdigit
    exact Nat.lt_of_le_of_lt hdigit.2 (by decide)
  rw [spelled_ascii hascii, htext]

theorem word?_wordValue (w : Word) : word? (wordValue w) = some w := by
  have hdigits : (Nat.toDigits 10 w.toNat).all isDigit := List.all_eq_true.mpr isDigit_toDigits
  have hvalue : (Nat.toDigits 10 w.toNat).foldl (fun n c => n * 10 + (c.toNat - 48)) 0 =
      w.toNat := by
    have h := Nat.ofDigitChars_ten_toDigits (n := w.toNat)
    rw [Nat.ofDigitChars_eq_foldl] at h
    simp only [Nat.mul_comm 10] at h
    exact h
  rw [wordValue, word?, if_pos hdigits]
  simp only [hvalue]
  rw [if_pos w.toNat_lt, UInt32.ofNat_toNat]

/-- Words as they are written. -/
def wordsValue (ws : List Word) : JsonValue := .array (ws.map wordValue)

theorem writes_wordsText (ws : List Word) : Writes (spelled (wordsText ws)) (wordsValue ws) := by
  have htext : spelled (wordsText ws) =
      '[' :: ([','].intercalate (ws.map fun w => Nat.toDigits 10 w.toNat) ++ [']']) := by
    have hopen : spelled "[" = ['['] := spelled_ascii (by decide)
    have hclose : spelled "]" = [']'] := spelled_ascii (by decide)
    rw [wordsText, spelled_append, spelled_append, spelled_intercalate, hopen, hclose, List.map_map]
    simp only [Function.comp_def, spelled_word]
    rfl
  have harray := Writes.array (l := ws.map fun w => (Nat.toDigits 10 w.toNat, wordValue w)) (by
    intro p hp
    obtain ⟨w, -, rfl⟩ := List.mem_map.mp hp
    exact .digits _)
  rw [List.map_map, List.map_map] at harray
  rw [htext]
  exact harray

theorem words?_wordsValue (ws : List Word) : words? (wordsValue ws) = some ws := by
  rw [wordsValue, words?, mapM_map_some word?_wordValue, List.map_id']

/-! ## Results -/

/-- The member that a result is written as. -/
def resultMember (r : String × List Word) : Member :=
  (r.1, spelled (wordsText r.2), wordsValue r.2)

theorem spelled_result (r : String × List Word) :
    spelled (quote r.1 ++ ":" ++ wordsText r.2) =
      memberText (resultMember r).1 (resultMember r).2.1 := by
  have hcolon : spelled ":" = [':'] := spelled_ascii (by decide)
  rw [spelled_append, spelled_append, spelled_quote, hcolon, memberText, List.append_assoc]
  rfl

/-- Results that are read one after the other make the table they come from. -/
theorem foldl_toList (t : Std.ExtTreeMap String (List Word)) :
    t.toList.foldl (fun t r => t.insert r.1 r.2) ∅ = t := by
  have hlist : t.toList.foldl (fun t r => t.insert r.1 r.2) ∅ =
      Std.ExtTreeMap.ofList t.toList compare := Std.ExtTreeMap.ofList_eq_foldl.symm
  rw [hlist]
  refine Std.ExtTreeMap.ext_getElem? fun {k} => ?_
  cases hk : t[k]? with
  | some v =>
    refine Std.ExtTreeMap.getElem?_ofList_of_mem (k := k) Std.ReflCmp.compare_self
      Std.ExtTreeMap.distinct_keys_toList ?_
    exact Std.ExtTreeMap.mem_toList_iff_getElem?_eq_some.mpr hk
  | none =>
    refine Std.ExtTreeMap.getElem?_ofList_of_contains_eq_false ?_
    rw [List.contains_eq_mem, decide_eq_false_iff_not]
    intro hmem
    obtain ⟨⟨_, v⟩, hv, rfl⟩ := List.mem_map.mp hmem
    cases (Std.ExtTreeMap.mem_toList_iff_getElem?_eq_some.mp hv).symm.trans hk

/-- The object that results are written as. -/
def resultsValue (t : Std.ExtTreeMap String (List Word)) : JsonValue :=
  .object (t.toList.map fun r => (some r.1, wordsValue r.2))

/-- The text of some results. -/
def resultsText (t : Std.ExtTreeMap String (List Word)) : String :=
  "\x7b" ++ String.intercalate "," (t.toList.map fun r => quote r.1 ++ ":" ++ wordsText r.2) ++
    "\x7d"

theorem writes_resultsText (t : Std.ExtTreeMap String (List Word)) :
    Writes (spelled (resultsText t)) (resultsValue t) := by
  have htext : spelled (resultsText t) =
      '\x7b' :: ([','].intercalate
        ((t.toList.map resultMember).map fun m => memberText m.1 m.2.1) ++ ['\x7d']) := by
    have hopen : spelled "\x7b" = ['\x7b'] := spelled_ascii (by decide)
    have hclose : spelled "\x7d" = ['\x7d'] := spelled_ascii (by decide)
    rw [resultsText, spelled_append, spelled_append, spelled_intercalate, hopen, hclose,
      List.map_map, List.map_map]
    simp only [Function.comp_def, spelled_result]
    rfl
  have hobject := Writes.object (l := t.toList.map resultMember) (by
    intro m hm
    obtain ⟨r, -, rfl⟩ := List.mem_map.mp hm
    exact writes_wordsText r.2)
  rw [htext]
  rw [List.map_map (g := fun m : Member => (some m.1, m.2.2))] at hobject
  exact hobject

theorem results?_resultsValue (t : Std.ExtTreeMap String (List Word)) :
    results? (resultsValue t) = some t := by
  have hread (r : String × List Word) : result? (some r.1, wordsValue r.2) = some r := by
    rw [result?, words?_wordsValue]
    rfl
  rw [resultsValue, results?, mapM_map_some hread, List.map_id', Option.map_some, foldl_toList]

/-! ## Databases -/

/-- The object that a database is written as. -/
def value (d : Database) : JsonValue :=
  .object [(some "bless", .bool d.bless), (some "blessed_results", resultsValue d.results)]

theorem render_eq (d : Database) : d.render = "\x7b\"bless\":" ++
    (if d.bless then "true" else "false") ++ ",\"blessed_results\":" ++ resultsText d.results ++
      "\x7d" := by
  have hopen : ",\"blessed_results\":\x7b" = ",\"blessed_results\":" ++ "\x7b" := rfl
  have hclose : "\x7d\x7d" = "\x7d" ++ "\x7d" := rfl
  rw [render, resultsText, hopen, hclose]
  simp only [String.append_assoc]

/-- The text of a database writes its two members. -/
theorem writes_render (d : Database) : Writes (spelled d.render) d.value := by
  have htext : spelled d.render = '\x7b' ::
      ([','].intercalate [memberText "bless" (if d.bless then "true" else "false").toList,
        memberText "blessed_results" (spelled (resultsText d.results))] ++ ['\x7d']) := by
    have hfirst : spelled "\x7b\"bless\":" = '\x7b' :: '"' :: (quoted "bless" ++ [':']) := by decide
    have hsecond : spelled ",\"blessed_results\":" =
        ',' :: '"' :: (quoted "blessed_results" ++ [':']) := by decide
    have hclose : spelled "\x7d" = ['\x7d'] := by decide
    have hflag : spelled (if d.bless then "true" else "false") =
        (if d.bless then "true" else "false").toList := by cases d.bless <;> decide
    rw [render_eq, spelled_append, spelled_append, spelled_append, spelled_append, hfirst, hsecond,
      hclose, hflag]
    simp [memberText]
  have hobject := Writes.object (l := [("bless", _, .bool d.bless),
    ("blessed_results", _, resultsValue d.results)]) (by
      simpa using ⟨.bool d.bless, writes_resultsText d.results⟩)
  rw [htext]
  exact hobject

/-- A database is read as it was written. -/
theorem ofBytes?_render (d : Database) : ofBytes? (Text.encode d.render) = some d := by
  have hresults := results?_resultsValue d.results
  rw [ofBytes?, (writes_render d).parse?, Option.bind_some, value]
  simp [ofJson?, named?, only?, bool?, hresults]

end Database

end SpirvModule
