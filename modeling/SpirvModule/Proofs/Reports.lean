import Mathlib.Order.Bounds.Basic
import SpirvModule.Blessing.Run
import SpirvModule.Proofs.Tiling

/-!
# Reports of results that differ

A result that is not the one that is kept is reported with its first different word and with the
instructions around it. The first difference is the length of the longest common beginning. In a
module that reads as one the instructions leave no gap behind the header, so that the index of a
word, which counts the instructions that are passed on the way to it, is the place of the one that
covers it. A disassembly with a line for each instruction is shown around the line of that place.

* `Pinpoints`: how a number tells the place of a word among the instructions.
* `HasLines`: which lines a text has.

Results:
* `isGreatest_firstDifference`: the first difference of two results.
* `pinpoints_instructionIndex`: the index of a word is the place of the instruction that covers it.
* `textLines_eq_iff`, `Toolbox.around_eq`: the lines of a text, and those that are shown.
* `mismatches_pinpointed`: what is reported.
-/
namespace SpirvModule

/-! ## The first difference -/

theorem firstDifference_cons (a b : Word) (r s : List Word) :
    firstDifference (a :: r) (b :: s) = if a = b then firstDifference r s + 1 else 0 := by
  rw [firstDifference, firstDifference, List.zip_cons_cons, List.findIdx?_cons]
  by_cases h : a = b
  · simp only [h, ne_eq, not_true_eq_false, decide_false, Bool.false_eq_true, if_false, if_true,
      List.length_cons]
    cases (r.zip s).findIdx? fun p => decide ¬ p.1 = p.2 with
    | none => exact Nat.succ_min_succ ..
    | some n => rfl
  · simp [h]

/-- The first difference is where the longest common beginning ends. -/
theorem isGreatest_firstDifference (old ws : List Word) :
    IsGreatest {n | ∃ c, c <+: old ∧ c <+: ws ∧ c.length = n} (firstDifference old ws) := by
  constructor
  · induction old generalizing ws with
    | nil => exact ⟨[], List.nil_prefix, List.nil_prefix, (Nat.zero_min _).symm⟩
    | cons a r ih =>
      cases ws with
      | nil => exact ⟨[], List.nil_prefix, List.nil_prefix, (Nat.min_zero _).symm⟩
      | cons b s =>
        rw [firstDifference_cons]
        split
        · rename_i hab
          subst hab
          obtain ⟨c, hr, hs, hlen⟩ := ih s
          exact ⟨a :: c, List.cons_prefix_cons.mpr ⟨rfl, hr⟩, List.cons_prefix_cons.mpr ⟨rfl, hs⟩,
            congrArg (· + 1) hlen⟩
        · exact ⟨[], List.nil_prefix, List.nil_prefix, rfl⟩
  · rintro n ⟨c, hold, hws, rfl⟩
    induction c generalizing old ws with
    | nil => exact Nat.zero_le _
    | cons a c ih =>
      obtain ⟨r, rfl⟩ := hold
      obtain ⟨s, rfl⟩ := hws
      rw [List.cons_append, List.cons_append, firstDifference_cons, if_pos rfl]
      exact Nat.succ_le_succ (ih _ _ (List.prefix_append c r) (List.prefix_append c s))

/-! ## The instruction that is pointed at -/

section
variable {word p : Nat} {c : List Word} {cs : List (List Word)}

theorem instructionIndexFrom_skip (word k p index : Nat) (ws : List Word) :
    instructionIndexFrom word k p index ws =
      instructionIndexFrom word 0 (p + k) index (ws.drop k) := by
  induction ws generalizing k p with
  | nil => simp [instructionIndexFrom]
  | cons w r ih =>
    cases k with
    | zero => rfl
    | succ k =>
      rw [instructionIndexFrom, ih, List.drop_succ_cons, Nat.add_assoc, Nat.add_comm 1 k]

/-- The walk counts the instructions that it passes. -/
theorem instructionIndexFrom_chunk (index : Nat) (r : List Word) (hc : IsChunk c) :
    instructionIndexFrom word 0 p index (c ++ r) =
      if word < p + c.length then index
      else instructionIndexFrom word 0 (p + c.length) (index + 1) r := by
  cases c with
  | nil => exact hc.elim
  | cons w ops =>
    have hw : max (Word.count w) 1 = ops.length + 1 := by
      rw [show Word.count w = ops.length + 1 from hc]
      omega
    rw [List.cons_append, instructionIndexFrom, hw, instructionIndexFrom_skip, Nat.add_sub_cancel,
      List.drop_left, List.length_cons, Nat.add_assoc p 1, Nat.add_comm 1]

/-- The index of a word is the number of instructions that end at or before it. -/
theorem instructionIndexFrom_flatten (index : Nat) (hcs : ∀ c ∈ cs, IsChunk c) :
    instructionIndexFrom word 0 p index cs.flatten =
      index + (place p cs).countP (·.stop ≤ word) := by
  induction cs generalizing p index with
  | nil => rfl
  | cons c cs ih =>
    obtain ⟨hc, hcs⟩ := List.forall_mem_cons.mp hcs
    rw [List.flatten_cons, instructionIndexFrom_chunk index _ hc, place_cons, List.countP_cons,
      Instruction.ofChunk_stop p hc]
    split
    · rename_i hlt
      rw [(tiles_place hcs _).countP_eq_zero hlt.le, if_neg (by simpa using hlt)]
      rfl
    · rename_i hle
      rw [ih (index + 1) hcs, if_pos (by simpa using hle)]
      omega

end

/-- What a module reads as shows that its words are a header and chunks. -/
theorem chunks_of_parse {ws : List Word} {v : ModuleView} (h : ModuleView.parse ws = .ok v) :
    ∃ cs : List (List Word), (∀ c ∈ cs, IsChunk c) ∧ ws.drop headerWords = cs.flatten ∧
      ws.length = headerWords + cs.flatten.length := by
  obtain ⟨ver, reserved, l, final, hws, -, hwalk, -⟩ := parse_eq_ok.mp h
  have hstop := hwalk.stop_eq
  refine ⟨l.map (·.2.words), fun c hc => ?_, ?_, ?_⟩
  · obtain ⟨e, he, rfl⟩ := List.mem_map.mp hc
    exact (hwalk.fits e he).1.1
  · rw [← l.words_eq_flatten, hws]
    rfl
  · rw [← l.words_eq_flatten, hstop]

/-- How a number `k` tells the place of word `d` in a module. -/
structure Pinpoints (ws : List Word) (d k : Nat) : Prop where
  /-- As many instructions end at or before the word. -/
  passed : k = (moduleInstructions ws).countP (·.stop ≤ d)
  header : d < headerWords → k = 0
  /-- Behind the header exactly that instruction covers the word. -/
  covering : headerWords ≤ d → d < ws.length →
    ∀ j, (∃ i ∈ (moduleInstructions ws)[j]?, i.offset ≤ d ∧ d < i.stop) ↔ j = k
  behind : ws.length ≤ d → k = (moduleInstructions ws).length

/-- The index of a word is its place among the instructions of a module that reads as one. -/
theorem pinpoints_instructionIndex {ws : List Word} {v : ModuleView}
    (h : ModuleView.parse ws = .ok v) (d : Nat) : Pinpoints ws d (instructionIndex ws d) := by
  obtain ⟨cs, hcs, hbody, hlen⟩ := chunks_of_parse h
  have hplace : moduleInstructions ws = place headerWords cs := by
    rw [moduleInstructions, hbody, scan_flatten _ hcs]
  have htiles : Tiles headerWords ws.length (moduleInstructions ws) := by
    rw [hplace, hlen]
    exact tiles_place hcs _
  have hindex : instructionIndex ws d = (moduleInstructions ws).countP (·.stop ≤ d) := by
    rw [instructionIndex, hbody, instructionIndexFrom_flatten 0 hcs, hplace, Nat.zero_add]
  refine ⟨hindex, fun hd => ?_, fun hd hd' j => ?_, fun hd => ?_⟩
  · rw [hindex, htiles.countP_eq_zero hd.le]
  · rw [hindex, htiles.covers_iff hd hd']
  · rw [hindex, htiles.countP_eq_length hd]

/-! ## Lines -/

/-- Whether a text has some lines. Each ends with a line feed, in front of which a carriage return
may stand; only the last one may do without, if it is not empty. -/
inductive HasLines : List Char → List (List Char) → Prop
  | nil : HasLines [] []
  | last {line : List Char} (hne : line ≠ []) (hl : '\n' ∉ line) : HasLines line [line]
  | feed {line rest : List Char} {lines : List (List Char)} (hl : '\n' ∉ line)
      (hr : line.getLast? ≠ some '\r') (h : HasLines rest lines) :
      HasLines (line ++ '\n' :: rest) (line :: lines)
  | returned {line rest : List Char} {lines : List (List Char)} (hl : '\n' ∉ line)
      (h : HasLines rest lines) : HasLines (line ++ '\r' :: '\n' :: rest) (line :: lines)

theorem dropReturn_append (line : List Char) : dropReturn (line ++ ['\r']) = line := by
  rw [dropReturn, List.getLast?_append, List.dropLast_concat]
  rfl

/-- A line goes on as long as there is no line feed. -/
theorem linesFrom_append (line rest : List Char) {xs : List Char} (hxs : '\n' ∉ xs) :
    linesFrom line (xs ++ rest) = linesFrom (xs.reverse ++ line) rest := by
  induction xs generalizing line with
  | nil => rfl
  | cons c xs ih =>
    have hc := List.ne_of_not_mem_cons hxs
    rw [List.cons_append, linesFrom, if_neg hc.symm, ih _ (List.not_mem_of_not_mem_cons hxs),
      List.reverse_cons, List.append_assoc, List.singleton_append]

theorem linesFrom_feed {line : List Char} (rest : List Char) (hl : '\n' ∉ line) :
    linesFrom [] (line ++ '\n' :: rest) = dropReturn line :: linesFrom [] rest := by
  rw [linesFrom_append [] _ hl, List.append_nil, linesFrom, if_pos rfl, List.reverse_reverse]

/-- The lines of a text are those that are found. -/
theorem HasLines.linesFrom_eq {text : List Char} {lines : List (List Char)}
    (h : HasLines text lines) : linesFrom [] text = lines := by
  induction h with
  | nil => rfl
  | @last line hne hl =>
    rw [← List.append_nil line, linesFrom_append [] [] hl, List.append_nil, List.append_nil,
      linesFrom, if_neg (List.reverse_ne_nil_iff.mpr hne), List.reverse_reverse]
  | @feed line rest lines hl hr _ ih =>
    rw [linesFrom_feed rest hl, ih, dropReturn, if_neg hr]
  | @returned line rest lines hl _ ih =>
    have hl' : '\n' ∉ line ++ ['\r'] := by simp [hl]
    have happend : line ++ '\r' :: '\n' :: rest = (line ++ ['\r']) ++ '\n' :: rest := by simp
    rw [happend, linesFrom_feed rest hl', ih, dropReturn_append]

theorem hasLines_linesFrom (line text : List Char) (hline : '\n' ∉ line) :
    HasLines (line.reverse ++ text) (linesFrom line text) := by
  induction text generalizing line with
  | nil =>
    rw [linesFrom, List.append_nil]
    split
    · rename_i h
      subst h
      exact .nil
    · rename_i h
      exact .last (by simpa using h) (by simpa using hline)
  | cons c text ih =>
    rw [linesFrom]
    split
    · rename_i hc
      subst hc
      have hrest := ih [] List.not_mem_nil
      rw [dropReturn]
      split
      · rename_i hr
        obtain ⟨front, hfront⟩ := List.getLast?_eq_some_iff.mp hr
        rw [hfront, List.dropLast_concat, List.append_assoc]
        refine .returned (fun hmem => hline ?_) hrest
        rw [← List.mem_reverse, hfront]
        exact List.mem_append_left _ hmem
      · rename_i hr
        exact .feed (by simpa using hline) hr hrest
    · rename_i hc
      have hcons := ih (c :: line) (by simp [hline, Ne.symm hc])
      rwa [List.reverse_cons, List.append_assoc] at hcons

/-- Every text has the lines that are found in it, and no others. -/
theorem textLines_eq_iff {text : String} {lines : List String} :
    textLines text = lines ↔ HasLines text.toList (lines.map String.toList) := by
  constructor
  · rintro rfl
    have hlines := hasLines_linesFrom [] text.toList List.not_mem_nil
    simpa [textLines, Function.comp_def] using hlines
  · intro h
    rw [textLines, h.linesFrom_eq, List.map_map]
    simp [Function.comp_def]

/-! ## The lines that are shown -/

/-- Some entries of a list with their places, from place `m` on. -/
theorem take_drop_zipIdx {α : Type} (l : List α) (m n : Nat) :
    (l.zipIdx.drop m).take n = (List.range' m n).filterMap fun j => l[j]?.map (·, j) := by
  induction n generalizing m with
  | zero => rfl
  | succ n ih =>
    rw [List.range'_succ, List.filterMap_cons, ← ih (m + 1)]
    cases hm : l[m]? with
    | none =>
      have hle := List.getElem?_eq_none_iff.mp hm
      rw [List.drop_eq_nil_of_le (by simpa using hle),
        List.drop_eq_nil_of_le (by simpa using Nat.le_succ_of_le hle)]
      simp
    | some a =>
      obtain ⟨hlt, ha⟩ := List.getElem?_eq_some_iff.mp hm
      rw [List.drop_eq_getElem_cons (by simpa using hlt), List.take_succ_cons]
      simp [ha]

namespace Toolbox

/-- What is shown of some lines, each with its number, and the one in question with a mark. -/
theorem around_eq (k : Nat) (lines : List String) :
    around k lines = String.join ((List.range' (k - 4) 9).filterMap fun j =>
      lines[j]?.map fun line =>
        (if j = k then ">" else " ") ++ " " ++ padded j ++ ": " ++ line ++ "\n") := by
  rw [around, contextLines, take_drop_zipIdx, List.map_filterMap]
  simp only [Option.map_map]
  rfl

end Toolbox

/-- What is reported about a result that is not the one that is kept. -/
theorem Database.check_differs (db : Database) (tools : Toolbox) (name : String)
    {old ws : List Word} {p : Nat} (hb : db.bless = false) (hold : db.results[name]? = some old)
    (hne : old ≠ ws) (hp : firstDifference old ws = p) :
    (db.check tools name ws).2.2 = .error (.mismatch name p) ∧
      s!"{name} differs at word {p}:\n{tools.excerpt ws p}" ∈ (db.check tools name ws).2.1 := by
  simp [check, hb, hold, hne, hp]

/-- A result that differs is reported with the place where its longest common beginning with the
right one ends. In a module that reads as one the index of a word is its place among the
instructions. Around it nine lines are shown of a disassembly that has one for each instruction, as
far as there are so many, and only that of the covering instruction is marked. -/
theorem mismatches_pinpointed :
    (∀ (db : Database) (tools : Toolbox) (name : String) (old ws : List Word), db.bless = false →
      db.results[name]? = some old → old ≠ ws →
      ∃ p, IsGreatest {n | ∃ c, c <+: old ∧ c <+: ws ∧ c.length = n} p ∧
        (db.check tools name ws).2.2 = .error (.mismatch name p) ∧
        s!"{name} differs at word {p}:\n{tools.excerpt ws p}" ∈ (db.check tools name ws).2.1) ∧
    ∀ (ws : List Word) (v : ModuleView), ModuleView.parse ws = .ok v → ∀ d : Nat,
      let k := instructionIndex ws d
      Pinpoints ws d k ∧
      ∀ (tools : Toolbox) (tool : List Word → ToolReport) (lines : List String),
        tools.disassembler = some tool → (tool ws).success = true →
        HasLines (tool ws).output.toList (lines.map String.toList) →
        lines.length = (moduleInstructions ws).length →
        (headerWords ≤ d → d < ws.length → k < lines.length) ∧
        tools.excerpt ws d = String.join ((List.range' (k - 4) 9).filterMap fun j =>
          lines[j]?.map fun line => (if j = k then ">" else " ") ++ " " ++ Toolbox.padded j ++
            ": " ++ line ++ "\n") := by
  constructor
  · intro db tools name old ws hb hold hne
    exact ⟨_, isGreatest_firstDifference old ws, db.check_differs tools name hb hold hne rfl⟩
  · intro ws v hv d
    have hpin := pinpoints_instructionIndex hv d
    refine ⟨hpin, fun tools tool lines htool hok hlines hlen => ⟨fun hd hd' => ?_, ?_⟩⟩
    · obtain ⟨i, hi, -⟩ := (hpin.covering hd hd' _).mpr rfl
      rw [hlen]
      exact (List.getElem?_eq_some_iff.mp hi).1
    · rw [Toolbox.excerpt, htool]
      dsimp only
      rw [if_pos hok, textLines_eq_iff.mpr hlines, Toolbox.around_eq]

/-- A module of two instructions, behind the words of its header. -/
def twoInstructions : List Word :=
  [magic, 0x00010000, 0, 1, 0, 0x00020011, 1, 0x0003000E, 0, 1]

/-- A disassembler that has two lines to print. -/
def twoLines : Toolbox :=
  ⟨none, some fun _ => ⟨true, "OpCapability Shader\r\nOpMemoryModel Logical GLSL450", ""⟩⟩

theorem exists_parse_twoInstructions : ∃ v, ModuleView.parse twoInstructions = .ok v := by
  have hok : (ModuleView.parse twoInstructions).isOk = true := by decide +kernel
  cases hv : ModuleView.parse twoInstructions with
  | error e =>
    rw [hv] at hok
    cases hok
  | ok v => exact ⟨v, rfl⟩

/-- A result with the magic number differs behind it from the right one, and the second instruction
is shown with the first one. -/
theorem mismatches_pinpointed_twoInstructions :
    (∃ p, IsGreatest {n | ∃ c, c <+: [magic, 0] ∧ c <+: twoInstructions ∧ c.length = n} p ∧
      (Database.check ⟨false, (∅ : Std.ExtTreeMap String (List Word)).insert "a" [magic, 0]⟩
        twoLines "a" twoInstructions).2.2 = .error (.mismatch "a" p)) ∧
    Pinpoints twoInstructions 8 1 ∧
    twoLines.excerpt twoInstructions 8 =
      "      0: OpCapability Shader\n>     1: OpMemoryModel Logical GLSL450\n" := by
  obtain ⟨hcheck, hshow⟩ := mismatches_pinpointed
  obtain ⟨v, hv⟩ := exists_parse_twoInstructions
  obtain ⟨hpin, hexcerpt⟩ := hshow twoInstructions v hv 8
  refine ⟨?_, hpin, ?_⟩
  · obtain ⟨p, hp, hmismatch, -⟩ :=
      hcheck ⟨false, (∅ : Std.ExtTreeMap String (List Word)).insert "a" [magic, 0]⟩ twoLines "a"
        [magic, 0] twoInstructions rfl (by simp) (by decide +kernel)
    exact ⟨p, hp, hmismatch⟩
  · have hlines : HasLines "OpCapability Shader\r\nOpMemoryModel Logical GLSL450".toList
        (["OpCapability Shader", "OpMemoryModel Logical GLSL450"].map String.toList) :=
      textLines_eq_iff.mp (by decide +kernel)
    rw [(hexcerpt twoLines _ _ rfl rfl hlines (by decide +kernel)).2]
    decide +kernel

end SpirvModule
