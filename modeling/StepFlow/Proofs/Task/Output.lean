import Mathlib.Data.List.Induction
import Mathlib.Data.List.TakeWhile
import StepFlow.Proofs.Keyed
import StepFlow.Task.Script

/-!
# What the output of a script says

A program says its result line by line, among whatever else it writes. A line can give a name to an
error or a value to a key; of the lines that say something of one kind, the last one counts. The mark
between the start of a line and its key can be left out.

* `Script.Saying`, `Script.Says`: what a line can say, and the lines that say it;
* `Script.saying?`, `saying?_eq_some`: what a line says, as the task reads it;
* `Script.Latest`: the last line that says something of a kind;
* `find?_readOutput`, `reported_readOutput`: what the lines of an output say together;
* `readOutput_eq_of_filter`: the other lines change nothing;
* **`Script.result_by_latest_lines`**: what comes of a program.
-/

namespace StepFlow

namespace Script

/-! ## What a line says -/

/-- What a line can say. -/
inductive Saying where
  /-- A name for the error of the program. -/
  | names (name : String)
  /-- A value for a key of the result. -/
  | gives (key value : String)
deriving DecidableEq, Repr

/-- The lines that say something. A key goes up to the first equals sign. The mark in front of it can be
left out if the key does not start with one itself. -/
inductive Says : List Char → Saying → Prop where
  | names (name : String) : Says (errorPrefix ++ name.toList) (.names name)
  | marked {key : String} (hkey : '=' ∉ key.toList) (value : String) :
      Says (outputPrefix ++ '_' :: (key.toList ++ '=' :: value.toList)) (.gives key value)
  | unmarked {key : String} (hkey : '=' ∉ key.toList) (hmark : key.toList.head? ≠ some '_')
      (value : String) : Says (outputPrefix ++ (key.toList ++ '=' :: value.toList)) (.gives key value)

/-- What a line says, if it says something. -/
def saying? (line : List Char) : Option Saying :=
  if errorPrefix.isPrefixOf line then some (.names (String.ofList (line.drop errorPrefix.length)))
  else if outputPrefix.isPrefixOf line then
    (field? (line.drop outputPrefix.length)).map fun e => .gives e.1 e.2
  else none

variable {line rest : List Char} {key value : String} {s : Saying}

theorem cut_at_equals {before : List Char} (h : '=' ∉ before) (after : List Char) :
    (before ++ '=' :: after).dropWhile (· ≠ '=') = '=' :: after ∧
      (before ++ '=' :: after).takeWhile (· ≠ '=') = before := by
  have hbefore : ∀ c ∈ before, decide (c ≠ '=') = true := fun c hc =>
    decide_eq_true fun heq => h (heq ▸ hc)
  rw [List.dropWhile_append_of_pos hbefore, List.takeWhile_append_of_pos hbefore]
  exact ⟨rfl, List.append_nil before⟩

theorem field?_marked {key : List Char} (h : '=' ∉ key) (value : List Char) :
    field? ('_' :: (key ++ '=' :: value)) = some (String.ofList key, String.ofList value) := by
  have hmarked : '=' ∉ '_' :: key := List.not_mem_cons_of_ne_of_not_mem (by decide) h
  obtain ⟨hdrop, htake⟩ := cut_at_equals hmarked value
  rw [List.cons_append] at hdrop htake
  simp only [field?, hdrop, htake]

theorem field?_unmarked {key : List Char} (h : '=' ∉ key) (hmark : key.head? ≠ some '_')
    (value : List Char) : field? (key ++ '=' :: value) = some (String.ofList key, String.ofList value) := by
  obtain ⟨hdrop, htake⟩ := cut_at_equals h value
  simp only [field?, hdrop, htake]
  split
  · exact absurd rfl hmark
  · rfl

theorem field?_of_notMem (h : '=' ∉ rest) : field? rest = none := by
  have hdrop : rest.dropWhile (· ≠ '=') = [] :=
    List.dropWhile_eq_nil_iff.mpr fun c hc => decide_eq_true fun heq => h (heq ▸ hc)
  rw [field?, hdrop]

/-- What stands after the start of a line that gives a value to a key. -/
theorem field?_eq_some : field? rest = some (key, value) ↔ '=' ∉ key.toList ∧
    (rest = '_' :: (key.toList ++ '=' :: value.toList) ∨
      key.toList.head? ≠ some '_' ∧ rest = key.toList ++ '=' :: value.toList) := by
  constructor
  · intro h
    have hmem : '=' ∈ rest := by
      by_contra hmem
      rw [field?_of_notMem hmem] at h
      cases h
    obtain ⟨before, after, rfl, hbefore⟩ := List.eq_append_cons_of_mem hmem
    by_cases hmark : before.head? = some '_'
    · obtain ⟨name, rfl⟩ := List.head?_eq_some_iff.mp hmark
      have hname := List.not_mem_of_not_mem_cons hbefore
      rw [List.cons_append, field?_marked hname] at h
      cases h
      simp [hname]
    · rw [field?_unmarked hbefore hmark] at h
      cases h
      simp [hbefore, hmark]
  · rintro ⟨h, rfl | ⟨hmark, rfl⟩⟩
    · rw [field?_marked h, String.ofList_toList, String.ofList_toList]
    · rw [field?_unmarked h hmark, String.ofList_toList, String.ofList_toList]

/-- **What the task reads in a line is what the line says.** -/
theorem saying?_eq_some : saying? line = some s ↔ Says line s := by
  constructor
  · intro h
    rw [saying?] at h
    split at h
    · next hprefix =>
      obtain ⟨name, rfl⟩ := List.isPrefixOf_iff_prefix.mp hprefix
      cases h
      rw [List.drop_left]
      simpa using Says.names (String.ofList name)
    · split at h
      · next hprefix =>
        obtain ⟨rest, rfl⟩ := List.isPrefixOf_iff_prefix.mp hprefix
        rw [List.drop_left] at h
        obtain ⟨⟨key, value⟩, hfield, rfl⟩ := Option.map_eq_some_iff.mp h
        obtain ⟨hkey, rfl | ⟨hmark, rfl⟩⟩ := field?_eq_some.mp hfield
        · exact .marked hkey value
        · exact .unmarked hkey hmark value
      · cases h
  · have houtput (rest : List Char) : saying? (outputPrefix ++ rest) =
        (field? rest).map fun e => .gives e.1 e.2 := rfl
    rintro (name | ⟨hkey, value⟩ | ⟨hkey, hmark, value⟩)
    · have hname : saying? (errorPrefix ++ name.toList) = some (.names (String.ofList name.toList)) := rfl
      rw [hname, String.ofList_toList]
    · rw [houtput, field?_eq_some.mpr ⟨hkey, .inl rfl⟩]
      rfl
    · rw [houtput, field?_eq_some.mpr ⟨hkey, .inr ⟨hmark, rfl⟩⟩]
      rfl

/-- The line says something. -/
def Speaks (line : List Char) : Prop := ∃ s, Says line s

instance (line : List Char) : Decidable (Speaks line) :=
  decidable_of_iff ((saying? line).isSome = true) <| by
    simp only [Option.isSome_iff_exists, saying?_eq_some, Speaks]

theorem exists_names_iff : (∃ name, Says line (.names name)) ↔ errorPrefix <+: line := by
  constructor
  · rintro ⟨name, h⟩
    cases h
    exact List.prefix_append _ _
  · rintro ⟨name, rfl⟩
    refine ⟨String.ofList name, ?_⟩
    simpa using Says.names (String.ofList name)

/-! ## What a line adds -/

theorem Reading.add_eq (r : Reading) (line : List Char) : r.add line =
    match saying? line with
    | some (.names name) => { r with reported := some name }
    | some (.gives key value) => { r with fields := Keyed.insert key (.str value) r.fields }
    | none => r := by
  rw [Reading.add, saying?]
  split
  · rfl
  · split
    · cases field? (line.drop outputPrefix.length) <;> rfl
    · rfl

/-- The last of the lines that say something of a kind says `a`. -/
def Latest {α : Type} (tells : List Char → α → Prop) (lines : List (List Char)) (a : α) : Prop :=
  ∃ before line after, lines = before ++ line :: after ∧ tells line a ∧
    ∀ later ∈ after, ∀ b, ¬ tells later b

section Latest

variable {α : Type} {tells : List Char → α → Prop} {lines : List (List Char)} {a : α}

theorem not_latest_nil : ¬ Latest tells [] a := by
  rintro ⟨before, line, after, h, -⟩
  cases before <;> cases h

theorem latest_concat : Latest tells (lines ++ [line]) a ↔
    tells line a ∨ (∀ b, ¬ tells line b) ∧ Latest tells lines a := by
  constructor
  · rintro ⟨before, first, after, h, hfirst, hafter⟩
    rcases after.eq_nil_or_concat with rfl | ⟨after, last, rfl⟩
    · obtain ⟨rfl, rfl⟩ := List.append_singleton_inj.mp h
      exact .inl hfirst
    · rw [List.concat_eq_append, ← List.cons_append, ← List.append_assoc] at h
      obtain ⟨rfl, rfl⟩ := List.append_singleton_inj.mp h
      refine .inr ⟨hafter line (by simp), before, first, after, rfl, hfirst, fun later hl => ?_⟩
      exact hafter later (by simp [hl])
  · rintro (h | ⟨hline, before, first, after, rfl, hfirst, hafter⟩)
    · exact ⟨lines, line, [], rfl, h, List.forall_mem_nil _⟩
    · refine ⟨before, first, after ++ [line], by simp, hfirst, ?_⟩
      exact List.forall_mem_append.mpr ⟨hafter, List.forall_mem_singleton.mpr hline⟩

theorem exists_latest_iff : (∃ a, Latest tells lines a) ↔ ∃ line ∈ lines, ∃ a, tells line a := by
  induction lines using List.reverseRecOn with
  | nil => simp [not_latest_nil]
  | append_singleton lines line ih =>
    simp only [latest_concat, List.mem_append, List.mem_singleton, or_and_right, exists_or, exists_eq_left,
      ← ih]
    by_cases h : ∃ b, tells line b
    · simp [h]
    · simp [not_exists.mp h]

end Latest

/-! ## What an output says -/

variable {output : List Char}

theorem find?_readOutput {v : Json} : Keyed.find? key (readOutput output).fields = some v ↔
    ∃ text, v = .str text ∧
      Latest (fun line text => Says line (.gives key text)) (Text.lines output) text := by
  rw [readOutput]
  generalize Text.lines output = lines
  induction lines using List.reverseRecOn with
  | nil => simp [not_latest_nil]
  | append_singleton lines line ih =>
    rw [List.foldl_append, List.foldl_cons, List.foldl_nil, Reading.add_eq]
    simp only [latest_concat, ← saying?_eq_some] at ih ⊢
    split
    · next name hs => simp [hs, ih]
    · next l text hs =>
      rw [Keyed.find?_insert, hs]
      by_cases hl : l = key
      · simp [hl, eq_comm]
      · simp [hl, ih]
    · next hs => simp [hs, ih]

theorem reported_readOutput {name : String} : (readOutput output).reported = some name ↔
    Latest (fun line name => Says line (.names name)) (Text.lines output) name := by
  rw [readOutput]
  generalize Text.lines output = lines
  induction lines using List.reverseRecOn with
  | nil => simp [not_latest_nil]
  | append_singleton lines line ih =>
    rw [List.foldl_append, List.foldl_cons, List.foldl_nil, Reading.add_eq]
    simp only [latest_concat, ← saying?_eq_some] at ih ⊢
    split
    · next told hs => simp [hs, eq_comm]
    · next l text hs => simp [hs, ih]
    · next hs => simp [hs, ih]

theorem sorted_readOutput (output : List Char) : (readOutput output).fields.Sorted := by
  rw [readOutput]
  induction Text.lines output using List.reverseRecOn with
  | nil => exact .nil
  | append_singleton lines line ih =>
    rw [List.foldl_append, List.foldl_cons, List.foldl_nil, Reading.add_eq]
    split
    · exact ih
    · exact ih.insert _ _
    · exact ih

theorem Reading.add_of_not_speaks (h : ¬ Speaks line) (r : Reading) : r.add line = r := by
  rw [Reading.add_eq]
  cases hs : saying? line with
  | none => rfl
  | some s => exact absurd ⟨s, saying?_eq_some.mp hs⟩ h

theorem readOutput_eq_of_filter {output' : List Char}
    (h : (Text.lines output').filter Speaks = (Text.lines output).filter Speaks) :
    readOutput output' = readOutput output := by
  have hfilter (lines : List (List Char)) (r : Reading) :
      (lines.filter Speaks).foldl Reading.add r = lines.foldl Reading.add r := by
    rw [List.foldl_filter]
    congr
    funext r line
    split
    · rfl
    · next hs => exact (Reading.add_of_not_speaks (by simpa using hs) r).symm
  rw [readOutput, readOutput, ← hfilter, h, hfilter]

/-! ## What comes of a program -/

/-- The lines of the output of a program. -/
def linesOf (c : Completed) : List (List Char) := Text.lines (Text.readUtf8 c.output)

/-- What the task reads in the output of a program. -/
def readingOf (c : Completed) : Reading := readOutput (Text.readUtf8 c.output)

theorem result_eq_named {path : String} {c : Completed} {name cause : String} :
    result path c = .error (.failed (some name) cause) ↔
      (readingOf c).reported = some name ∧ cause = String.ofList (Text.trim (Text.readUtf8 c.errors)) := by
  rw [result, ← readingOf]
  dsimp only
  cases (readingOf c).reported with
  | some told => simp [eq_comm]
  | none =>
    dsimp only
    split <;> simp

theorem result_eq_ok {path : String} {c : Completed} {value : Json} : result path c = .ok value ↔
    (readingOf c).reported = none ∧ c.exit = .status 0 ∧ value = .obj (readingOf c).fields := by
  rw [result, ← readingOf]
  dsimp only
  cases (readingOf c).reported with
  | some told => simp
  | none =>
    dsimp only
    split
    · next hexit => simp [hexit, eq_comm]
    · next hexit => simp [hexit]

theorem isSome_reported_iff {c : Completed} :
    (∃ name, (readingOf c).reported = some name) ↔ ∃ line ∈ linesOf c, errorPrefix <+: line := by
  simp only [readingOf, reported_readOutput, exists_latest_iff, exists_names_iff, linesOf]

/-- **What comes of a program is what the last lines say.** A program fails with a name exactly if a
line of its output starts with `WAYPOINT_ERR=`, and then with the name of the last such line. If it
succeeds, then its result has the fields that the output gives: the keys are those of the lines that give
a value to a key, and every value is that of the last line for its key. The other lines of the output
change nothing. -/
theorem result_by_latest_lines (path : String) (c : Completed) :
    (∀ name cause, result path c = .error (.failed (some name) cause) ↔
      Latest (fun line name => Says line (.names name)) (linesOf c) name ∧
        cause = String.ofList (Text.trim (Text.readUtf8 c.errors))) ∧
    ((∃ name cause, result path c = .error (.failed (some name) cause)) ↔
      ∃ line ∈ linesOf c, errorPrefix <+: line) ∧
    (∀ value, result path c = .ok value ↔ (∀ line ∈ linesOf c, ¬ errorPrefix <+: line) ∧
      c.exit = .status 0 ∧ value = .obj (readingOf c).fields) ∧
    (readingOf c).fields.Sorted ∧
    (∀ key, key ∈ (readingOf c).fields.keys ↔ ∃ line ∈ linesOf c, ∃ text, Says line (.gives key text)) ∧
    (∀ key v, Keyed.find? key (readingOf c).fields = some v ↔ ∃ text, v = .str text ∧
      Latest (fun line text => Says line (.gives key text)) (linesOf c) text) ∧
    ∀ c', c'.errors = c.errors → c'.exit = c.exit →
      (linesOf c').filter Speaks = (linesOf c).filter Speaks → result path c' = result path c := by
  refine ⟨fun name cause => ?_, ?_, fun value => ?_, sorted_readOutput _, fun key => ?_,
    fun key v => find?_readOutput, fun c' herrors hexit hlines => ?_⟩
  · rw [result_eq_named, readingOf, reported_readOutput, linesOf]
  · rw [← isSome_reported_iff]
    simp only [result_eq_named, exists_and_left, exists_eq, and_true]
  · rw [result_eq_ok, Option.eq_none_iff_forall_ne_some, ← not_exists, isSome_reported_iff]
    simp only [not_exists, not_and]
  · simp only [Keyed.mem_keys, readingOf, find?_readOutput]
    rw [linesOf, ← exists_latest_iff]
    constructor
    · rintro ⟨_, text, rfl, h⟩
      exact ⟨text, h⟩
    · rintro ⟨text, h⟩
      exact ⟨_, text, rfl, h⟩
  · have hreading : readOutput (Text.readUtf8 c'.output) = readOutput (Text.readUtf8 c.output) :=
      readOutput_eq_of_filter hlines
    rw [result, result, hreading, herrors, hexit]

/-- A program that prints the value of a variable whose name has the start of a line for a key. -/
def printingVariable : Completed where
  output := "WAYPOINT_OUTPUT_DIR=/tmp\nWAYPOINT_OUT_a=1\n".toList
  errors := []
  exit := .status 0
  duration := ⟨0⟩

/-- No line of the output gives a value to `PUT_DIR` behind the mark, and still the result has a member
of this name. -/
theorem result_of_printingVariable :
    (∀ line ∈ linesOf printingVariable, ∀ text : String,
      line ≠ outputPrefix ++ '_' :: ("PUT_DIR".toList ++ '=' :: text.toList)) ∧
    result "/bin/sh" printingVariable = .ok (.obj [("PUT_DIR", .str "/tmp"), ("a", .str "1")]) := by
  have hlines : linesOf printingVariable =
      ["WAYPOINT_OUTPUT_DIR=/tmp".toList, "WAYPOINT_OUT_a=1".toList] := by
    decide +kernel
  have hreading : readingOf printingVariable = ⟨[("PUT_DIR", .str "/tmp"), ("a", .str "1")], none⟩ := by
    rw [readingOf, readOutput, ← linesOf, hlines]
    rfl
  constructor
  · rw [hlines]
    refine List.forall_mem_cons.mpr ⟨fun text h => ?_, List.forall_mem_singleton.mpr fun text h => ?_⟩
    · cases h
    · cases h
  · rw [result_eq_ok, hreading]
    exact ⟨rfl, rfl, rfl⟩

end Script

end StepFlow
