import StepFlow.Text.Scanner

/-!
# Patterns

A pattern is a text in which a star stands for any run of characters; a backslash takes the meaning
from a star and from a backslash.

* `PatternToken`, `PatternToken.ofText`: the characters and stars of a pattern;
* `Search`: a place in a pattern and one in a text, with the last star that was passed;
* `Search.next?`: one round of a search, which goes back to that star where the text does not agree;
* `matchPattern`: whether a pattern describes a whole text.
-/

namespace StepFlow

/-- A part of a pattern. -/
inductive PatternToken where
  | char (c : Char)
  | star
deriving DecidableEq, Repr, Inhabited

/-- What is wrong with a text that is no pattern. -/
inductive PatternFault where
  | badEscape
  | openBackslash
deriving DecidableEq, Repr, Inhabited

def PatternFault.message : PatternFault → String
  | .badEscape => "only '*' and '\\' may be escaped"
  | .openBackslash => "open backslash at end of pattern"

/-- The parts of a pattern. -/
def PatternToken.ofChars : List Char → Except PatternFault (List PatternToken)
  | [] => .ok []
  | '\\' :: rest =>
    match rest with
    | [] => .error .openBackslash
    | c :: cs =>
      if c = '*' ∨ c = '\\' then (ofChars cs).map (.char c :: ·) else .error .badEscape
  | '*' :: cs => (ofChars cs).map (.star :: ·)
  | c :: cs => (ofChars cs).map (.char c :: ·)

/-- The parts of the pattern that a text spells. -/
def PatternToken.ofText (text : String) : Except PatternFault (List PatternToken) :=
  ofChars text.toList

/-! ## Searches -/

/-- A place in a pattern and one in a text. -/
structure Search where
  /-- The pattern that is left. -/
  pattern : List PatternToken
  /-- The text that is left. -/
  text : List Char
  /-- The pattern behind the last star that was passed, and the text from where on it is being tried. -/
  star? : Option (List PatternToken × List Char)
  /-- From there to here the pattern has characters only, which are those of the text. -/
  agrees : ∀ e ∈ star?, ∃ cs : List Char, e.1 = cs.map .char ++ pattern ∧ e.2 = cs ++ text

namespace Search

/-- The search before its first round. -/
def start (pattern : List PatternToken) (text : List Char) : Search := ⟨pattern, text, none, nofun⟩

/-- The search right behind a star. -/
def behindStar (pattern : List PatternToken) (text : List Char) : Search where
  pattern
  text
  star? := some (pattern, text)
  agrees e he := by
    cases he
    exact ⟨[], rfl, rfl⟩

/-- The search after a character of the pattern that is that of the text. -/
def behindChar (c : Char) (pattern : List PatternToken) (text : List Char)
    (star? : Option (List PatternToken × List Char))
    (agrees : ∀ e ∈ star?, ∃ cs : List Char, e.1 = cs.map .char ++ .char c :: pattern ∧
      e.2 = cs ++ c :: text) : Search where
  pattern
  text
  star?
  agrees e he := by
    obtain ⟨cs, hp, ht⟩ := agrees e he
    exact ⟨cs ++ [c], by simp [hp], by simp [ht]⟩

/-- Goes back to the last star, which takes in one character more than before. -/
def goBack? (s : Search) : Option Search :=
  match s.star? with
  | some (pattern, _ :: text) => some (behindStar pattern text)
  | _ => none

/-- The next round of a search in a text that is not used up, unless nothing is left to be tried. -/
def next? : Search → Option Search
  | ⟨.star :: pattern, text, _, _⟩ => some (behindStar pattern text)
  | ⟨.char d :: pattern, c :: text, star?, agrees⟩ =>
    if h : d = c then some (behindChar c pattern text star? (h ▸ agrees))
    else goBack? ⟨.char d :: pattern, c :: text, star?, agrees⟩
  | s => s.goBack?

/-- What gets less in every round: the pattern behind the last star, the text from where on it is tried,
and the pattern that is left. -/
def size (s : Search) : Nat × Nat × Nat :=
  match s.star? with
  | none => (s.pattern.length + 1, 0, s.pattern.length)
  | some (pattern, text) => (pattern.length, text.length, s.pattern.length)

/-- Lexicographic order of triples. -/
abbrev Less : Nat × Nat × Nat → Nat × Nat × Nat → Prop :=
  Prod.Lex (· < ·) (Prod.Lex (· < ·) (· < ·))

theorem size_goBack? {s s' : Search} (h : s.goBack? = some s') : Less s'.size s.size := by
  unfold goBack? at h
  split at h
  · next pattern c text hs =>
    cases h
    rw [size, size, hs]
    exact .right _ (.left _ _ (Nat.lt_succ_self _))
  · cases h

theorem size_behindStar {pattern : List PatternToken} {text : List Char} {s : Search}
    (h : s.pattern = .star :: pattern) : Less (behindStar pattern text).size s.size := by
  show Less (pattern.length, text.length, pattern.length) s.size
  unfold size
  rw [h, List.length_cons]
  split
  · exact .left _ _ (by omega)
  · next pattern' text' hs =>
    obtain ⟨cs, hp, -⟩ := s.agrees _ hs
    have hlength : pattern'.length = cs.length + (pattern.length + 1) := by
      rw [show pattern' = _ from hp, h, List.length_append, List.length_map, List.length_cons]
    exact .left _ _ (by omega)

/-- Every round of a search has less before it. -/
theorem size_next? {s s' : Search} (h : s.next? = some s') : Less s'.size s.size := by
  unfold next? at h
  split at h
  · cases h
    exact size_behindStar rfl
  · next d pattern c text star? agrees =>
    split at h
    · cases h
      cases star? with
      | none => exact .left _ _ (Nat.lt_succ_self _)
      | some e => exact .right _ (.right _ (Nat.lt_succ_self _))
    · exact size_goBack? h
  · exact size_goBack? h

/-- Whether the search comes to the end of the text, with nothing but stars left. -/
def succeeds (s : Search) : Bool :=
  if s.text.isEmpty then s.pattern.all (· = .star)
  else
    match _h : s.next? with
    | some s' => s'.succeeds
    | none => false
termination_by s.size
decreasing_by exact size_next? _h

end Search

/-- Whether a pattern describes a whole text. -/
def matchPattern (pattern : List PatternToken) (text : List Char) : Bool :=
  (Search.start pattern text).succeeds

end StepFlow
