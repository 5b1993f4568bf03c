import StepFlow.Path.Basic
import StepFlow.Proofs.Except

/-!
# Reading paths and reading along paths

What a text gives as a path, and what a path gives as a value.

* `Path.source_of_parse`, `Path.inContext_of_parse`, `ReferencePath.parse_path`: paths of texts;
* `Path.Spelled`, `Path.spelled_of_parse`: paths that their texts spell;
* `ReferencePath.forbidden?_of_mem`, `ReferencePath.anchor_eq`: reference paths;
* `Path.read_eq_ok`, `Path.read_cases`: the one value at a path, and what there can be instead.
-/

namespace StepFlow

/-! ## Paths of texts -/

theorem Path.source_of_parse {text : String} {p : Path} (h : Path.parse text = .ok p) :
    p.source = text := by
  unfold Path.parse at h
  split at h <;>
  · obtain ⟨q, -, h⟩ := Except.bind_eq_ok_iff.mp h
    cases h
    rfl

/-- The text of a path spells it. -/
def Path.Spelled (p : Path) : Prop := Path.parse p.source = .ok p

theorem Path.spelled_of_parse {text : String} {p : Path} (h : Path.parse text = .ok p) :
    p.Spelled := by
  rw [Path.Spelled, source_of_parse h, h]

theorem Path.inContext_of_parse {text : String} {p : Path} (hp : Path.parse text = .ok p)
    (hcontext : ∀ rest, text.toList ≠ '$' :: '$' :: rest) : p.inContext = false := by
  rw [Path.parse] at hp
  split at hp
  · next rest h => exact absurd h (hcontext rest)
  · obtain ⟨q, -, hp⟩ := Except.bind_eq_ok_iff.mp hp
    cases hp
    rfl

namespace ReferencePath

theorem parse_path {text : String} {p : ReferencePath} (hp : ReferencePath.parse text = .ok p) :
    Path.parse text = .ok p.path := by
  obtain ⟨path, hpath, hp⟩ := Except.bind_eq_ok_iff.mp hp
  split at hp
  · cases hp
    exact hpath
  · cases hp

theorem anchor_eq (p : ReferencePath) : p.path.query.anchor = .root := by
  have h := p.allowed
  rw [Query.forbidden?] at h
  cases hanchor : p.path.query.anchor with
  | root => rfl
  | current =>
    rw [if_pos hanchor] at h
    cases h

theorem forbidden?_of_mem (p : ReferencePath) :
    ∀ segment ∈ p.path.query.segments, segment.forbidden? = none := by
  have h := p.allowed
  rw [Query.forbidden?, p.anchor_eq, if_neg nofun] at h
  exact List.findSome?_eq_none_iff.mp h

end ReferencePath

/-! ## The value at a path -/

theorem Query.read_eq_ok {q : Query} {document : Json} {values : List Json} :
    q.read document = .ok values ↔ q.overruns document = false ∧ q.get document = values := by
  rw [Query.read]
  cases q.overruns document <;> simp

namespace Path

theorem read_eq_ok {p : Path} {context document value : Json} :
    p.read context document = .ok value ↔
      p.query.overruns (p.target context document) = false ∧
        p.query.get (p.target context document) = [value] := by
  rw [← Query.read_eq_ok, Path.read]
  split
  · next x h => rw [h]; simp
  · next values h hr =>
    rw [hr, Except.ok.injEq]
    exact iff_of_false nofun (h value)
  · next e h => rw [h]; exact iff_of_false nofun nofun

/-- A path selects one value, or not one, or a slice runs out of range. -/
theorem read_cases (p : Path) (context document : Json) :
    (∃ value, p.query.read (p.target context document) = .ok [value] ∧
      p.read context document = .ok value) ∨
    (∃ values, p.query.read (p.target context document) = .ok values ∧ values.length ≠ 1 ∧
      p.read context document = .error (.resultLength p.source values.length)) ∨
    (p.query.overruns (p.target context document) = true ∧
      p.read context document = .error (.overrun p.query.source)) := by
  unfold Path.read
  by_cases hover : p.query.overruns (p.target context document) = true
  · refine .inr (.inr ⟨hover, ?_⟩)
    rw [Query.read, if_pos hover]
  · rw [Query.read, if_neg hover]
    match p.query.get (p.target context document) with
    | [] => exact .inr (.inl ⟨[], rfl, by simp, rfl⟩)
    | [value] => exact .inl ⟨value, rfl, rfl⟩
    | first :: second :: rest => exact .inr (.inl ⟨_, rfl, by simp, rfl⟩)

end Path

end StepFlow
