import StepFlow.Path.Error

/-!
# Paths

A path says where a state reads or writes data. It is a query on the state's document, or, with a
second `$` in front, a query on the context object.

* `Path`, `Path.parse`: a query and the document that it is meant for;
* `ReferencePath`, `ReferencePath.parse`: a path from the root by members, items and wildcards only;
* `Query.read`: the values that a query selects, unless a slice runs out of range;
* `Path.read`: the one value that a path selects;
* `Path.merge`: a document, or a copy of the context, with a value written at a path.
-/

namespace StepFlow

/-- The values that the query selects. -/
def Query.read (q : Query) (document : Json) : Except PathError (List Json) :=
  if q.overruns document then .error (.overrun q.source) else .ok (q.get document)

/-- A query for the state's document or for the context object. -/
structure Path where
  source : String
  inContext : Bool
  query : Query
deriving Inhabited

namespace Path

/-- The path of the whole document. -/
def root : Path := ⟨"$", false, .root⟩

/-- Reads a query and gives the place of a fault in bytes. -/
def parseQuery (source : String) : Except PathError Query :=
  match Query.parse source with
  | .ok q => .ok q
  | .error f => .error (.unreadable source (f.offset source.toList) f.cause)

/-- The path that a text spells. With two `$` in front the query starts at the second one. -/
def parse (source : String) : Except PathError Path :=
  match source.toList with
  | '$' :: '$' :: rest => do
    let q ← parseQuery (String.ofList ('$' :: rest))
    return ⟨source, true, q⟩
  | _ => do
    let q ← parseQuery source
    return ⟨source, false, q⟩

/-- The document that the path is meant for. -/
def target (p : Path) (context document : Json) : Json :=
  if p.inContext then context else document

/-- The one value that the path selects. -/
def read (p : Path) (context document : Json) : Except PathError Json :=
  match p.query.read (p.target context document) with
  | .ok [value] => .ok value
  | .ok values => .error (.resultLength p.source values.length)
  | .error e => .error e

end Path

/-- The document with `value` written where the query names. -/
def Query.put (q : Query) (value document : Json) : Except PathError Json :=
  let w := q.set value document
  match w.fault with
  | none => .ok w.result
  | some .overrun => .error (.overrun q.source)
  | some fault => .error (.unwritable q.source fault)

/-- The document, or a copy of the context for a context path, with `value` written at the path. -/
def Path.merge (p : Path) (context document value : Json) : Except PathError Json :=
  p.query.put value (p.target context document)

/-- The operator that keeps a segment out of reference paths. -/
def Segment.forbidden? : Segment → Option Forbidden
  | .union _ => some .union
  | .slice _ _ _ => some .slice
  | .filter _ => some .filter
  | _ => none

/-- The operator that keeps a query from being a reference path. -/
def Query.forbidden? (q : Query) : Option Forbidden :=
  if q.anchor = .current then some .current else q.segments.findSome? Segment.forbidden?

/-- A path that starts at the root and has no union, slice or filter. -/
structure ReferencePath where
  path : Path
  allowed : path.query.forbidden? = none

namespace ReferencePath

/-- The path of the whole document. -/
def root : ReferencePath := ⟨.root, rfl⟩

instance : Inhabited ReferencePath := ⟨root⟩

/-- The reference path that a text spells. -/
def parse (source : String) : Except PathError ReferencePath := do
  let p ← Path.parse source
  match h : p.query.forbidden? with
  | none => return ⟨p, h⟩
  | some operator => throw (.notReference source operator)

def source (p : ReferencePath) : String := p.path.source

end ReferencePath

end StepFlow
