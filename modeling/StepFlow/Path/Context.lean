import StepFlow.Path.Basic

/-!
# The context object

What a run knows about itself, apart from the data that flows between its states. A context is never
changed in place: writing gives a new one.

* `Context.get?`, `Context.set`, `Context.update`: reading and writing at a path.
-/

namespace StepFlow

/-- The context object of a run. -/
structure Context where
  value : Json
deriving Inhabited

namespace Context

/-- The context object with nothing in it. -/
def empty : Context := ⟨.obj []⟩

/-- The first value that a path selects, if it selects any. -/
def get? (c : Context) (p : Path) : Except PathError (Option Json) :=
  (p.query.read c.value).map List.head?

/-- The context with `value` written at a path. -/
def set (c : Context) (p : Path) (value : Json) : Except PathError Context :=
  (p.query.put value c.value).map Context.mk

/-- The context with `value` written at the path that a text spells. -/
def update (c : Context) (path : String) (value : Json) : Except PathError Context := do
  c.set (← Path.parse path) value

end Context

end StepFlow
