import StepFlow.Path.Context
import StepFlow.Timestamp

/-!
# Sections of the context object

What a run writes into its context object. A context is never changed in place, so a workflow in a
lane writes into a copy of its own.

* `Context.ofRun`: the context at the start of a run;
* `Context.atState`: the context of an attempt of a state;
* `Context.atItem`: the context of the lane for one item.
-/

namespace StepFlow.Context

/-- The context with a section in place of the one with the same name. -/
def withSection (c : Context) (name : String) (content : Json) : Context :=
  ⟨.obj (Keyed.insert name content ((c.value.members?).getD []))⟩

/-- The context at the start of a run. -/
def ofRun (identifier : String) (input : Json) (start : Timestamp) : Context :=
  empty.withSection "Execution" (.ofMembers
    [("Id", .str identifier), ("Input", input), ("StartTime", .str start.render)])

/-- The context of an attempt of a state, which was retried `retries` times before. -/
def atState (c : Context) (state : String) (retries : Nat) (now : Timestamp) : Context :=
  c.withSection "State" (.ofMembers
    [("Name", .str state), ("EnteredTime", .str now.render), ("RetryCount", .nat retries)])

/-- The context of the lane for one item of an array. -/
def atItem (c : Context) (index : Nat) (item : Json) : Context :=
  c.withSection "Map" (.ofMembers
    [("Item", .ofMembers [("Index", .nat index), ("Value", item)])])

end StepFlow.Context
