import StepFlow.Store.Basic

/-!
# Stores in memory

A store in memory keeps records as they are, in the order of their names.

* `MemoryStore`: the store, with `save`, `load`, `delete` and `names`.
-/

namespace StepFlow

/-- Records in the order of their names. -/
structure MemoryStore where
  records : Keyed WorkflowRecord

namespace MemoryStore

/-- The store that keeps nothing. -/
def empty : MemoryStore := ⟨[]⟩

/-- Keeps a record. -/
def save (record : WorkflowRecord) (replace : Bool) (store : MemoryStore) :
    Except StoreError MemoryStore :=
  if !replace && (Keyed.find? record.name store.records).isSome then
    .error (.alreadyExists record.name)
  else
    .ok ⟨Keyed.insert record.name record store.records⟩

/-- The record under a name. -/
def load (name : String) (store : MemoryStore) : Except StoreError WorkflowRecord :=
  match Keyed.find? name store.records with
  | some record => .ok record
  | none => .error (.notFound name)

/-- Forgets the record under a name. -/
def delete (name : String) (store : MemoryStore) : Except StoreError MemoryStore :=
  if (Keyed.find? name store.records).isSome then .ok ⟨Keyed.erase name store.records⟩
  else .error (.notFound name)

def names (store : MemoryStore) : List String := Keyed.keys store.records

instance : WorkflowStore MemoryStore := ⟨empty, save, load, delete, names⟩

end MemoryStore

end StepFlow
