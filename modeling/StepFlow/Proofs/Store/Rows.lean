import StepFlow.Store.Archive
import StepFlow.Proofs.Json.RoundTrip
import StepFlow.Proofs.Json.Soundness
import StepFlow.Proofs.Moment
import StepFlow.Proofs.Workflow.Encoding

/-!
# Rows are read as they were written

* `WorkflowRecord.Compiled`: records that were compiled from their texts;
* `WorkflowRecord.Legible`: records whose doubles are read as they are printed;
* `WorkflowRecord.Compiled.regular_encode`: what is written in a row;
* **`Row.record?_ofRecord`**: a row reads as the record it was made of, with the moment of its creation,
  unless the workflow is written too deep.
-/

namespace StepFlow

open Reader

/-- The record was compiled from its text, which is one that a machine can hold. -/
structure WorkflowRecord.Compiled (record : WorkflowRecord) : Prop where
  compile : WorkflowRecord.compile record.created record.name record.source = .ok record
  short : record.source.length < 18446744073709551616

/-- Every double that is written with the record is read as it is printed. -/
def WorkflowRecord.Legible (record : WorkflowRecord) : Prop :=
  ∀ x : Float, Json.Holds (.num (.float x)) record.workflow.encode → Number.Printable (.float x)

variable {record : WorkflowRecord}

/-- Values as they stand in documents that are read. -/
def Json.Read (j : Json) : Prop := j.Regular Number.Exact ∧ j.Holdable

theorem Json.inherited_read : Json.Inherited Json.Read where
  child := fun h hc => ⟨h.1.children hc, inherited_holdable.child h.2 hc⟩
  count := fun h => inherited_holdable.count h.2

theorem WorkflowRecord.Compiled.storable (h : record.Compiled) :
    record.workflow.Storable Json.Read := by
  obtain ⟨name, source, workflow, created⟩ := record
  obtain ⟨w, hw, hrecord⟩ := Except.bind_eq_ok_iff.mp h.compile
  cases hrecord
  unfold Workflow.compileText at hw
  split at hw
  · next document hd =>
    exact storable_compile Json.inherited_read (Json.regular_of_read? h.short hd) hw
  · cases hw

/-- **What is written of a compiled record** is in key order and holds numbers that are read as they are
printed, if the doubles are. -/
theorem WorkflowRecord.Compiled.regular_encode (h : record.Compiled) (hl : record.Legible) :
    record.workflow.encode.Regular Number.Printable := by
  refine (h.storable.regular_encode fun _ hj => hj.1).of_holds fun n hn hh => ?_
  cases n with
  | int i => exact Number.read?_render_int hn
  | float x => exact hl x hh

/-- **A row reads as the record it was made of**, if no moment is lost, unless the workflow is written
deeper than documents are read. -/
theorem Row.record?_ofRecord {codec : MomentCodec} (hcodec : codec.Lossless) (h : record.Compiled)
    (hl : record.Legible) : (ofRecord codec record).record? codec =
      if record.workflow.encode.depth ≤ maxDepth then some record else none := by
  have hregular := h.regular_encode hl
  show ((Json.read? record.workflow.encode.render).bind fun document =>
    (Workflow.decode document).toOption.bind fun workflow =>
      (codec.read? (codec.write record.created)).bind fun created => _) = _
  split
  · next hd =>
    rw [Json.read?_render hregular hd, Option.bind_some, h.storable.decode_encode, hcodec]
    rfl
  · next hd =>
    rw [Json.read?_render_deep hregular (Nat.lt_of_not_le hd)]
    rfl

end StepFlow
