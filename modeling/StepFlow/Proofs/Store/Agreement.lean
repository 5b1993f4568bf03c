import Mathlib.Data.List.Sort
import StepFlow.Store.Memory
import StepFlow.Proofs.Store.Rows

/-!
# Archives answer like stores in memory

A store in memory keeps records, an archive keeps their texts. Apart from that the two do the same, so
their answers can only differ where a record is read back.

* `Archive.row?_append`, `Archive.row?_replace`, `Archive.row?_filter`: the rows after a change;
* `Mirrors`: an archive with a row for each record of a store in memory;
* `Mirrors.reply`, `Mirrors.replies`: one request, and a series of them;
* **`replies_archive`**: the answers of an archive, in terms of those of a store in memory;
* `archive_loses_deep`: a record that an archive accepts but does not give back.
-/

namespace StepFlow

open WorkflowStore

/-! ## Rows -/

namespace Archive

variable {codec : MomentCodec} {rows : List Row} {row : Row} {n name : String}

theorem row?_append (hname : row.name = n) (h : (⟨rows⟩ : Archive codec).row? n = none) :
    (⟨rows ++ [row]⟩ : Archive codec).row? name =
      if n = name then some row else (⟨rows⟩ : Archive codec).row? name := by
  unfold row? at h ⊢
  dsimp only at h ⊢
  rw [List.find?_append]
  by_cases hn : n = name
  · subst hn
    simp [h, hname]
  · simp [hn, hname]

theorem row?_replace (hname : row.name = n) :
    (⟨rows.map fun r => if r.name = n then row else r⟩ : Archive codec).row? name =
      if n = name then ((⟨rows⟩ : Archive codec).row? n).map fun _ => row
      else (⟨rows⟩ : Archive codec).row? name := by
  unfold row?
  dsimp only
  induction rows with
  | nil => simp
  | cons r rows ih =>
    simp only [List.map_cons, List.find?_cons, ih]
    by_cases hr : r.name = n
    · by_cases hn : n = name <;> simp [hr, hname, hn]
    · by_cases hn : n = name
      · subst hn
        simp [hr]
      · simp [hr, hn]

theorem row?_filter :
    (⟨rows.filter fun row => row.name ≠ n⟩ : Archive codec).row? name =
      if n = name then none else (⟨rows⟩ : Archive codec).row? name := by
  unfold row?
  dsimp only
  induction rows with
  | nil => simp
  | cons r rows ih =>
    by_cases hr : r.name = n
    · rw [List.filter_cons_of_neg (by simp [hr]), ih, List.find?_cons, hr]
      by_cases hn : n = name <;> simp [hn]
    · rw [List.filter_cons_of_pos (by simp [hr]), List.find?_cons, List.find?_cons, ih]
      by_cases hn : n = name
      · subst hn
        simp [hr]
      · simp [hn]

theorem length_filter_eq_iff :
    (rows.filter fun row => row.name ≠ n).length = rows.length ↔
      (⟨rows⟩ : Archive codec).row? n = none := by
  rw [List.length_filter_eq_length_iff, row?, List.find?_eq_none]
  simp

theorem mem_names {archive : Archive codec} :
    name ∈ archive.rows.map Row.name ↔ (archive.row? name).isSome = true := by
  rw [row?, List.find?_isSome, List.mem_map]
  simp

theorem name_of_row? {archive : Archive codec} (h : archive.row? name = some row) : row.name = name := by
  simpa using List.find?_some h

end Archive

/-! ## Requests -/

namespace WorkflowStore

variable {S : Type} [WorkflowStore S]

theorem replies_cons (store : S) (request : StoreRequest) (rest : List StoreRequest) :
    replies store (request :: rest) = (reply store request).1 :: replies (reply store request).2 rest :=
  rfl

end WorkflowStore

/-! ## The same content -/

/-- The archive has a row for each record of the store, and no other rows. -/
structure Mirrors {codec : MomentCodec} (archive : Archive codec) (store : MemoryStore) : Prop where
  sorted : store.records.Sorted
  nodup : (archive.rows.map Row.name).Nodup
  row : ∀ name, archive.row? name = (Keyed.find? name store.records).map (Row.ofRecord codec)

/-- What an archive makes of a record that it gives back. -/
def reread (codec : MomentCodec) (record : WorkflowRecord) : Except StoreError WorkflowRecord :=
  match (Row.ofRecord codec record).record? codec with
  | some reread => .ok reread
  | none => .error (.unreadable record.name)

/-- The answer of an archive where a store in memory gives this one. -/
def fromTexts (codec : MomentCodec) : Except StoreError StoreReply → Except StoreError StoreReply
  | .ok (.record record) => StoreReply.record <$> reread codec record
  | answer => answer

namespace Mirrors

variable {codec : MomentCodec} {archive : Archive codec} {store : MemoryStore}

theorem empty : Mirrors (.empty : Archive codec) .empty where
  sorted := List.Pairwise.nil
  nodup := List.nodup_nil
  row := fun _ => rfl

theorem isSome_row? (h : Mirrors archive store) (name : String) :
    (archive.row? name).isSome = (Keyed.find? name store.records).isSome := by
  rw [h.row, Option.isSome_map]

/-- A record that is put under its name is found there, as a row or as it is. -/
theorem insert (h : Mirrors archive store) {record : WorkflowRecord} {rows : List Row}
    (hnodup : (rows.map Row.name).Nodup)
    (hrow : ∀ name, (⟨rows⟩ : Archive codec).row? name =
      if record.name = name then some (Row.ofRecord codec record) else archive.row? name) :
    Mirrors (⟨rows⟩ : Archive codec) ⟨Keyed.insert record.name record store.records⟩ where
  sorted := h.sorted.insert _ _
  nodup := hnodup
  row := fun name => by
    rw [hrow, Keyed.find?_insert, h.row]
    split <;> rfl

theorem save (h : Mirrors archive store) (record : WorkflowRecord) (replace : Bool) :
    (∃ archive' store', Archive.save record replace archive = .ok archive' ∧
        MemoryStore.save record replace store = .ok store' ∧ Mirrors archive' store') ∨
      ∃ e, Archive.save record replace archive = .error e ∧
        MemoryStore.save record replace store = .error e := by
  have hname : (Row.ofRecord codec record).name = record.name := rfl
  have hsome := h.isSome_row? record.name
  cases hrow : archive.row? record.name with
  | none =>
    rw [hrow] at hsome
    refine .inl ⟨⟨archive.rows ++ [Row.ofRecord codec record]⟩,
      ⟨Keyed.insert record.name record store.records⟩, by simp only [Archive.save, hrow],
      by simp [MemoryStore.save, ← hsome], h.insert ?_ fun name => Archive.row?_append hname hrow⟩
    have hnew : record.name ∉ archive.rows.map Row.name := fun hmem => by
      rw [Archive.mem_names, hrow] at hmem
      cases hmem
    rw [List.map_append, List.map_singleton, hname]
    exact (List.nodup_middle.mpr (by rwa [List.append_nil, List.nodup_cons, and_iff_left h.nodup]))
  | some old =>
    rw [hrow] at hsome
    cases replace with
    | false =>
      exact .inr ⟨.alreadyExists record.name, by simp only [Archive.save, hrow],
        by simp [MemoryStore.save, ← hsome]⟩
    | true =>
      refine .inl ⟨⟨archive.rows.map fun r => if r.name = record.name then Row.ofRecord codec record else r⟩,
        ⟨Keyed.insert record.name record store.records⟩, by simp only [Archive.save, hrow],
        by simp [MemoryStore.save], h.insert ?_ fun name => ?_⟩
      · -- the names stay as they are
        have hnames : (Row.name ∘ fun r => if r.name = record.name then Row.ofRecord codec record else r) =
            Row.name := by
          funext r
          dsimp only [Function.comp]
          split
          · next hr => exact hr.symm
          · rfl
        rw [List.map_map, hnames]
        exact h.nodup
      · rw [Archive.row?_replace hname, hrow]
        rfl

theorem delete (h : Mirrors archive store) (name : String) :
    (∃ archive' store', Archive.delete name archive = .ok archive' ∧
        MemoryStore.delete name store = .ok store' ∧ Mirrors archive' store') ∨
      ∃ e, Archive.delete name archive = .error e ∧ MemoryStore.delete name store = .error e := by
  have hsome := h.isSome_row? name
  cases hrow : archive.row? name with
  | none =>
    rw [hrow] at hsome
    exact .inr ⟨.notFound name, by rw [Archive.delete, if_pos (Archive.length_filter_eq_iff.mpr hrow)],
      by simp [MemoryStore.delete, ← hsome]⟩
  | some row =>
    have hlength : ¬(archive.rows.filter fun row => row.name ≠ name).length = archive.rows.length :=
      fun heq => by
        rw [Archive.length_filter_eq_iff.mp heq] at hrow
        cases hrow
    rw [hrow] at hsome
    refine .inl ⟨_, ⟨Keyed.erase name store.records⟩, by rw [Archive.delete, if_neg hlength],
      by simp [MemoryStore.delete, ← hsome], ⟨?_, ?_, fun other => ?_⟩⟩
    · exact h.sorted.sublist List.filter_sublist
    · exact h.nodup.sublist (List.filter_sublist.map _)
    · rw [Archive.row?_filter, Keyed.find?_erase, h.row]
      split <;> rfl

theorem load (h : Mirrors archive store) (name : String) :
    StoreReply.record <$> Archive.load name archive =
      fromTexts codec (StoreReply.record <$> MemoryStore.load name store) := by
  have hrow := h.row name
  unfold Archive.load MemoryStore.load
  cases hfind : Keyed.find? name store.records with
  | none =>
    rw [hfind] at hrow
    rw [hrow]
    rfl
  | some record =>
    rw [hfind] at hrow
    have hname : record.name = name := Archive.name_of_row? hrow
    rw [hrow]
    show StoreReply.record <$>
      (match (Row.ofRecord codec record).record? codec with | some _ => _ | none => _) =
        StoreReply.record <$> reread codec record
    rw [reread, hname]

theorem names (h : Mirrors archive store) : archive.names = store.names := by
  have hkeys : (Keyed.keys store.records).Nodup := Keyed.nodup_keys h.sorted
  have hperm : (archive.rows.map Row.name).Perm (Keyed.keys store.records) := by
    refine (List.perm_ext_iff_of_nodup h.nodup hkeys).mpr fun name => ?_
    rw [Archive.mem_names, h.isSome_row?, Keyed.mem_keys, Option.isSome_iff_exists]
  have hlt : (Keyed.keys store.records).Pairwise (· < ·) := List.pairwise_map.mpr h.sorted
  exact ((List.mergeSort_perm _ _).trans hperm).eq_of_pairwise' (List.pairwise_mergeSort' (· ≤ ·) _)
    (hlt.imp fun h => String.not_lt.mp (String.lt_asymm h))

/-- **One request is answered alike**, and the stores stay alike. -/
theorem reply (h : Mirrors archive store) (request : StoreRequest) :
    (reply archive request).1 = fromTexts codec (reply store request).1 ∧
      Mirrors (reply archive request).2 (reply store request).2 := by
  cases request with
  | save record replace =>
    obtain ⟨_, _, ha, hs, hm⟩ | ⟨e, ha, hs⟩ := h.save record replace
    · simp only [WorkflowStore.reply, WorkflowStore.save, ha, hs]
      exact ⟨rfl, hm⟩
    · simp only [WorkflowStore.reply, WorkflowStore.save, ha, hs]
      exact ⟨rfl, h⟩
  | load name => exact ⟨h.load name, h⟩
  | delete name =>
    obtain ⟨_, _, ha, hs, hm⟩ | ⟨e, ha, hs⟩ := h.delete name
    · simp only [WorkflowStore.reply, WorkflowStore.delete, ha, hs]
      exact ⟨rfl, hm⟩
    · simp only [WorkflowStore.reply, WorkflowStore.delete, ha, hs]
      exact ⟨rfl, h⟩
  | names => exact ⟨congrArg (Except.ok ∘ StoreReply.names) h.names, h⟩

/-- **A series of requests is answered alike.** -/
theorem replies (h : Mirrors archive store) (requests : List StoreRequest) :
    replies archive requests = (replies store requests).map (fromTexts codec) := by
  induction requests generalizing archive store with
  | nil => rfl
  | cons request rest ih =>
    obtain ⟨hanswer, hm⟩ := h.reply request
    rw [replies_cons, replies_cons, List.map_cons, hanswer, ih hm]

end Mirrors

/-! ## Records that are given back -/

namespace MemoryStore

variable {P : WorkflowRecord → Prop} {store : MemoryStore}

/-- A store in memory keeps records with a property if all that it is given have it. -/
theorem forall_reply (hs : ∀ e ∈ store.records, P e.2) {request : StoreRequest}
    (hr : ∀ record replace, request = .save record replace → P record) :
    (∀ record, (reply store request).1 = .ok (.record record) → P record) ∧
      ∀ e ∈ (reply store request).2.records, P e.2 := by
  cases request with
  | save record replace =>
    simp only [WorkflowStore.reply, WorkflowStore.save, MemoryStore.save]
    split
    · exact ⟨fun _ h => (by cases h), hs⟩
    · refine ⟨fun _ h => (by cases h), fun e he => ?_⟩
      rcases Keyed.mem_insert he with rfl | he
      · exact hr record replace rfl
      · exact hs e he
  | load name =>
    refine ⟨fun record h => ?_, hs⟩
    change StoreReply.record <$> MemoryStore.load name store = _ at h
    obtain ⟨r, hload, hrecord⟩ := Except.map_eq_ok_iff.mp h
    cases hrecord
    unfold MemoryStore.load at hload
    split at hload
    · next hfind =>
      cases hload
      exact hs _ (Keyed.mem_of_find? hfind)
    · cases hload
  | delete name =>
    simp only [WorkflowStore.reply, WorkflowStore.delete, MemoryStore.delete]
    split
    · exact ⟨fun _ h => (by cases h), fun e he => hs e (List.mem_of_mem_filter he)⟩
    · exact ⟨fun _ h => (by cases h), hs⟩
  | names => exact ⟨fun _ h => (by cases h), hs⟩

theorem forall_replies (hs : ∀ e ∈ store.records, P e.2) {requests : List StoreRequest}
    (hr : ∀ record replace, .save record replace ∈ requests → P record) {record : WorkflowRecord}
    (h : .ok (.record record) ∈ replies store requests) : P record := by
  induction requests generalizing store with
  | nil => cases h
  | cons request rest ih =>
    obtain ⟨hrecord, hs⟩ := forall_reply hs fun record replace heq =>
      hr record replace (heq ▸ List.mem_cons_self)
    rw [replies_cons] at h
    rcases List.mem_cons.mp h with h | h
    · exact hrecord record h.symm
    · exact ih hs (fun record replace hmem => hr record replace (List.mem_cons_of_mem _ hmem)) h

end MemoryStore

/-! ## Answers -/

/-- What an archive gives back of a record: the record, unless it is written deeper than documents are
read. -/
def WorkflowRecord.givenBack (record : WorkflowRecord) : Except StoreError WorkflowRecord :=
  if record.workflow.encode.depth ≤ Reader.maxDepth then .ok record
  else .error (.unreadable record.name)

section Reread

variable {codec : MomentCodec} {record : WorkflowRecord}

theorem reread_of_legible (hcodec : codec.Lossless) (h : record.Compiled) (hl : record.Legible) :
    reread codec record = record.givenBack := by
  unfold reread WorkflowRecord.givenBack
  rw [Row.record?_ofRecord hcodec h hl]
  by_cases hd : record.workflow.encode.depth ≤ Reader.maxDepth
  · simp only [if_pos hd]
  · simp only [if_neg hd]

theorem reread_cases (hcodec : codec.Lossless) (record : WorkflowRecord) :
    reread codec record = .error (.unreadable record.name) ∨
      ∃ w, reread codec record = .ok { record with workflow := w } := by
  unfold reread
  split
  · next r hr =>
    obtain ⟨document, -, hr⟩ := Option.bind_eq_some_iff.mp hr
    obtain ⟨w, -, hr⟩ := Option.bind_eq_some_iff.mp hr
    obtain ⟨created, hcreated, hr⟩ := Option.bind_eq_some_iff.mp hr
    cases (hcodec record.created).symm.trans hcreated
    cases hr
    exact .inr ⟨w, rfl⟩
  · exact .inl rfl

theorem Archive.load_save {archive archive' : Archive codec} {replace : Bool}
    (h : Archive.save record replace archive = .ok archive') :
    Archive.load record.name archive' = reread codec record := by
  have hname : (Row.ofRecord codec record).name = record.name := rfl
  have hrow : archive'.row? record.name = some (Row.ofRecord codec record) := by
    unfold Archive.save at h
    dsimp only at h
    split at h
    · next hr =>
      cases h
      rw [Archive.row?_append hname hr, if_pos rfl]
    · next hr =>
      cases h
      rw [Archive.row?_replace hname, if_pos rfl, hr]
      rfl
    · cases h
  cases hr : (Row.ofRecord codec record).record? codec with
  | none => simp only [Archive.load, reread, hrow, hr]
  | some r => simp only [Archive.load, reread, hrow, hr]

end Reread

/-- An archive answers like a store in memory, unless that answers with a record. The record is then
given back or refused, and if its doubles are read as they are printed, its depth decides. -/
def AnswersLike : (kept archived : Except StoreError StoreReply) → Prop
  | .ok (.record record), archived =>
    (archived = .error (.unreadable record.name) ∨
      ∃ w, archived = .ok (.record { record with workflow := w })) ∧
    (record.Legible → archived = StoreReply.record <$> record.givenBack)
  | kept, archived => archived = kept

theorem answersLike_fromTexts {codec : MomentCodec} (hcodec : codec.Lossless)
    {answer : Except StoreError StoreReply}
    (h : ∀ record, answer = .ok (.record record) → record.Compiled) :
    AnswersLike answer (fromTexts codec answer) := by
  match answer with
  | .ok (.record record) =>
    refine ⟨?_, fun hl =>
      congrArg (StoreReply.record <$> ·) (reread_of_legible hcodec (h record rfl) hl)⟩
    show StoreReply.record <$> reread codec record = _ ∨
      ∃ w, StoreReply.record <$> reread codec record = _
    rcases reread_cases hcodec record with hr | ⟨w, hr⟩
    · rw [hr]
      exact .inl rfl
    · rw [hr]
      exact .inr ⟨w, rfl⟩
  | .ok .done => rfl
  | .ok (.names _) => rfl
  | .error _ => rfl

/-- **An archive answers like a store in memory**, whatever the requests are, and gives back what it has
accepted, with the moment of its creation, except for records that it writes deeper than it reads. -/
theorem replies_archive (codec : MomentCodec) (hcodec : codec.Lossless) (requests : List StoreRequest)
    (h : ∀ record replace, .save record replace ∈ requests → record.Compiled) :
    List.Forall₂ AnswersLike (replies MemoryStore.empty requests)
      (replies (Archive.empty : Archive codec) requests) ∧
      ∀ record replace (archive archive' : Archive codec), record.Compiled → record.Legible →
        save record replace archive = .ok archive' → load record.name archive' = record.givenBack := by
  constructor
  · rw [Mirrors.empty.replies, List.forall₂_map_right_iff, List.forall₂_same]
    intro answer hanswer
    refine answersLike_fromTexts hcodec fun record hrecord => ?_
    exact MemoryStore.forall_replies (P := WorkflowRecord.Compiled)
      (fun e he => absurd he List.not_mem_nil) h (hrecord ▸ hanswer)
  · intro record replace archive archive' hc hl hsave
    exact (Archive.load_save hsave).trans (reread_of_legible hcodec hc hl)

/-! ## Records that nest deep -/

/-- A rule that denies a test `n` times. -/
def denials : Nat → Json
  | 0 => .obj [("IsPresent", .bool true), ("Variable", .str "$.a")]
  | n + 1 => .obj [("Not", denials n)]

/-- A choice that depends on a rule with denials. -/
def denialDocument (n : Nat) : Json :=
  .obj [("StartAt", .str "C"), ("States", .obj [
    ("C", .obj [("Choices", .arr [.obj [("Next", .str "D"), ("Not", denials n)]]),
      ("Type", .str "Choice")]),
    ("D", .obj [("Type", .str "Succeed")])])]

theorem depth_denialDocument (n : Nat) : (denialDocument n).depth = n + 6 := by
  have hdenials : (denials n).depth = n + 1 := by
    induction n with
    | zero => rfl
    | succ n ih => simp [denials, Json.depth, Json.depthMembers, ih]
  simp [denialDocument, Json.depth, Json.depthItems, Json.depthMembers, hdenials]

theorem regular_denialDocument (n : Nat) : (denialDocument n).Regular Number.Printable := by
  have hdenials : (denials n).Regular Number.Printable := by
    induction n with
    | zero => exact regular_obj (Keyed.sorted_pair (by decide)) ⟨.bool _, .str _⟩
    | succ n ih => exact regular_tagged ih
  have hrule : (Json.obj [("Next", .str "D"), ("Not", denials n)]).Regular Number.Printable :=
    regular_obj (Keyed.sorted_pair (by decide)) ⟨.str _, hdenials⟩
  have hchoice : (Json.obj [("Choices", .arr [.obj [("Next", .str "D"), ("Not", denials n)]]),
      ("Type", .str "Choice")]).Regular Number.Printable :=
    regular_obj (Keyed.sorted_pair (by decide)) ⟨.arr fun j hj => List.mem_singleton.mp hj ▸ hrule, .str _⟩
  exact regular_obj (Keyed.sorted_pair (by decide))
    ⟨.str _, regular_obj (Keyed.sorted_pair (by decide)) ⟨hchoice, regular_tagged (.str _)⟩⟩

open Json Reader in
theorem length_denialDocument (n : Nat) : (denialDocument n).render.length = 8 * n + 138 := by
  have hdenials : (denials n).text.length = 8 * n + 35 := by
    induction n with
    | zero =>
      simp [denials, text_obj, listed, comma, memberText, text_str, escape]
      decide
    | succ n ih =>
      simp [denials, text_obj, listed, comma, memberText, escape, ih]
      omega
  show (denialDocument n).text.length = _
  simp [denialDocument, text_obj, text_arr, listed, comma, memberText, text_str, escape, hdenials]

theorem compiled_denialDocument {n : Nat} (hn : n ≤ 121) {w : Workflow} (name : String)
    (created : Moment) (h : Workflow.compile (denialDocument n) = .ok w) :
    WorkflowRecord.Compiled ⟨name, (denialDocument n).render, w, created⟩ := by
  have hread : Json.read? (denialDocument n).render = some (denialDocument n) :=
    Json.read?_render (regular_denialDocument n) (by
      rw [depth_denialDocument, Reader.maxDepth]
      omega)
  refine ⟨?_, ?_⟩
  · simp only [WorkflowRecord.compile, Workflow.compileText, hread, h]
    rfl
  · rw [length_denialDocument]
    omega

/-- A quarter of a second after noon. -/
def noon : Moment := ⟨⟨2024, 3, 1, 12, 0, 0, by decide⟩, 250000000, by decide, by decide⟩

theorem exists_deep : ∃ deep : WorkflowRecord, deep.Compiled ∧ deep.Legible ∧
    deep.source = (denialDocument 120).render ∧ deep.created = noon ∧
    Reader.maxDepth < deep.workflow.encode.depth := by
  have h : ((Workflow.compile (denialDocument 120)).toOption.any fun w =>
      !w.encode.hasDouble && decide (Reader.maxDepth < w.encode.depth)) = true := by decide +kernel
  cases hw : Workflow.compile (denialDocument 120) with
  | error e =>
    rw [hw] at h
    cases h
  | ok w =>
    rw [hw] at h
    change (!w.encode.hasDouble && decide (Reader.maxDepth < w.encode.depth)) = true at h
    rw [Bool.and_eq_true, Bool.not_eq_true', decide_eq_true_eq] at h
    refine ⟨⟨"deep", _, w, noon⟩, compiled_denialDocument (by decide) "deep" noon hw, fun x hx => ?_, rfl,
      rfl, h.2⟩
    have hdouble := Json.hasDouble_of_holds hx
    rw [h.1] at hdouble
    cases hdouble

/-- Archives that write moments with their offset keep a record with one of a fraction of a second. -/
theorem replies_archive_denials : ∃ deep : WorkflowRecord, deep.Compiled ∧ deep.created = noon ∧
    MomentCodec.offset.write noon = "2024-03-01T12:00:00.250+00:00" ∧ MomentCodec.offset.Lossless ∧
    List.Forall₂ AnswersLike
      (replies MemoryStore.empty
        [.save deep false, .save deep false, .save deep true, .names, .load deep.name, .delete "other"])
      (replies (Archive.empty : Archive .offset)
        [.save deep false, .save deep false, .save deep true, .names, .load deep.name,
          .delete "other"]) ∧
    deep.Legible ∧
    save deep false (Archive.empty : Archive .offset) = .ok ⟨[Row.ofRecord .offset deep]⟩ ∧
    load deep.name (⟨[Row.ofRecord .offset deep]⟩ : Archive .offset) = deep.givenBack := by
  obtain ⟨deep, hc, hl, -, hnoon, -⟩ := exists_deep
  have hsave : save deep false (Archive.empty : Archive .offset) =
      .ok ⟨[Row.ofRecord .offset deep]⟩ := rfl
  refine ⟨deep, hc, hnoon, by decide +kernel, MomentCodec.lossless_offset,
    (replies_archive .offset MomentCodec.lossless_offset _ fun record replace h => ?_).1, hl, hsave,
    (replies_archive .offset MomentCodec.lossless_offset [] fun _ _ h => (by cases h)).2
      deep false _ _ hc hl hsave⟩
  simp only [List.mem_cons, StoreRequest.save.injEq, reduceCtorEq, List.not_mem_nil, or_false] at h
  rcases h with ⟨rfl, -⟩ | ⟨rfl, -⟩ | ⟨rfl, -⟩ <;> exact hc

/-- **A compiled record that an archive accepts but does not give back**, where a store in memory does:
its workflow is written deeper than its document nests. -/
theorem archive_loses_deep : ∃ record : WorkflowRecord, record.Compiled ∧
    record.source = (denialDocument 120).render ∧
    replies MemoryStore.empty [.save record false, .load record.name] =
      [.ok .done, .ok (.record record)] ∧
    replies (Archive.empty : Archive .offset) [.save record false, .load record.name] =
      [.ok .done, .error (.unreadable record.name)] := by
  obtain ⟨deep, hc, hl, hsource, -, hdepth⟩ := exists_deep
  have hload : Archive.load deep.name (⟨[Row.ofRecord .offset deep]⟩ : Archive .offset) =
      .error (.unreadable deep.name) := by
    have hsave : Archive.save deep false (Archive.empty : Archive .offset) =
        .ok ⟨[Row.ofRecord .offset deep]⟩ := rfl
    rw [Archive.load_save hsave, reread_of_legible MomentCodec.lossless_offset hc hl]
    exact if_neg (Nat.not_le_of_lt hdepth)
  have hkept : MemoryStore.load deep.name ⟨[(deep.name, deep)]⟩ = .ok deep := by
    simp [MemoryStore.load, Keyed.find?]
  refine ⟨deep, hc, hsource, ?_, ?_⟩
  · show [.ok .done, StoreReply.record <$> MemoryStore.load deep.name ⟨[(deep.name, deep)]⟩] = _
    rw [hkept]
    rfl
  · show [.ok .done, StoreReply.record <$>
      Archive.load deep.name (⟨[Row.ofRecord .offset deep]⟩ : Archive .offset)] = _
    rw [hload]
    rfl

end StepFlow
