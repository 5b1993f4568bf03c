import StepFlow.Execution.Payload
import StepFlow.Proofs.Except
import StepFlow.Proofs.Keyed
import StepFlow.Proofs.Path.Basic

/-!
# What templates give

A template is filled in place: its keys stay, except that a mark is taken off, and where two keys become
one the marked one wins, since it comes later in key order. What is filled in is data and stays as it is.

* `Payload.Stands`, `Payload.Fails`: what the content of a dynamic member stands for, or how it fails;
* `Payload.Fills`: a template and what it gives, at every depth;
* `Payload.Dynamic`: the dynamic members of a template, at any depth;
* `Payload.resolve_obj`, `Payload.resolve_arr`: the members and items of a template, one by one;
* **`Payload.resolve_fills`**: what a template gives, and when it fails.
-/

namespace StepFlow.Payload

/-! ## Dynamic members -/

section content

variable (context : Context) (input : Json) (supply : Supply)

/-- What the content of a dynamic member stands for: the one value at a path, the result of a call, or the
text as it is. -/
inductive Stands : (content value : Json) → Prop where
  | path {text : String} {p : Path} {value : Json} : text.startsWith "$" = true →
      Path.parse text = .ok p → p.query.read (p.target context.value input) = .ok [value] →
      Stands (.str text) value
  | call {text : String} {value : Json} : text.startsWith "$" = false → isCall text = true →
      Functions.evaluateText builtins context.value input supply text = .ok value →
      Stands (.str text) value
  | text {text : String} : text.startsWith "$" = false → isCall text = false →
      Stands (.str text) (.str text)

/-- How the content of a dynamic member fails, with the name of the error. There is none where a slice runs
out of range. -/
inductive Fails (failure : ErrorName) : (content : Json) → Option ErrorName → Prop where
  | notText {content : Json} : content.str? = none → Fails failure content (some failure)
  | unreadable {text : String} {e : PathError} : text.startsWith "$" = true →
      Path.parse text = .error e → Fails failure (.str text) (some failure)
  | notOne {text : String} {p : Path} {values : List Json} : text.startsWith "$" = true →
      Path.parse text = .ok p → p.query.read (p.target context.value input) = .ok values →
      values.length ≠ 1 → Fails failure (.str text) (some failure)
  | overrun {text : String} {p : Path} : text.startsWith "$" = true → Path.parse text = .ok p →
      p.query.overruns (p.target context.value input) = true → Fails failure (.str text) none
  | call {text : String} {e : IntrinsicError} : text.startsWith "$" = false → isCall text = true →
      Functions.evaluateText builtins context.value input supply text = .error e →
      (∀ path, e ≠ .unresolved (.overrun path)) → Fails failure (.str text) (some .intrinsicFailure)
  | callOverrun {text path : String} : text.startsWith "$" = false → isCall text = true →
      Functions.evaluateText builtins context.value input supply text =
        .error (.unresolved (.overrun path)) → Fails failure (.str text) none

end content

/-- The name of the error, unless a slice has run out of range. -/
def name? : Trouble → Option ErrorName
  | .failure f => some f.name
  | .overrun => none

variable {failure : ErrorName} {context : Context} {input : Json} {supply : Supply} {key : String}
  {content value : Json} {t : Trouble} {name : Option ErrorName}

theorem name?_trouble (e : IntrinsicError) (f : Failure) :
    (∃ path, e = .unresolved (.overrun path)) ∧ name? (e.trouble f) = none ∨
      (∀ path, e ≠ .unresolved (.overrun path)) ∧ name? (e.trouble f) = some f.name := by
  cases e with
  | unresolved e =>
    cases e with
    | overrun path => exact .inl ⟨⟨path, rfl⟩, rfl⟩
    | _ => exact .inr ⟨nofun, rfl⟩
  | _ => exact .inr ⟨nofun, rfl⟩

theorem resolveText_cases (failure : ErrorName) (context : Context) (input : Json) (supply : Supply)
    (key text : String) :
    (∃ value, resolveText failure context input supply key text = .ok value ∧
      Stands context input supply (.str text) value) ∨
    ∃ t, resolveText failure context input supply key text = .error t ∧
      Fails context input supply failure (.str text) (name? t) := by
  unfold resolveText
  split
  · next hdollar =>
    split
    · next hp => exact .inr ⟨_, rfl, .unreadable hdollar hp⟩
    · next p hp =>
      rcases p.read_cases context.value input with ⟨value, hread, h⟩ | ⟨values, hread, hne, h⟩ |
        ⟨hover, h⟩
      · rw [h]
        exact .inl ⟨value, rfl, .path hdollar hp hread⟩
      · rw [h]
        exact .inr ⟨_, rfl, .notOne hdollar hp hread hne⟩
      · rw [h]
        exact .inr ⟨_, rfl, .overrun hdollar hp hover⟩
  · next hdollar =>
    have hdollar : text.startsWith "$" = false := by simpa using hdollar
    split
    · next hcall =>
      split
      · next hv => exact .inl ⟨_, rfl, .call hdollar hcall hv⟩
      · next e he =>
        refine .inr ⟨_, rfl, ?_⟩
        rcases name?_trouble e ⟨.intrinsicFailure, e.message⟩ with ⟨⟨path, rfl⟩, hname⟩ | ⟨hne, hname⟩
        · exact hname ▸ .callOverrun hdollar hcall he
        · exact hname ▸ .call hdollar hcall he hne
    · next hcall => exact .inl ⟨_, rfl, .text hdollar (by simpa using hcall)⟩

theorem resolveDynamic_cases (failure : ErrorName) (context : Context) (input : Json) (supply : Supply)
    (key : String) (content : Json) :
    (∃ value, resolveDynamic failure context input supply key content = .ok value ∧
      Stands context input supply content value) ∨
    ∃ t, resolveDynamic failure context input supply key content = .error t ∧
      Fails context input supply failure content (name? t) := by
  cases content with
  | str text => exact resolveText_cases failure context input supply key text
  | _ => exact .inr ⟨_, rfl, .notText rfl⟩

/-- Content that fails gives an error of this name. -/
theorem Fails.exists_error (h : Fails context input supply failure content name) (key : String) :
    ∃ t, resolveDynamic failure context input supply key content = .error t ∧ name? t = name := by
  cases h with
  | notText h =>
    cases content with
    | str text => cases h
    | _ => exact ⟨_, rfl, rfl⟩
  | unreadable hdollar hp =>
    rw [resolveDynamic, resolveText, if_pos hdollar, hp]
    exact ⟨_, rfl, rfl⟩
  | notOne hdollar hp hread hne =>
    rw [resolveDynamic, resolveText, if_pos hdollar, hp]
    dsimp only
    obtain ⟨value, hone, -⟩ | ⟨values', -, -, h⟩ | ⟨hover, -⟩ := Path.read_cases _ context.value input
    · rw [hone] at hread
      cases hread
      exact absurd rfl hne
    · rw [h]
      exact ⟨_, rfl, rfl⟩
    · rw [Query.read, if_pos hover] at hread
      cases hread
  | overrun hdollar hp hover =>
    rw [resolveDynamic, resolveText, if_pos hdollar, hp]
    dsimp only
    rw [Path.read, Query.read, if_pos hover]
    exact ⟨_, rfl, rfl⟩
  | @call text e hdollar hcall he hne =>
    rw [resolveDynamic, resolveText, if_neg (by simp [hdollar]), if_pos hcall, he]
    obtain ⟨⟨path, hover⟩, -⟩ | ⟨-, hname⟩ := name?_trouble e ⟨.intrinsicFailure, e.message⟩
    · exact absurd hover (hne path)
    · exact ⟨_, rfl, hname⟩
  | callOverrun hdollar hcall he =>
    rw [resolveDynamic, resolveText, if_neg (by simp [hdollar]), if_pos hcall, he]
    exact ⟨_, rfl, rfl⟩

/-! ## Keys -/

theorem dynamicName?_eq_some {key name : String} : dynamicName? key = some name ↔ key = name ++ ".$" := by
  have hmark : (name ++ ".$").toList = name.toList ++ mark := String.toList_append
  unfold dynamicName?
  dsimp only
  constructor
  · intro h
    split at h
    · next hsuffix =>
      cases h
      obtain ⟨front, hfront⟩ := List.isSuffixOf_iff_suffix.mp hsuffix
      rw [← String.toList_inj, String.toList_append, String.toList_ofList, ← hfront, List.length_append,
        Nat.add_sub_cancel, List.take_left]
      rfl
    · cases h
  · rintro rfl
    rw [hmark, if_pos (List.isSuffixOf_iff_suffix.mpr ⟨name.toList, rfl⟩), List.length_append,
      Nat.add_sub_cancel, List.take_left, String.ofList_toList]

theorem lt_append_mark (name : String) : name < name ++ ".$" := by
  have h : name.toList ++ [] < name.toList ++ mark := List.append_left_lt (List.nil_lt_cons _ _)
  rw [List.append_nil] at h
  rw [String.lt_iff, String.toList_append]
  exact h

def plainName (key : String) : String := (dynamicName? key).getD key

theorem plainName_append_mark (name : String) : plainName (name ++ ".$") = name := by
  rw [plainName, dynamicName?_eq_some.mpr rfl, Option.getD_some]

theorem plainName_of_eq_none (h : dynamicName? key = none) : plainName key = key := by
  rw [plainName, h, Option.getD_none]

theorem eq_or_eq_of_plainName {key name : String} (h : plainName key = name) :
    key = name ∨ key = name ++ ".$" := by
  cases hd : dynamicName? key with
  | none => exact .inl ((plainName_of_eq_none hd).symm.trans h)
  | some n =>
    rw [plainName, hd, Option.getD_some] at h
    exact .inr (h ▸ dynamicName?_eq_some.mp hd)

/-! ## Members and items -/

/-- The entry that a member gives. -/
def resolveMember (failure : ErrorName) (context : Context) (input : Json) (supply : Supply)
    (e : String × Json) : Except Trouble (String × Json) :=
  match dynamicName? e.1 with
  | some name => (name, ·) <$> resolveDynamic failure context input supply e.1 e.2
  | none => (e.1, ·) <$> resolve failure context input supply e.2

variable {members : Keyed Json} {items : List Json} {entry : String × Json}

/-- A dynamic member gives what it stands for, and every other member what it resolves to. -/
theorem resolveMember_eq_ok (h : resolveMember failure context input supply (key, content) = .ok entry) :
    entry.1 = plainName key ∧
      (∀ name, key = name ++ ".$" → Stands context input supply content entry.2) ∧
      (dynamicName? key = none → resolve failure context input supply content = .ok entry.2) := by
  unfold resolveMember plainName at *
  cases hd : dynamicName? key with
  | some name =>
    rw [hd] at h
    obtain ⟨value, hvalue, rfl⟩ := Except.map_eq_ok_iff.mp h
    obtain ⟨v, hv, hstands⟩ | ⟨t, ht, -⟩ :=
      resolveDynamic_cases failure context input supply key content
    · rw [hv] at hvalue
      cases hvalue
      exact ⟨rfl, fun _ _ => hstands, nofun⟩
    · rw [ht] at hvalue
      cases hvalue
  | none =>
    rw [hd] at h
    obtain ⟨value, hvalue, rfl⟩ := Except.map_eq_ok_iff.mp h
    refine ⟨rfl, fun name hkey => ?_, fun _ => hvalue⟩
    rw [dynamicName?_eq_some.mpr hkey] at hd
    cases hd

theorem resolveMembers_cons (i : Nat) (filled : Keyed Json) (e : String × Json) :
    resolveMembers failure context input supply i filled (e :: members) = (do
      let entry ← resolveMember failure context input (supply.branch i) e
      resolveMembers failure context input supply (i + 1) (Keyed.insert entry.1 entry.2 filled) members) := by
  obtain ⟨key, content⟩ := e
  rw [resolveMembers, resolveMember]
  dsimp only
  cases dynamicName? key with
  | some name => cases resolveDynamic failure context input (supply.branch i) key content <;> rfl
  | none => cases resolve failure context input (supply.branch i) content <;> rfl

theorem resolveMembers_eq (i : Nat) (filled : Keyed Json) :
    resolveMembers failure context input supply i filled members =
      ((members.zipIdx i).mapM fun e =>
        resolveMember failure context input (supply.branch e.2) e.1).map
        fun entries => entries.foldl (fun t e => Keyed.insert e.1 e.2 t) filled := by
  induction members generalizing i filled with
  | nil => rfl
  | cons e members ih =>
    rw [resolveMembers_cons, List.zipIdx_cons, List.mapM_cons]
    cases resolveMember failure context input (supply.branch i) e with
    | error t => rfl
    | ok entry =>
      rw [Except.ok_bind, Except.ok_bind, ih]
      cases (members.zipIdx (i + 1)).mapM fun e =>
        resolveMember failure context input (supply.branch e.2) e.1 <;> rfl

theorem resolve_obj : resolve failure context input supply (.obj members) =
    (members.zipIdx.mapM fun e => resolveMember failure context input (supply.branch e.2) e.1).map
      fun entries => .obj (Keyed.ofList entries) := by
  rw [resolve, resolveMembers_eq]
  cases members.zipIdx.mapM fun e => resolveMember failure context input (supply.branch e.2) e.1 <;> rfl

theorem resolveItems_eq (i : Nat) : resolveItems failure context input supply i items =
    (items.zipIdx i).mapM fun e => resolve failure context input (supply.branch e.2) e.1 := by
  induction items generalizing i with
  | nil => rfl
  | cons item items ih => rw [resolveItems, List.zipIdx_cons, List.mapM_cons, ih]

theorem resolve_arr : resolve failure context input supply (.arr items) =
    (items.zipIdx.mapM fun e => resolve failure context input (supply.branch e.2) e.1).map .arr := by
  rw [resolve, resolveItems_eq]

/-! ## What a template gives -/

section fills

variable (context : Context) (input : Json)

/-- What a template gives. The keys of an object are those of the template without their marks; the value at
a key is what the marked member stands for, if there is one, and what the plain member gives otherwise. -/
inductive Fills : (supply : Supply) → (template out : Json) → Prop where
  | scalar {supply : Supply} {template : Json} : template.items? = none → template.members? = none →
      Fills supply template template
  | arr {supply : Supply} {items outs : List Json} : items.length = outs.length →
      (∀ i item out, items[i]? = some item → outs[i]? = some out → Fills (supply.branch i) item out) →
      Fills supply (.arr items) (.arr outs)
  | obj {supply : Supply} {members table : Keyed Json} : table.Sorted →
      (∀ name, name ∈ table.keys ↔ ∃ key ∈ members.keys, plainName key = name) →
      (∀ i name content value, members[i]? = some (name ++ ".$", content) →
        Keyed.find? name table = some value → Stands context input (supply.branch i) content value) →
      (∀ i name content value, members[i]? = some (name, content) → dynamicName? name = none →
        name ++ ".$" ∉ members.keys → Keyed.find? name table = some value →
          Fills (supply.branch i) content value) →
      Fills supply (.obj members) (.obj table)

end fills

/-- The dynamic members of a template, at any depth. -/
inductive Dynamic : (supply : Supply) → (template : Json) → (supply' : Supply) → (key : String) →
    (content : Json) → Prop where
  | here {supply : Supply} {members : Keyed Json} {i : Nat} {key name : String} {content : Json} :
      members[i]? = some (key, content) → dynamicName? key = some name →
      Dynamic supply (.obj members) (supply.branch i) key content
  | member {supply supply' : Supply} {members : Keyed Json} {i : Nat} {name key : String}
      {part content : Json} : members[i]? = some (name, part) → dynamicName? name = none →
      Dynamic (supply.branch i) part supply' key content → Dynamic supply (.obj members) supply' key content
  | item {supply supply' : Supply} {items : List Json} {i : Nat} {key : String} {part content : Json} :
      items[i]? = some part → Dynamic (supply.branch i) part supply' key content →
      Dynamic supply (.arr items) supply' key content

/-! ## Objects -/

section objects

variable {entries : List (String × Json)} {i : Nat} {n : String}

/-- The entries that the members of a template give, one for each. -/
def Gives (failure : ErrorName) (context : Context) (input : Json) (supply : Supply)
    (members : Keyed Json) (entries : List (String × Json)) : Prop :=
  members.zipIdx.mapM (fun e => resolveMember failure context input (supply.branch e.2) e.1) = .ok entries

theorem Gives.exists_entry (h : Gives failure context input supply members entries)
    (hi : members[i]? = some (key, content)) : ∃ entry, entries[i]? = some entry ∧
      resolveMember failure context input (supply.branch i) (key, content) = .ok entry := by
  refine (Except.getElem?_of_mapM h).2 i ((key, content), i) ?_
  rw [List.getElem?_zipIdx, hi, Nat.zero_add]
  rfl

theorem Gives.map_fst (h : Gives failure context input supply members entries) :
    entries.map Prod.fst = members.map fun e => plainName e.1 := by
  refine List.ext_getElem? fun i => ?_
  have hlength := (Except.getElem?_of_mapM h).1
  rw [List.length_zipIdx] at hlength
  rw [List.getElem?_map, List.getElem?_map]
  cases hi : members[i]? with
  | none =>
    rw [List.getElem?_eq_none_iff] at hi
    rw [List.getElem?_eq_none (hlength ▸ hi)]
    rfl
  | some e =>
    obtain ⟨entry, hentry, hgiven⟩ := h.exists_entry hi
    rw [hentry]
    exact congrArg some (resolveMember_eq_ok hgiven).1

/-- An entry counts if no member behind its own leads to its key. -/
theorem Gives.find? (h : Gives failure context input supply members entries)
    (hi : members[i]? = some (key, content))
    (hlast : ∀ e ∈ members.drop (i + 1), plainName e.1 ≠ plainName key) :
    ∃ entry, resolveMember failure context input (supply.branch i) (key, content) = .ok entry ∧
      Keyed.find? (plainName key) (Keyed.ofList entries) = some entry.2 := by
  obtain ⟨⟨name, value⟩, hentry, hgiven⟩ := h.exists_entry hi
  refine ⟨_, hgiven, ?_⟩
  obtain ⟨hlt, hget⟩ := List.getElem?_eq_some_iff.mp hentry
  have hsplit : entries = entries.take i ++ (name, value) :: entries.drop (i + 1) := by
    rw [← hget, List.getElem_cons_drop, List.take_append_drop]
  have hname : name = plainName key := (resolveMember_eq_ok hgiven).1
  have hafter : name ∉ (entries.drop (i + 1)).map Prod.fst := by
    rw [List.map_drop, h.map_fst, ← List.map_drop]
    intro hm
    obtain ⟨e, he, heq⟩ := List.mem_map.mp hm
    exact hlast e he (heq.trans hname)
  rw [hsplit, ← hname]
  exact Keyed.find?_ofList_append _ hafter _

end objects

/-- **What an object of a template gives**, if what its members give is known. -/
theorem Gives.fills {entries : List (String × Json)}
    (h : Gives failure context input supply members entries) (hs : members.Sorted)
    (hmembers : ∀ e ∈ members, ∀ s out, resolve failure context input s e.2 = .ok out →
      Fills context input s e.2 out) :
    Fills context input supply (.obj members) (.obj (Keyed.ofList entries)) := by
  refine .obj (Keyed.sorted_ofList entries) (fun name => ?_) ?_ ?_
  · rw [Keyed.mem_keys_ofList, h.map_fst, List.mem_map]
    exact ⟨fun ⟨e, he, hname⟩ => ⟨e.1, List.mem_map_of_mem he, hname⟩, fun ⟨key, hkey, hname⟩ => by
      obtain ⟨e, he, rfl⟩ := List.mem_map.mp hkey
      exact ⟨e, he, hname⟩⟩
  · -- behind a marked member no key is the name or the name with a mark
    intro i name content value hi hvalue
    obtain ⟨entry, hgiven, hfind⟩ := h.find? hi fun e he heq => by
      have hlt : name ++ ".$" < e.1 := hs.lt_of_mem_drop hi he
      rcases eq_or_eq_of_plainName (heq.trans (plainName_append_mark name)) with hkey | hkey
      · exact String.lt_asymm (hkey ▸ hlt) (lt_append_mark name)
      · exact String.lt_irrefl _ (hkey ▸ hlt)
    rw [plainName_append_mark, hvalue] at hfind
    cases hfind
    exact (resolveMember_eq_ok hgiven).2.1 name rfl
  · intro i name content value hi hplain hmarked hvalue
    obtain ⟨entry, hgiven, hfind⟩ := h.find? hi fun e he heq => by
      have hlt : name < e.1 := hs.lt_of_mem_drop hi he
      rcases eq_or_eq_of_plainName (heq.trans (plainName_of_eq_none hplain)) with hkey | hkey
      · exact String.lt_irrefl _ (hkey ▸ hlt)
      · exact hmarked (hkey ▸ List.mem_map_of_mem (List.mem_of_mem_drop he))
    rw [plainName_of_eq_none hplain, hvalue] at hfind
    cases hfind
    exact hmembers _ (List.mem_of_getElem? hi) _ _ ((resolveMember_eq_ok hgiven).2.2 hplain)

/-! ## Templates -/

variable {template out : Json} {supply' : Supply}

theorem fills_of_resolve (h : template.WellFormed) : ∀ (supply : Supply) (out : Json),
    resolve failure context input supply template = .ok out →
      Fills context input supply template out := by
  induction h with
  | obj hs _ ih =>
    intro supply out hout
    rw [resolve_obj] at hout
    obtain ⟨entries, hentries, rfl⟩ := Except.map_eq_ok_iff.mp hout
    exact Gives.fills hentries hs fun e he s out => ih e he s out
  | arr _ ih =>
    intro supply out hout
    rw [resolve_arr] at hout
    obtain ⟨outs, houts, rfl⟩ := Except.map_eq_ok_iff.mp hout
    obtain ⟨hlength, hall⟩ := Except.getElem?_of_mapM houts
    rw [List.length_zipIdx] at hlength
    refine .arr hlength fun i item out hitem hout => ?_
    obtain ⟨out', hout', hresolve⟩ := hall i (item, i) (by
      rw [List.getElem?_zipIdx, hitem, Nat.zero_add]
      rfl)
    rw [hout] at hout'
    cases hout'
    exact ih item (List.mem_of_getElem? hitem) _ _ hresolve
  | _ =>
    intro supply out hout
    cases hout
    exact .scalar rfl rfl

/-- A template without dynamic members gives itself. -/
theorem resolve_of_static (h : template.WellFormed) : ∀ supply : Supply,
    (∀ s key content, ¬ Dynamic supply template s key content) →
      resolve failure context input supply template = .ok template := by
  induction h with
  | @obj members hs _ ih =>
    intro supply hstatic
    have hmember : ∀ e ∈ members.zipIdx,
        resolveMember failure context input (supply.branch e.2) e.1 = .ok e.1 := by
      rintro ⟨⟨key, content⟩, i⟩ he
      have hi : members[i]? = some (key, content) := List.mk_mem_zipIdx_iff_getElem?.mp he
      have hkey : dynamicName? key = none := by
        cases hkey : dynamicName? key with
        | none => rfl
        | some name => exact absurd (.here hi hkey) (hstatic _ _ _)
      have hcontent := ih _ (List.mem_of_getElem? hi) (supply.branch i) fun s k c hd =>
        hstatic s k c (.member hi hkey hd)
      rw [resolveMember, hkey]
      exact congrArg (Functor.map (key, ·)) hcontent
    have hgiven := Except.mapM_eq_ok_map (k := Prod.fst) hmember
    rw [List.zipIdx_map_fst] at hgiven
    rw [resolve_obj, hgiven]
    exact congrArg (Except.ok ∘ Json.obj) (Keyed.ofList_of_sorted hs)
  | @arr items _ ih =>
    intro supply hstatic
    have hitem : ∀ e ∈ items.zipIdx,
        resolve failure context input (supply.branch e.2) e.1 = .ok e.1 := by
      rintro ⟨item, i⟩ he
      have hi : items[i]? = some item := List.mk_mem_zipIdx_iff_getElem?.mp he
      exact ih _ (List.mem_of_getElem? hi) _ fun s k c hd => hstatic s k c (.item hi hd)
    have hgiven := Except.mapM_eq_ok_map (k := Prod.fst) hitem
    rw [List.zipIdx_map_fst] at hgiven
    rw [resolve_arr, hgiven]
    rfl
  | _ => exact fun _ _ => rfl

/-- An error is that of a dynamic member. -/
theorem exists_fails_of_error (h : template.WellFormed) : ∀ (supply : Supply) (t : Trouble),
    resolve failure context input supply template = .error t →
      ∃ s key content, Dynamic supply template s key content ∧
        Fails context input s failure content (name? t) := by
  induction h with
  | @obj members _ _ ih =>
    intro supply t ht
    rw [resolve_obj] at ht
    obtain ⟨⟨⟨key, content⟩, i⟩, he, hmember⟩ :=
      Except.exists_of_mapM_eq_error (Except.map_eq_error_iff.mp ht)
    have hi : members[i]? = some (key, content) := List.mk_mem_zipIdx_iff_getElem?.mp he
    unfold resolveMember at hmember
    dsimp only at hmember
    split at hmember
    · next name hkey =>
      obtain ⟨value, hvalue, -⟩ | ⟨t', ht', hfails⟩ :=
        resolveDynamic_cases failure context input (supply.branch i) key content
      · rw [hvalue] at hmember
        cases hmember
      · rw [ht'] at hmember
        cases hmember
        exact ⟨_, key, content, .here hi hkey, hfails⟩
    · next hkey =>
      obtain ⟨s, k, c, hd, hfails⟩ :=
        ih _ (List.mem_of_getElem? hi) _ t (Except.map_eq_error_iff.mp hmember)
      exact ⟨s, k, c, .member hi hkey hd, hfails⟩
  | @arr items _ ih =>
    intro supply t ht
    rw [resolve_arr] at ht
    obtain ⟨⟨item, i⟩, he, hitem⟩ := Except.exists_of_mapM_eq_error (Except.map_eq_error_iff.mp ht)
    have hi : items[i]? = some item := List.mk_mem_zipIdx_iff_getElem?.mp he
    obtain ⟨s, k, c, hd, hfails⟩ := ih item (List.mem_of_getElem? hi) _ t hitem
    exact ⟨s, k, c, .item hi hd, hfails⟩
  | _ =>
    intro supply t ht
    cases ht

/-- A dynamic member that fails makes its template fail, at whatever depth it stands. -/
theorem Dynamic.exists_error (hd : Dynamic supply template supply' key content)
    (hf : Fails context input supply' failure content name) :
    ∃ t, resolve failure context input supply template = .error t := by
  have hobj : ∀ {supply : Supply} {members : Keyed Json} {i : Nat} {e : String × Json} {t : Trouble},
      members[i]? = some e → resolveMember failure context input (supply.branch i) e = .error t →
        ∃ t, resolve failure context input supply (.obj members) = .error t := by
    intro supply members i e t hi he
    have hmem : (e, i) ∈ members.zipIdx := List.mk_mem_zipIdx_iff_getElem?.mpr hi
    obtain ⟨t', ht'⟩ : ∃ t', members.zipIdx.mapM (fun e =>
        resolveMember failure context input (supply.branch e.2) e.1) = .error t' :=
      Except.exists_mapM_eq_error hmem he
    exact ⟨t', resolve_obj.trans (Except.map_eq_error_iff.mpr ht')⟩
  induction hd with
  | here hi hkey =>
    obtain ⟨t, ht, -⟩ := hf.exists_error _
    refine hobj hi (t := t) ?_
    rw [resolveMember, hkey]
    exact Except.map_eq_error_iff.mpr ht
  | member hi hplain _ ih =>
    obtain ⟨t, ht⟩ := ih hf
    refine hobj hi (t := t) ?_
    rw [resolveMember, hplain]
    exact Except.map_eq_error_iff.mpr ht
  | @item supply _ items i _ part _ hi _ ih =>
    obtain ⟨t, ht⟩ := ih hf
    have hmem : (part, i) ∈ items.zipIdx := List.mk_mem_zipIdx_iff_getElem?.mpr hi
    obtain ⟨t', ht'⟩ : ∃ t', items.zipIdx.mapM (fun e =>
        resolve failure context input (supply.branch e.2) e.1) = .error t' :=
      Except.exists_mapM_eq_error hmem ht
    exact ⟨t', resolve_arr.trans (Except.map_eq_error_iff.mpr ht')⟩

/-- **What a template gives, and when it fails.** The result has the keys of the template without their
marks, at every depth; marked members win over plain ones, and data is filled in as it is. A template
without dynamic members gives itself. It fails exactly if some dynamic member does, also one that would not
count, and the error has the name that belongs to it; or a slice in a path has run out of range. -/
theorem resolve_fills (failure : ErrorName) (context : Context) (input : Json) (supply : Supply)
    {template : Json} (h : template.WellFormed) :
    (∀ out, resolve failure context input supply template = .ok out →
      Fills context input supply template out) ∧
    ((∀ s key content, ¬ Dynamic supply template s key content) →
      resolve failure context input supply template = .ok template) ∧
    ((∃ t, resolve failure context input supply template = .error t) ↔
      ∃ s key content name, Dynamic supply template s key content ∧
        Fails context input s failure content name) ∧
    ∀ t, resolve failure context input supply template = .error t →
      ∃ s key content, Dynamic supply template s key content ∧
        Fails context input s failure content (name? t) := by
  refine ⟨fills_of_resolve h supply, resolve_of_static h supply, ⟨?_, ?_⟩, exists_fails_of_error h supply⟩
  · rintro ⟨t, ht⟩
    obtain ⟨s, key, content, hd, hf⟩ := exists_fails_of_error h supply t ht
    exact ⟨s, key, content, _, hd, hf⟩
  · rintro ⟨s, key, content, name, hd, hf⟩
    exact hd.exists_error hf

/-- A marked member wins over a plain one, and a key with a mark in the data is no dynamic member. -/
theorem resolve_fills_marked :
    resolve .parameterPathFailure default (.obj [("v", .obj [("k.$", .str "$")])]) default
        (.obj [("a", .str "plain"), ("a.$", .str "$.v")]) =
      .ok (.obj [("a", .obj [("k.$", .str "$")])]) ∧
    Fills default (.obj [("v", .obj [("k.$", .str "$")])]) default
      (.obj [("a", .str "plain"), ("a.$", .str "$.v")]) (.obj [("a", .obj [("k.$", .str "$")])]) := by
  have h : (Json.obj [("a", .str "plain"), ("a.$", .str "$.v")]).WellFormed := by
    refine .obj (Keyed.sorted_pair (lt_append_mark "a")) (List.forall_mem_cons.mpr ⟨.str _, ?_⟩)
    exact List.forall_mem_singleton.mpr (.str _)
  have hp : Path.parse "$.v" = .ok ⟨"$.v", false, ⟨"$.v", .root, [.child "v"]⟩⟩ := by
    with_unfolding_all rfl
  have hdollar : "$.v".startsWith "$" = true := by simp
  have hplain : dynamicName? "a" = none := by decide
  have hmarked : dynamicName? "a.$" = some "a" := by decide
  have hout : resolve .parameterPathFailure default (.obj [("v", .obj [("k.$", .str "$")])]) default
      (.obj [("a", .str "plain"), ("a.$", .str "$.v")]) = .ok (.obj [("a", .obj [("k.$", .str "$")])]) := by
    simp only [resolve, resolveMembers, resolveDynamic, resolveText, hplain, hmarked, hdollar, hp, if_true]
    rfl
  exact ⟨hout, (resolve_fills _ _ _ _ h).1 _ hout⟩

/-- A path that selects one item, and yet a template with it gives nothing: a slice in it runs out of
range behind that item. -/
theorem resolve_overruns : ∃ p : Path, Path.parse "$[1::9223372036854775807]" = .ok p ∧
    p.query.get (.arr [.int 0, .int 1, .int 2]) = [.int 1] ∧
    resolve .parameterPathFailure default (.arr [.int 0, .int 1, .int 2]) default
      (.obj [("a.$", .str "$[1::9223372036854775807]")]) = .error .overrun := by
  have hp : Path.parse "$[1::9223372036854775807]" = .ok ⟨"$[1::9223372036854775807]", false,
      ⟨"$[1::9223372036854775807]", .root, [.slice (some 1) none 9223372036854775807]⟩⟩ := by
    with_unfolding_all rfl
  have hdollar : "$[1::9223372036854775807]".startsWith "$" = true := by simp
  have hmarked : dynamicName? "a.$" = some "a" := by decide
  refine ⟨_, hp, rfl, ?_⟩
  simp only [resolve, resolveMembers, resolveDynamic, resolveText, hmarked, hdollar, hp, if_true]
  rfl

end StepFlow.Payload
