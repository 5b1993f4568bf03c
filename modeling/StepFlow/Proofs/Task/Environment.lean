import StepFlow.Proofs.Path.DocumentOrder
import StepFlow.Proofs.Task.Block

/-!
# The environment of a script

A script gets an entry in its environment for every part of its arguments that is neither an array nor an
object. The name of the entry spells the location of the part, with a mark in front of every step. Keys
without the mark can be told apart in these names, so that no entry takes the place of another one. A
program finds the value of each of them under its name if there are no equals signs in the keys.

* `Json.isLeaf`, `Json.HasKey`: the parts that get an entry, and the keys on the way to them;
* `Hop.label`, `Script.nameAt`: the name that spells a location;
* `Script.entries_eq`: the entries are those of the leaves, in document order;
* `eq_of_labels`, `Script.nameAt_injective`: a name is that of one location;
* **`Script.entries_keep_leaves`**: the entries of the parts, and what a program finds of them;
* `Script.entries_lose_leaf`: a key with an equals sign hides a part.
-/

namespace StepFlow

/-! ## Leaves and keys -/

namespace Json

/-- Whether a value is neither an array nor an object. -/
def isLeaf : Json → Bool
  | .arr _ | .obj _ => false
  | _ => true

/-- A key of an object within the value. -/
def HasKey (j : Json) (key : String) : Prop := ∃ l ∈ j.locations, .member key ∈ l

end Json

/-! ## Names of locations -/

/-- A step down as a part of a name: the key of a member, and the position of an item in digits. -/
def Hop.label : Hop → String
  | .member name => name
  | .item i => toString i

namespace Script

/-- The name for a location: a start, and then every step with a mark in front of it. -/
def nameAt (start : String) (location : List Hop) : String :=
  start ++ String.join (location.map fun hop => "_" ++ hop.label)

theorem nameAt_nil (start : String) : nameAt start [] = start := String.append_empty

theorem nameAt_cons (start : String) (hop : Hop) (l : List Hop) :
    nameAt start (hop :: l) = nameAt (start ++ "_" ++ hop.label) l := by
  simp only [nameAt, List.map_cons, String.join_cons, String.append_assoc]

theorem toList_nameAt (start : String) (l : List Hop) : (nameAt start l).toList =
    start.toList ++ (l.map fun hop => hop.label.toList).flatMap ('_' :: ·) := by
  rw [nameAt, String.toList_append, String.toList_join, List.flatMap_map, List.flatMap_map]
  refine congrArg (start.toList ++ ·) (List.flatMap_congr fun hop _ => ?_)
  rw [String.toList_append]
  rfl

/-! ## The entries are those of the leaves -/

/-- The entry for a location, if a leaf stands there. -/
def entryAt? (start : String) (node : Json) (l : List Hop) : Option (String × String) :=
  (node.at? l).bind fun value => if value.isLeaf then some (nameAt start l, textOf value) else none

theorem entryAt?_eq_some {start : String} {node : Json} {l : List Hop} {entry : String × String} :
    entryAt? start node l = some entry ↔
      ∃ value, node.at? l = some value ∧ value.isLeaf = true ∧ entry = (nameAt start l, textOf value) := by
  rw [entryAt?, Option.bind_eq_some_iff]
  refine exists_congr fun value => and_congr_right fun _ => ?_
  split
  · next h => simp [h, eq_comm]
  · next h => simp [h]

theorem entryAt?_cons {start : String} {node child : Json} {hop : Hop}
    (hc : node.below? hop = some child) (l : List Hop) :
    entryAt? start node (hop :: l) = entryAt? (start ++ "_" ++ hop.label) child l := by
  rw [entryAt?, Json.at?_cons, hc, Option.bind_some, entryAt?, nameAt_cons]

theorem memberEntries_eq (start : String) (members : List (String × Json)) :
    memberEntries start members = members.flatMap fun e => entries (start ++ "_" ++ e.1) e.2 := by
  induction members with
  | nil => rfl
  | cons e members ih => rw [memberEntries, ih, List.flatMap_cons]

theorem itemEntries_eq (start : String) (i : Nat) (items : List Json) : itemEntries start i items =
    (items.zipIdx i).flatMap fun p => entries (start ++ "_" ++ toString p.2) p.1 := by
  induction items generalizing i with
  | nil => rfl
  | cons item items ih => rw [itemEntries, ih, List.zipIdx_cons, List.flatMap_cons]

theorem entries_eq_parts (start : String) (node : Json) : entries start node =
    (if node.isLeaf then [(start, textOf node)] else []) ++
      node.parts.flatMap fun p => entries (start ++ "_" ++ p.1.label) p.2 := by
  cases node with
  | arr items =>
    rw [entries, itemEntries_eq, Json.parts, List.flatMap_map]
    rfl
  | obj members =>
    rw [entries, memberEntries_eq, Json.parts, List.flatMap_map]
    rfl
  | _ => rfl

theorem entryAt?_nil (start : String) (node : Json) :
    entryAt? start node [] = if node.isLeaf then some (start, textOf node) else none := by
  rw [entryAt?, Json.at?, Option.bind_some, nameAt_nil]

/-- **The entries are those of the leaves**, in the order of the locations. -/
theorem entries_eq {node : Json} (h : node.WellFormed) (start : String) :
    entries start node = node.locations.filterMap (entryAt? start node) := by
  have hparts : ∀ {node : Json}, node.WellFormed →
      (∀ p ∈ node.parts, ∀ start, entries start p.2 = p.2.locations.filterMap (entryAt? start p.2)) →
        ∀ start, entries start node = node.locations.filterMap (entryAt? start node) := by
    intro node h hp start
    have hbelow : (node.parts.flatMap fun p => p.2.locations.map (p.1 :: ·)).filterMap
        (entryAt? start node) = node.parts.flatMap fun p => entries (start ++ "_" ++ p.1.label) p.2 := by
      rw [List.filterMap_flatMap]
      refine List.flatMap_congr fun p hm => ?_
      have hcomp : entryAt? start node ∘ (p.1 :: ·) = entryAt? (start ++ "_" ++ p.1.label) p.2 :=
        funext fun l => entryAt?_cons ((Json.mem_parts h).mp hm) l
      rw [List.filterMap_map, hcomp, hp p hm]
    rw [Json.locations_eq, entries_eq_parts, ← hbelow, List.filterMap_cons, entryAt?_nil]
    split <;> rfl
  induction h generalizing start with
  | arr hi ih =>
    refine hparts (.arr hi) (fun p hp => ?_) start
    obtain ⟨q, hq, rfl⟩ := List.mem_map.mp hp
    exact ih _ (List.fst_mem_of_mem_zipIdx hq)
  | obj hs hm ih =>
    refine hparts (.obj hs hm) (fun p hp => ?_) start
    obtain ⟨e, he, rfl⟩ := List.mem_map.mp hp
    exact ih e he
  | _ => simp [entries, Json.locations, entryAt?_nil, Json.isLeaf]

/-! ## Names tell locations apart -/

theorem takeWhile_part {part : List Char} (h : '_' ∉ part) (rest : List (List Char)) :
    (part ++ rest.flatMap ('_' :: ·)).takeWhile (· ≠ '_') = part := by
  have hpart : ∀ c ∈ part, decide (c ≠ '_') = true := fun c hc => decide_eq_true fun heq => h (heq ▸ hc)
  have hrest : (rest.flatMap ('_' :: ·)).takeWhile (· ≠ '_') = [] := by cases rest <;> rfl
  rw [List.takeWhile_append_of_pos hpart, hrest, List.append_nil]

theorem parts_eq_of_flatMap_mark {parts parts' : List (List Char)} (h : ∀ part ∈ parts, '_' ∉ part)
    (h' : ∀ part ∈ parts', '_' ∉ part)
    (heq : parts.flatMap ('_' :: ·) = parts'.flatMap ('_' :: ·)) : parts = parts' := by
  induction parts generalizing parts' with
  | nil =>
    cases parts' with
    | nil => rfl
    | cons part' rest' => cases heq
  | cons part rest ih =>
    obtain ⟨hpart, hrest⟩ := List.forall_mem_cons.mp h
    cases parts' with
    | nil => cases heq
    | cons part' rest' =>
      obtain ⟨hpart', hrest'⟩ := List.forall_mem_cons.mp h'
      have htail : part ++ rest.flatMap ('_' :: ·) = part' ++ rest'.flatMap ('_' :: ·) :=
        List.tail_eq_of_cons_eq heq
      obtain rfl : part = part' := by
        rw [← takeWhile_part hpart rest, htail, takeWhile_part hpart' rest']
      rw [ih hrest hrest' (List.append_cancel_left htail)]

end Script

theorem isDigit_of_mem_toString {i : Nat} {c : Char} (h : c ∈ (toString i).toList) :
    c.isDigit = true := by
  rw [Nat.toString_eq_repr, Nat.toList_repr] at h
  exact Nat.isDigit_of_mem_toDigits (by decide) (by decide) h

theorem Hop.eq_of_label {node child child' : Json} {hop hop' : Hop} (hc : node.below? hop = some child)
    (hc' : node.below? hop' = some child') (h : hop.label = hop'.label) : hop = hop' := by
  cases node with
  | arr items =>
    cases hop with
    | member name => cases hc
    | item i =>
      cases hop' with
      | member name => cases hc'
      | item j =>
        have hdigits : Nat.toDigits 10 i = Nat.toDigits 10 j := by
          rw [← Nat.toList_repr, ← Nat.toList_repr]
          exact congrArg String.toList h
        rw [← Nat.ofDigitChars_ten_toDigits (n := i), hdigits, Nat.ofDigitChars_ten_toDigits]
  | obj members =>
    cases hop with
    | item i => cases hc
    | member name =>
      cases hop' with
      | item j => cases hc'
      | member name' => exact congrArg _ h
  | _ => cases hop <;> cases hc

theorem eq_of_labels {node value value' : Json} {l l' : List Hop} (hl : node.at? l = some value)
    (hl' : node.at? l' = some value') (h : l.map Hop.label = l'.map Hop.label) : l = l' := by
  induction l generalizing node l' with
  | nil =>
    cases l' with
    | nil => rfl
    | cons hop' l' => cases h
  | cons hop l ih =>
    cases l' with
    | nil => cases h
    | cons hop' l' =>
      obtain ⟨hlabel, hlabels⟩ := List.cons.inj h
      obtain ⟨child, hc, hl⟩ := Json.at?_cons_eq_some.mp hl
      obtain ⟨child', hc', hl'⟩ := Json.at?_cons_eq_some.mp hl'
      obtain rfl := Hop.eq_of_label hc hc' hlabel
      obtain rfl : child = child' := Option.some.inj (hc.symm.trans hc')
      rw [ih hl hl' hlabels]

namespace Script

variable {args : Json} {l l' : List Hop}

theorem notMem_labels {c : Char} (hc : c.isDigit = false) (hkeys : ∀ key, args.HasKey key → c ∉ key.toList)
    (hl : l ∈ args.locations) : ∀ label ∈ l.map fun hop => hop.label.toList, c ∉ label := by
  refine List.forall_mem_map.mpr fun hop hmem => ?_
  cases hop with
  | member key => exact hkeys key ⟨l, hl, hmem⟩
  | item i => exact fun h => absurd (isDigit_of_mem_toString h) (by simp [hc])

/-- **A name is that of one location.** -/
theorem nameAt_injective (h : args.WellFormed) (hkeys : ∀ key, args.HasKey key → '_' ∉ key.toList)
    (hl : l ∈ args.locations) (hl' : l' ∈ args.locations) {start : String}
    (heq : nameAt start l = nameAt start l') : l = l' := by
  have hchars := congrArg String.toList heq
  rw [toList_nameAt, toList_nameAt] at hchars
  have hlabels := parts_eq_of_flatMap_mark (notMem_labels (by decide) hkeys hl)
    (notMem_labels (by decide) hkeys hl')
    (List.append_cancel_left hchars)
  obtain ⟨value, hv⟩ := (Json.mem_locations h).mp hl
  obtain ⟨value', hv'⟩ := (Json.mem_locations h).mp hl'
  refine eq_of_labels hv hv' (List.map_injective_iff.mpr (fun _ _ => String.toList_injective) ?_)
  rwa [List.map_map, List.map_map]

theorem nodup_entries (h : args.WellFormed) (hkeys : ∀ key, args.HasKey key → '_' ∉ key.toList)
    (start : String) : ((entries start args).map Prod.fst).Nodup := by
  rw [entries_eq h, List.nodup_iff_pairwise_ne, List.pairwise_map, List.pairwise_filterMap]
  refine (Json.pairwise_locations h).imp_of_mem fun {l l'} hl hl' hbefore entry he entry' he' heq => ?_
  obtain ⟨value, -, -, rfl⟩ := entryAt?_eq_some.mp he
  obtain ⟨value', -, -, rfl⟩ := entryAt?_eq_some.mp he'
  obtain rfl := nameAt_injective h hkeys hl hl' heq
  exact irrefl_of LocationBefore l hbefore

/-! ## What a program finds of the entries -/

theorem exists_nameAt_of_mem_entries (h : args.WellFormed) {e : String × String}
    (he : e ∈ entries inputPrefix args) : ∃ l ∈ args.locations, e.1 = nameAt inputPrefix l := by
  rw [entries_eq h] at he
  obtain ⟨l, hl, hentry⟩ := List.mem_filterMap.mp he
  obtain ⟨value, -, -, rfl⟩ := entryAt?_eq_some.mp hentry
  exact ⟨l, hl, rfl⟩

theorem nameAt_ne_empty (l : List Hop) : nameAt inputPrefix l ≠ "" := by
  intro h
  have hlist := congrArg String.toList h
  rw [toList_nameAt] at hlist
  exact absurd (List.append_eq_nil_iff.mp hlist).1 (by decide)

theorem equals_notMem_nameAt (hkeys : ∀ key, args.HasKey key → '=' ∉ key.toList)
    (hl : l ∈ args.locations) : '=' ∉ (nameAt inputPrefix l).toList := by
  rw [toList_nameAt, List.mem_append, not_or]
  refine ⟨by decide, fun h => ?_⟩
  obtain ⟨label, hlabel, hmem⟩ := List.mem_flatMap.mp h
  rcases List.mem_cons.mp hmem with hmark | hmem
  · exact absurd hmark (by decide)
  · exact notMem_labels (by decide) hkeys hl label hlabel hmem

theorem assignment_mem_block (h : args.WellFormed) (hkeys : ∀ key, args.HasKey key → '_' ∉ key.toList)
    (launcher : Launcher) {e : String × String} (he : e ∈ entries inputPrefix args)
    (hname : '=' ∉ e.1.toList) (value : String) :
    Launcher.assignment (e.1, value) ∈ launcher.block (entries inputPrefix args) ↔ value = e.2 ∨
      ∃ d ∈ entries inputPrefix args, ∃ more,
        d.1 = e.1 ++ "=" ++ more ∧ value = more ++ "=" ++ d.2 := by
  have hne : e.1 ≠ "" := by
    obtain ⟨l, -, hl⟩ := exists_nameAt_of_mem_entries h he
    exact hl ▸ nameAt_ne_empty l
  exact Launcher.mem_block launcher (nodup_entries h hkeys inputPrefix) he hname hne value

theorem assignment_mem_block_iff (h : args.WellFormed)
    (hkeys : ∀ key, args.HasKey key → '_' ∉ key.toList ∧ '=' ∉ key.toList) (launcher : Launcher)
    {e : String × String} (he : e ∈ entries inputPrefix args) (value : String) :
    Launcher.assignment (e.1, value) ∈ launcher.block (entries inputPrefix args) ↔ value = e.2 := by
  have hnames : ∀ {d : String × String}, d ∈ entries inputPrefix args → '=' ∉ d.1.toList := by
    intro d hd
    obtain ⟨l, hl, hd⟩ := exists_nameAt_of_mem_entries h hd
    rw [hd]
    exact equals_notMem_nameAt (fun key hkey => (hkeys key hkey).2) hl
  rw [assignment_mem_block h (fun key hkey => (hkeys key hkey).1) launcher he (hnames he), or_iff_left]
  rintro ⟨d, hd, more, hlonger, -⟩
  refine hnames hd ?_
  rw [hlonger, Launcher.toList_divided]
  exact List.mem_append_right _ List.mem_cons_self

theorem find?_session (h : args.WellFormed)
    (hkeys : ∀ key, args.HasKey key → '_' ∉ key.toList ∧ '=' ∉ key.toList) (launcher : Launcher)
    {e : String × String} (he : e ∈ entries inputPrefix args) (hname : Shell.isName e.1.toList)
    (name : List Char) (parameters : List (List Char)) :
    Keyed.find? e.1 (Shell.Machine.session name parameters
      (launcher.block (entries inputPrefix args))).bindings = some (Text.utf8 e.2) := by
  have hassigned : ∀ bytes, (e.1, bytes) ∈ (launcher.block (entries inputPrefix args)).filterMap
      Shell.Machine.assigned? ↔ bytes = Text.utf8 e.2 := by
    intro bytes
    simp only [List.mem_filterMap, Shell.Machine.assigned?_eq_some hname]
    constructor
    · rintro ⟨_, hmem, value, rfl, rfl⟩
      rw [(assignment_mem_block_iff h hkeys launcher he value).mp hmem]
    · rintro rfl
      exact ⟨_, (assignment_mem_block_iff h hkeys launcher he e.2).mpr rfl, e.2, rfl, rfl⟩
  exact Keyed.find?_ofList_of_unique ((hassigned _).mpr rfl) fun bytes => (hassigned bytes).mp

theorem forall₂_filterMap {α β : Type} (f : α → Option β) (items : List α) :
    List.Forall₂ (fun item b => f item = some b) (items.filter fun item => (f item).isSome)
      (items.filterMap f) := by
  induction items with
  | nil => exact .nil
  | cons item items ih =>
    rw [List.filter_cons, List.filterMap_cons]
    cases hf : f item with
    | none => exact ih
    | some b => exact .cons hf ih

/-- **The entries of a script's arguments.** If no key within the arguments has the mark, there is one
entry for each part that is neither an array nor an object, in document order, with the text of the
part, and the names of the entries are all different.

What a program finds under such a name is what stands behind the name and an equals sign among the texts
of its environment: the text of the part, and what belongs to an entry whose name goes on with an equals
sign. So without equals signs in the keys nothing is lost, and a shell has the text of each part in a
variable, if the name is one of a variable. -/
theorem entries_keep_leaves (h : args.WellFormed)
    (hkeys : ∀ key, args.HasKey key → '_' ∉ key.toList) :
    (∃ leaves : List (List Hop), leaves.Pairwise LocationBefore ∧
      (∀ l, l ∈ leaves ↔ ∃ value, args.at? l = some value ∧ value.isLeaf = true) ∧
      List.Forall₂ (fun l entry => ∃ value, args.at? l = some value ∧
        entry = (nameAt inputPrefix l, textOf value)) leaves (entries inputPrefix args)) ∧
    ((entries inputPrefix args).map Prod.fst).Nodup ∧
    ∀ launcher : Launcher, ∀ e ∈ entries inputPrefix args,
      ('=' ∉ e.1.toList → ∀ value,
        Launcher.assignment (e.1, value) ∈ launcher.block (entries inputPrefix args) ↔ value = e.2 ∨
          ∃ d ∈ entries inputPrefix args, ∃ more,
            d.1 = e.1 ++ "=" ++ more ∧ value = more ++ "=" ++ d.2) ∧
      ((∀ key, args.HasKey key → '=' ∉ key.toList) →
        (∀ value, Launcher.assignment (e.1, value) ∈ launcher.block (entries inputPrefix args) ↔
          value = e.2) ∧
        (Shell.isName e.1.toList → ∀ name parameters,
          Keyed.find? e.1 (Shell.Machine.session name parameters
            (launcher.block (entries inputPrefix args))).bindings = some (Text.utf8 e.2))) := by
  refine ⟨⟨args.locations.filter fun l => (entryAt? inputPrefix args l).isSome,
    (Json.pairwise_locations h).filter _, fun l => ?_, ?_⟩, nodup_entries h hkeys inputPrefix,
    fun launcher e he => ⟨assignment_mem_block h hkeys launcher he, fun hequals => ?_⟩⟩
  · rw [List.mem_filter, Json.mem_locations h, Option.isSome_iff_exists]
    simp only [entryAt?_eq_some]
    constructor
    · rintro ⟨-, _, value, hv, hleaf, -⟩
      exact ⟨value, hv, hleaf⟩
    · rintro ⟨value, hv, hleaf⟩
      exact ⟨⟨value, hv⟩, _, value, hv, hleaf, rfl⟩
  · rw [entries_eq h]
    refine (forall₂_filterMap _ _).imp fun l entry he => ?_
    obtain ⟨value, hv, -, hentry⟩ := entryAt?_eq_some.mp he
    exact ⟨value, hv, hentry⟩
  · have hboth : ∀ key, args.HasKey key → '_' ∉ key.toList ∧ '=' ∉ key.toList :=
      fun key hkey => ⟨hkeys key hkey, hequals key hkey⟩
    exact ⟨assignment_mem_block_iff h hboth launcher he,
      fun hname name parameters => find?_session h hboth launcher he hname name parameters⟩

/-- Arguments with an empty key, and with a key that looks like a position. -/
def nestedArguments : Json :=
  .obj [("", .obj [("0", .bool true)]), ("0", .arr [.arr [], .str "a_b", .null])]

theorem nestedArguments_wellFormed : nestedArguments.WellFormed := by
  have hflag : (Json.obj [("0", .bool true)]).WellFormed := by
    refine .obj (List.pairwise_singleton _ _) (List.forall_mem_singleton.mpr (.bool true))
  have hitems : (Json.arr [.arr [], .str "a_b", .null]).WellFormed := by
    refine .arr (List.forall_mem_cons.mpr ⟨.arr (List.forall_mem_nil _), List.forall_mem_cons.mpr ?_⟩)
    exact ⟨.str "a_b", List.forall_mem_singleton.mpr .null⟩
  exact .obj (Keyed.sorted_pair (by decide))
    (List.forall_mem_cons.mpr ⟨hflag, List.forall_mem_singleton.mpr hitems⟩)

/-- The member `0` below the empty key and the items below the key `0` get different names, and a shell
finds them all. -/
theorem entries_keep_leaves_of_nested : nestedArguments.WellFormed ∧
    (∀ key, nestedArguments.HasKey key → '_' ∉ key.toList ∧ '=' ∉ key.toList) ∧
    entries inputPrefix nestedArguments =
      [("WAYPOINT_IN__0", "true"), ("WAYPOINT_IN_0_1", "a_b"), ("WAYPOINT_IN_0_2", "null")] ∧
    ((entries inputPrefix nestedArguments).map Prod.fst).Nodup ∧
    Keyed.find? "WAYPOINT_IN_0_2" (Shell.Machine.session [] [] (Shell.Machine.plain.launcher.block
      (entries inputPrefix nestedArguments))).bindings = some (Text.utf8 "null") := by
  have hkeys : ∀ key, nestedArguments.HasKey key → '_' ∉ key.toList ∧ '=' ∉ key.toList := by
    have hlabels : ∀ l ∈ nestedArguments.locations, ∀ hop ∈ l,
        '_' ∉ hop.label.toList ∧ '=' ∉ hop.label.toList := by
      decide +kernel
    rintro key ⟨l, hl, hkey⟩
    exact hlabels l hl _ hkey
  have hentries : entries inputPrefix nestedArguments =
      [("WAYPOINT_IN__0", "true"), ("WAYPOINT_IN_0_1", "a_b"), ("WAYPOINT_IN_0_2", "null")] := by
    rfl
  obtain ⟨-, hnodup, hfound⟩ :=
    entries_keep_leaves nestedArguments_wellFormed fun key hkey => (hkeys key hkey).1
  obtain ⟨-, hplain⟩ := hfound Shell.Machine.plain.launcher ("WAYPOINT_IN_0_2", "null")
    (by simp [hentries])
  exact ⟨nestedArguments_wellFormed, hkeys, hentries, hnodup,
    (hplain fun key hkey => (hkeys key hkey).2).2 (by decide) [] []⟩

/-- Arguments with a key that goes on behind another one with an equals sign. -/
def dividedArguments : Json := .obj [("a", .str "x"), ("a=b", .str "y")]

theorem dividedArguments_wellFormed : dividedArguments.WellFormed :=
  .obj (Keyed.sorted_pair (by decide))
    (List.forall_mem_cons.mpr ⟨.str "x", List.forall_mem_singleton.mpr (.str "y")⟩)

/-- **A key with an equals sign hides a part**: both entries are in the environment, but a shell makes one
variable of them, which has the second one, and the text of the first part is nowhere. -/
theorem entries_lose_leaf : dividedArguments.WellFormed ∧
    (∀ key, dividedArguments.HasKey key → '_' ∉ key.toList) ∧
    entries inputPrefix dividedArguments = [("WAYPOINT_IN_a", "x"), ("WAYPOINT_IN_a=b", "y")] ∧
    Keyed.find? "WAYPOINT_IN_a" (Shell.Machine.session [] [] (Shell.Machine.plain.launcher.block
      (entries inputPrefix dividedArguments))).bindings = some "b=y".toList ∧
    ∀ e ∈ (Shell.Machine.session [] [] (Shell.Machine.plain.launcher.block
      (entries inputPrefix dividedArguments))).bindings, e.2 ≠ "x".toList := by
  have hkeys : ∀ key, dividedArguments.HasKey key → '_' ∉ key.toList := by
    have hlabels : ∀ l ∈ dividedArguments.locations, ∀ hop ∈ l, '_' ∉ hop.label.toList := by
      decide +kernel
    rintro key ⟨l, hl, hkey⟩
    exact hlabels l hl _ hkey
  exact ⟨dividedArguments_wellFormed, hkeys, by rfl, by decide +kernel, by decide +kernel⟩

/-- A key with the mark can hide a part: two parts get one name. -/
example : (entries inputPrefix (.obj [("a", .obj [("b", .null)]), ("a_b", .bool true)])).map Prod.fst =
    ["WAYPOINT_IN_a_b", "WAYPOINT_IN_a_b"] := by
  rfl

end Script

end StepFlow
