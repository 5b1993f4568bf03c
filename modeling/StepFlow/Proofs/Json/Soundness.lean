import StepFlow.Proofs.Json.Regular
import StepFlow.Proofs.Text.Scanning

/-!
# What reading a document gives

* `Reader.shrinks_number`, `Reader.shrinks_stringBody`, `Reader.shrinks_listOf`: what is left of a text;
* `Reader.exact_of_assemble`: an integer is read only if a document can hold it;
* `Reader.listRound_eq_ok`, `Reader.listOf_eq_ok`: the items of a list are read one by one;
* `Reader.regularly_valueFrom`, `Reader.regularly_value`: values, and
* **`Json.regular_of_read?`**: a document that is read is regular, and can be held if its text can.
-/

namespace StepFlow

namespace Reader

open Text Text.Scanner

/-! ## What is left of a text -/

theorem shrinks_refuse {α : Type} : Shrinks (refuse : Part α) := shrinks_fault ()

theorem shrinks_skipSpace : Shrinks skipSpace := (shrinks_takeWhile _).bind fun _ => shrinks_pure _

theorem shrinks_expect (c : Char) : Shrinks (expect c) :=
  (shrinks_eat c).bind fun _ => (shrinks_pure _).ite shrinks_refuse

theorem shrinks_expectAll (word : List Char) : Shrinks (expectAll word) :=
  (shrinks_eatAll word).bind fun _ => (shrinks_pure _).ite shrinks_refuse

theorem shrinks_digits : Shrinks digits :=
  (shrinks_takeWhile _).bind fun _ => shrinks_refuse.ite (shrinks_pure _)

theorem shrinks_exponentPart : Shrinks exponentPart := by
  have hdigits : ∀ negative : Bool, Shrinks (do return some (negative, natOfDigits (← digits))) :=
    fun negative => shrinks_digits.bind fun _ => shrinks_pure _
  unfold exponentPart
  refine shrinks_peek.bind fun mark => Shrinks.ite ?_ (shrinks_pure _)
  refine shrinks_next?.bind fun _ => (shrinks_eat '-').bind fun negative => ?_
  exact Shrinks.ite (hdigits negative) ((shrinks_eat '+').bind fun _ => hdigits negative)

theorem shrinks_number : Shrinks number := by
  have hwhole : Shrinks wholeDigits :=
    shrinks_digits.bind fun _ => shrinks_refuse.ite (shrinks_pure _)
  have hfraction : Shrinks fractionDigits :=
    (shrinks_eat '.').bind fun _ => shrinks_digits.map.ite (shrinks_pure _)
  refine (shrinks_eat '-').bind fun negative => hwhole.bind fun whole => hfraction.bind fun fraction =>
    shrinks_exponentPart.bind fun exponent => ?_
  split
  · exact shrinks_pure _
  · exact shrinks_refuse

theorem shrinks_escaped : Shrinks escaped := by
  have hdigit : Shrinks hexDigit := by
    refine shrinks_next?.bind fun c => ?_
    split
    · exact shrinks_pure _
    · exact shrinks_refuse
  have hunit : Shrinks unit16 :=
    hdigit.bind fun _ => hdigit.bind fun _ => hdigit.bind fun _ => hdigit.bind fun _ => shrinks_pure _
  have hunicode : Shrinks unicodeEscape :=
    hunit.bind fun _ => shrinks_refuse.ite <| Shrinks.ite
      ((shrinks_expectAll _).bind fun _ => hunit.bind fun _ => (shrinks_pure _).ite shrinks_refuse)
      (shrinks_pure _)
  refine shrinks_next?.bind fun c => ?_
  split <;> first | exact shrinks_pure _ | exact hunicode | exact shrinks_refuse

theorem shrinks_stringBody : Shrinks stringBody := by
  have hround : ∀ acc, Shrinks (stringRound acc) := by
    intro acc
    refine shrinks_next?.bind fun c => ?_
    split
    · exact shrinks_pure _
    · exact shrinks_escaped.bind fun _ => shrinks_pure _
    · exact shrinks_refuse.ite (shrinks_pure _)
    · exact shrinks_refuse
  exact (Shrinks.iterate hround []).bind fun _ => shrinks_pure _

/-! ## Numbers -/

variable {cs r : List Char}

theorem exact_of_assemble {negative : Bool} {whole : List Char} {fraction : Option (List Char)}
    {exponent : Option (Bool × Nat)} {n : Number}
    (h : assemble negative whole fraction exponent = some n) : n.Exact := by
  unfold assemble at h
  dsimp only at h
  generalize (if negative then -(natOfDigits whole : Int) else natOfDigits whole) = i at h
  split at h
  · next hi =>
    cases h
    simp only [Bool.and_eq_true] at hi
    exact hi.1.2
  · split at h
    · cases h
      trivial
    · cases h

theorem exact_of_number {n : Number} (h : number cs = .ok (n, r)) : n.Exact := by
  unfold number at h
  obtain ⟨negative, _, -, h⟩ := bind_eq_ok_iff.mp h
  obtain ⟨whole, _, -, h⟩ := bind_eq_ok_iff.mp h
  obtain ⟨fraction, _, -, h⟩ := bind_eq_ok_iff.mp h
  obtain ⟨exponent, _, -, h⟩ := bind_eq_ok_iff.mp h
  cases ha : assemble negative whole fraction exponent with
  | none =>
    rw [ha] at h
    cases h
  | some n =>
    rw [ha] at h
    cases h
    exact exact_of_assemble ha

/-! ## Lists -/

section List

variable {α : Type} {item : Part α} {closing : Char}

/-- A round ends the list or reads an item. -/
theorem listRound_eq_ok {acc : List α} {x : List α ⊕ List α}
    (h : listRound item closing acc cs = .ok (x, r)) : (x = .inr acc ∧ r.length ≤ cs.length) ∨
      ∃ a cs', item cs' = .ok (a, r) ∧ cs'.length ≤ cs.length ∧ x = .inl (a :: acc) := by
  have hitem : ∀ {cs : List Char}, (item >>= fun a => pure (.inl (a :: acc)) :
      Part (List α ⊕ List α)) cs = .ok (x, r) → ∃ a, item cs = .ok (a, r) ∧ x = .inl (a :: acc) := by
    intro cs h
    obtain ⟨a, _, ha, h⟩ := bind_eq_ok_iff.mp h
    cases h
    exact ⟨a, ha, rfl⟩
  unfold listRound at h
  obtain ⟨_, r₁, h₁, h⟩ := bind_eq_ok_iff.mp h
  obtain ⟨ended, r₂, h₂, h⟩ := bind_eq_ok_iff.mp h
  have hl₁ := shrinks_skipSpace _ _ _ h₁
  have hl₂ := shrinks_eat closing _ _ _ h₂
  split at h
  · cases h
    exact .inl ⟨rfl, Nat.le_trans hl₂ hl₁⟩
  · dsimp only at h
    split at h
    · obtain ⟨a, ha, hx⟩ := hitem h
      exact .inr ⟨a, _, ha, Nat.le_trans hl₂ hl₁, hx⟩
    · obtain ⟨_, r₃, h₃, h⟩ := bind_eq_ok_iff.mp h
      obtain ⟨_, r₄, h₄, h⟩ := bind_eq_ok_iff.mp h
      have hl₃ := shrinks_expect ',' _ _ _ h₃
      have hl₄ := shrinks_skipSpace _ _ _ h₄
      obtain ⟨a, ha, hx⟩ := hitem h
      exact .inr ⟨a, _, ha, by omega, hx⟩

/-- **The items of a list are read one by one**, from what is left of the text, and there are not many
more of them than the text has characters. -/
theorem listOf_eq_ok {P : α → Prop} (hshrinks : Shrinks item)
    (hitem : ∀ {cs' a r}, cs'.length ≤ cs.length → item cs' = .ok (a, r) → P a) {as : List α}
    (h : listOf item closing cs = .ok (as, r)) :
    (∀ a ∈ as, P a) ∧ as.length ≤ cs.length + 1 ∧ r.length ≤ cs.length := by
  unfold listOf at h
  obtain ⟨acc, _, hacc, h⟩ := bind_eq_ok_iff.mp h
  cases h
  have hcons : ∀ {a : α} {acc : List α}, P a → (∀ b ∈ acc, P b) → ∀ b ∈ a :: acc, P b := by
    rintro a acc ha hacc b (_ | ⟨_, hb⟩)
    · exact ha
    · exact hacc b hb
  -- every round but the last one takes a character off the text
  have hall := iterate_keeps
    (I := fun acc cs' => (∀ a ∈ acc, P a) ∧ acc.length + cs'.length ≤ cs.length)
    (Q := fun acc r => (∀ a ∈ acc, P a) ∧ acc.length ≤ cs.length + 1 ∧ r.length ≤ cs.length)
    (fun ⟨hP, hl⟩ hround hlt => by
      obtain ⟨hx, -⟩ | ⟨a, cs', ha, hcs', hx⟩ := listRound_eq_ok hround <;> cases hx
      refine ⟨hcons (hitem (by omega) ha) hP, ?_⟩
      rw [List.length_cons]
      omega)
    (fun ⟨hP, hl⟩ hround => by
      obtain ⟨hx, hr⟩ | ⟨a, cs', ha, hcs', hx⟩ := listRound_eq_ok hround <;> cases hx
      exact ⟨hP, by omega, by omega⟩)
    (fun ⟨hP, hl⟩ hround => by
      obtain ⟨hx, -⟩ | ⟨a, cs', ha, hcs', hx⟩ := listRound_eq_ok hround <;> cases hx
      have hr := hshrinks _ _ _ ha
      refine ⟨hcons (hitem (by omega) ha) hP, ?_, by omega⟩
      rw [id, List.length_cons]
      omega)
    ⟨fun a ha => absurd ha List.not_mem_nil, by simp⟩ hacc
  rw [List.length_reverse]
  exact ⟨fun a ha => hall.1 a (List.mem_reverse.mp ha), hall.2⟩

end List

/-! ## Values -/

theorem memberWith_eq_ok {item : Part Json} {e : String × Json}
    (h : memberWith item cs = .ok (e, r)) :
    ∃ cs', cs'.length ≤ cs.length ∧ item cs' = .ok (e.2, r) := by
  unfold memberWith at h
  obtain ⟨_, r₁, h₁, h⟩ := bind_eq_ok_iff.mp h
  obtain ⟨_, r₂, h₂, h⟩ := bind_eq_ok_iff.mp h
  obtain ⟨key, r₃, h₃, h⟩ := bind_eq_ok_iff.mp h
  obtain ⟨_, r₄, h₄, h⟩ := bind_eq_ok_iff.mp h
  obtain ⟨_, r₅, h₅, h⟩ := bind_eq_ok_iff.mp h
  obtain ⟨j, _, hj, h⟩ := bind_eq_ok_iff.mp h
  cases h
  have hl₁ := shrinks_skipSpace _ _ _ h₁
  have hl₂ := shrinks_expect _ _ _ _ h₂
  have hl₃ := shrinks_stringBody _ _ _ h₃
  have hl₄ := shrinks_skipSpace _ _ _ h₄
  have hl₅ := shrinks_expect _ _ _ _ h₅
  exact ⟨r₅, by omega, hj⟩

theorem shrinks_memberWith {item : Part Json} (h : Shrinks item) : Shrinks (memberWith item) := by
  intro cs e r he
  obtain ⟨cs', hcs', hitem⟩ := memberWith_eq_ok he
  exact Nat.le_trans (h _ _ _ hitem) hcs'

theorem shrinks_listOf {α : Type} {item : Part α} (h : Shrinks item) (closing : Char) :
    Shrinks (listOf item closing) := fun _ _ _ hlist =>
  (listOf_eq_ok (P := fun _ => True) h (fun _ _ => trivial) hlist).2.2

theorem eq_cons_of_expect {c : Char} (h : expect c cs = .ok ((), r)) : cs = c :: r := by
  unfold expect at h
  obtain ⟨found, r', heat, h⟩ := bind_eq_ok_iff.mp h
  split at h
  · next hfound =>
    cases h
    unfold eat at heat
    split at heat
    · split at heat
      · next hc =>
        cases heat
        rw [hc]
      · cases heat
        cases hfound
    · cases heat
      cases hfound
  · cases h

section Nested

variable {nested : Option (Part Json)} {next : Option Char}

theorem shrinks_valueFrom (hnested : ∀ item, nested = some item → Shrinks item) :
    Shrinks (valueFrom nested next) := by
  unfold valueFrom
  split
  · exact (shrinks_expectAll _).bind fun _ => shrinks_pure _
  · exact (shrinks_expectAll _).bind fun _ => shrinks_pure _
  · exact (shrinks_expectAll _).bind fun _ => shrinks_pure _
  · exact (shrinks_expect _).bind fun _ => shrinks_stringBody.bind fun _ => shrinks_pure _
  · split
    · exact shrinks_refuse
    · next item =>
      have hlist := shrinks_listOf (hnested item rfl) ']'
      exact (shrinks_expect _).bind fun _ => hlist.bind fun _ => shrinks_pure _
  · split
    · exact shrinks_refuse
    · next item =>
      have hlist := shrinks_listOf (shrinks_memberWith (hnested item rfl)) '\x7d'
      exact (shrinks_expect _).bind fun _ => hlist.bind fun _ => shrinks_pure _
  · exact shrinks_number.bind fun _ => shrinks_pure _

/-- The reader gives regular values, with integers that a document can hold; and a machine can hold
them if it can hold the text. -/
def Regularly (item : Part Json) : Prop :=
  ∀ {cs j r}, cs.length < 18446744073709551616 → item cs = .ok (j, r) →
    j.Regular Number.Exact ∧ j.Holdable

theorem regularly_valueFrom (hshrinks : ∀ item, nested = some item → Shrinks item)
    (hnested : ∀ item, nested = some item → Regularly item) : Regularly (valueFrom nested next) := by
  intro cs j r hcs h
  unfold valueFrom at h
  split at h
  · obtain ⟨_, _, -, h⟩ := bind_eq_ok_iff.mp h
    cases h
    exact ⟨.null, Json.holdable_null⟩
  · obtain ⟨_, _, -, h⟩ := bind_eq_ok_iff.mp h
    cases h
    exact ⟨.bool true, Json.holdable_bool true⟩
  · obtain ⟨_, _, -, h⟩ := bind_eq_ok_iff.mp h
    cases h
    exact ⟨.bool false, Json.holdable_bool false⟩
  · obtain ⟨_, _, -, h⟩ := bind_eq_ok_iff.mp h
    obtain ⟨s, _, -, h⟩ := bind_eq_ok_iff.mp h
    cases h
    exact ⟨.str s, Json.holdable_str s⟩
  · split at h
    · cases h
    · next item =>
      obtain ⟨_, cs', hopen, h⟩ := bind_eq_ok_iff.mp h
      obtain ⟨items, _, hitems, h⟩ := bind_eq_ok_iff.mp h
      cases h
      rw [eq_cons_of_expect hopen, List.length_cons] at hcs
      obtain ⟨hall, hcount, -⟩ := listOf_eq_ok (hshrinks item rfl)
        (fun hl hj => hnested item rfl (by omega) hj) hitems
      exact ⟨.arr fun j hj => (hall j hj).1,
        Json.holdable_arr.mpr ⟨by omega, fun j hj => (hall j hj).2⟩⟩
  · split at h
    · cases h
    · next item =>
      obtain ⟨_, cs', hopen, h⟩ := bind_eq_ok_iff.mp h
      obtain ⟨members, _, hmembers, h⟩ := bind_eq_ok_iff.mp h
      cases h
      rw [eq_cons_of_expect hopen, List.length_cons] at hcs
      obtain ⟨hall, hcount, -⟩ := listOf_eq_ok
        (P := fun e => e.2.Regular Number.Exact ∧ e.2.Holdable) (shrinks_memberWith (hshrinks item rfl))
        (fun hl he => by
          obtain ⟨cs'', hl', hj⟩ := memberWith_eq_ok he
          exact hnested item rfl (by omega) hj) hmembers
      exact ⟨Json.regular_ofMembers fun e he => (hall e he).1,
        Json.holdable_ofMembers (by omega) fun e he => (hall e he).2⟩
  · obtain ⟨n, _, hn, h⟩ := bind_eq_ok_iff.mp h
    cases h
    exact ⟨.num (exact_of_number hn), Json.holdable_of_children_eq_nil rfl⟩

end Nested

/-- **Values are read regularly**, and from the front of the text. -/
theorem regularly_value (d : Nat) : Shrinks (value d) ∧ Regularly (value d) := by
  have hvalue : ∀ {nested : Option (Part Json)}, (∀ item, nested = some item → Shrinks item) →
      (∀ item, nested = some item → Regularly item) →
      Shrinks (do skipSpace; valueFrom nested (← peek)) ∧
        Regularly (do skipSpace; valueFrom nested (← peek)) := by
    intro nested hshrinks hnested
    refine ⟨shrinks_skipSpace.bind fun _ => shrinks_peek.bind fun _ => shrinks_valueFrom hshrinks, ?_⟩
    intro cs j r hcs h
    obtain ⟨_, r₁, h₁, h⟩ := bind_eq_ok_iff.mp h
    obtain ⟨next, r₂, h₂, h⟩ := bind_eq_ok_iff.mp h
    have hl₁ := shrinks_skipSpace _ _ _ h₁
    have hl₂ := shrinks_peek _ _ _ h₂
    exact regularly_valueFrom hshrinks hnested (by omega) h
  induction d with
  | zero => exact hvalue nofun nofun
  | succ d ih =>
    refine hvalue (fun item hitem => ?_) fun item hitem => ?_ <;> cases hitem
    · exact ih.1
    · exact ih.2

end Reader

open Text.Scanner in
/-- **A document that is read is regular**, with integers that a document can hold, and a machine can
hold it if it can hold the text. -/
theorem Json.regular_of_read? {text : String} {j : Json}
    (hshort : text.length < 18446744073709551616) (h : Json.read? text = some j) :
    j.Regular Number.Exact ∧ j.Holdable := by
  unfold Json.read? Text.Scanner.complete at h
  split at h
  · cases h
  · next hd =>
    unfold Reader.document at hd
    obtain ⟨j', _, hj, hd⟩ := bind_eq_ok_iff.mp hd
    obtain ⟨_, _, -, hd⟩ := bind_eq_ok_iff.mp hd
    cases hd
    cases h
    exact (Reader.regularly_value _).2 (by rwa [String.length_toList]) hj
  · cases h

end StepFlow
