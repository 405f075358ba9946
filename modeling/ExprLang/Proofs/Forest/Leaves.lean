import ExprLang.Proofs.Forest.Sound

/-!
The walk from left to right over what stands below an item, down to the tokens, but not below the
items at which it is to stop.
-/

namespace ExprLang

/-- What the walk comes to, with its span: an item where it stops, or a token. -/
inductive Leaf where
  | item (id start stop : Nat)
  | token (kind : TokenKind) (text : String) (start stop : Nat)
  deriving DecidableEq, Repr

namespace Forest

/-- Steps down from an item, as many as are given at most. -/
def leavesWithin (forest : Forest) (ends : List ItemId) : Nat → ItemId → List Leaf
  | 0, _ => []
  | steps + 1, id =>
      if id ∈ ends then [.item id (forest.start id) (forest.stop id)] else
      match forest.kind? id with
      | none => []
      | some (.token kind text) => [.token kind text (forest.start id) (forest.stop id)]
      | some _ => (forest.parts id).all.flatMap (leavesWithin forest ends steps)

/-- What the walk comes to that stops at `ends`. -/
def leaves (forest : Forest) (ends : List ItemId) (id : ItemId) : List Leaf :=
  forest.leavesWithin ends forest.size id

variable {forest other : Forest} {ends : List ItemId} {id : Nat}

theorem leavesWithin_complex {kind : ItemKind} {steps : Nat} (isKind : forest.kind? id = some kind)
    (complex : kind.isToken = false) (notEnd : id ∉ ends) :
    forest.leavesWithin ends (steps + 1) id =
      (forest.parts id).all.flatMap (forest.leavesWithin ends steps) := by
  unfold leavesWithin
  rw [if_neg notEnd, isKind]
  cases kind <;> first | rfl | cases complex

/-- With a step for each item at or below `id` the walk comes to its end. -/
theorem Linked.leavesWithin_eq (linked : forest.Linked) (ends : List ItemId) {steps more : Nat}
    (inside : id < forest.size) (enough : forest.weight id ≤ steps) (also : forest.weight id ≤ more) :
    forest.leavesWithin ends steps id = forest.leavesWithin ends more id := by
  induction steps generalizing more id with
  | zero => exact absurd enough (Nat.not_le_of_lt (weight_pos inside))
  | succ steps ih =>
      obtain ⟨less, rfl⟩ : ∃ less, more = less + 1 :=
        ⟨more - 1, by have := weight_pos inside; omega⟩
      obtain ⟨found, here⟩ := get_of_lt inside
      have isKind := kind_of_get here
      by_cases isEnd : id ∈ ends
      · simp only [leavesWithin, isEnd, if_true]
      · by_cases complex : found.kind.isToken = false
        · rw [leavesWithin_complex isKind complex isEnd, leavesWithin_complex isKind complex isEnd]
          refine List.flatMap_congr fun part member => ?_
          have lighter := linked.weight_lt member
          exact ih (linked.part_lt_size member) (by omega) (by omega)
        · cases kind : found.kind with
          | token which text => simp only [leavesWithin, isEnd, if_false, isKind, kind]
          | _ => rw [kind] at complex; exact absurd rfl complex

theorem leaves_end (inside : id < forest.size) (isEnd : id ∈ ends) :
    forest.leaves ends id = [.item id (forest.start id) (forest.stop id)] := by
  obtain ⟨steps, filled⟩ : ∃ steps, forest.size = steps + 1 := ⟨forest.size - 1, by omega⟩
  rw [leaves, filled, leavesWithin, if_pos isEnd]

theorem leaves_token {kind : TokenKind} {text : String} (notEnd : id ∉ ends)
    (isToken : forest.kind? id = some (.token kind text)) :
    forest.leaves ends id = [.token kind text (forest.start id) (forest.stop id)] := by
  have inside := lt_size_of_kind isToken
  obtain ⟨steps, filled⟩ : ∃ steps, forest.size = steps + 1 := ⟨forest.size - 1, by omega⟩
  rw [leaves, filled, leavesWithin, if_neg notEnd, isToken]

/-- The walk goes through the parts of an item, one after the other. -/
theorem Linked.leaves_complex (linked : forest.Linked) {kind : ItemKind} (notEnd : id ∉ ends)
    (isKind : forest.kind? id = some kind) (complex : kind.isToken = false) :
    forest.leaves ends id = (forest.parts id).all.flatMap (forest.leaves ends) := by
  have inside := lt_size_of_kind isKind
  have more := linked.leavesWithin_eq ends inside (weight_le_size id)
    (Nat.le_succ_of_le (weight_le_size id))
  rw [leaves, more, leavesWithin_complex isKind complex notEnd]
  rfl

/-- Two forests that agree on items and all that stands below them have the same leaves there. -/
theorem leaves_agree (linked : forest.Linked) (linkedOther : other.Linked) {K : Nat → Prop}
    (closed : ∀ owner part, K owner → forest.Owns owner part → K part)
    (kinds : ∀ id, K id → id < forest.size ∧ other.kind? id = forest.kind? id)
    (parts : ∀ id, K id → (other.parts id).all = (forest.parts id).all)
    (spans : ∀ id, K id → other.start id = forest.start id ∧ other.stop id = forest.stop id)
    (here : K id) : other.leaves ends id = forest.leaves ends id := by
  induction weight : forest.weight id using Nat.strong_induction_on generalizing id with
  | _ count ih =>
      obtain ⟨inside, sameKind⟩ := kinds id here
      obtain ⟨starts, stops⟩ := spans id here
      obtain ⟨found, isFound⟩ := get_of_lt inside
      have isKind := kind_of_get isFound
      have isKindOther := sameKind.trans isKind
      by_cases isEnd : id ∈ ends
      · rw [leaves_end inside isEnd, leaves_end (lt_size_of_kind isKindOther) isEnd, starts, stops]
      · by_cases complex : found.kind.isToken = false
        · rw [linked.leaves_complex isEnd isKind complex,
            linkedOther.leaves_complex isEnd isKindOther complex, parts id here]
          refine List.flatMap_congr fun part member => ?_
          exact ih _ (weight ▸ linked.weight_lt member) (closed id part here member) rfl
        · cases kind : found.kind with
          | token which text =>
              rw [kind] at isKind isKindOther
              rw [leaves_token isEnd isKind, leaves_token isEnd isKindOther, starts, stops]
          | _ => rw [kind] at complex; exact absurd rfl complex

/-! Changes -/

section Push

variable {new : Item} (linked : forest.Linked) (bare : new.parts = {}) (free : new.parent = none)

include linked bare free

theorem leaves_push_old (inside : id < forest.size) :
    (forest.push new).2.leaves ends id = forest.leaves ends id := by
  refine leaves_agree (K := (· < forest.size)) linked (linked_push bare free linked) ?_ ?_ ?_ ?_ inside
  · exact fun _ _ _ owns => linked.part_lt_size owns
  · exact fun _ inside => ⟨inside, kind_push_old inside⟩
  · exact fun _ _ => congrArg Parts.all (parts_push_old bare)
  · exact fun _ inside => spans_push_old linked bare free inside

end Push

section Link

variable {owner item : Nat} {place : Section} {isChild : Bool} (linked : forest.Linked)
  (attachable : forest.Attachable owner item) (regular : isChild = true → place = .regular)

include linked attachable regular

/-- Only the owner gets other leaves. -/
theorem leaves_link_other (notOwner : id ≠ owner) (inside : id < forest.size) :
    (forest.link owner item place isChild).leaves ends id = forest.leaves ends id := by
  refine leaves_agree (K := fun id => id ≠ owner ∧ id < forest.size) linked
    (attachable.linked linked regular) ?_ ?_ ?_ ?_ ⟨notOwner, inside⟩
  · rintro other part _ owns
    refine ⟨?_, linked.part_lt_size owns⟩
    rintro rfl
    exact linked.not_owned attachable.freeOwner owns
  · exact fun _ both => ⟨both.2, kind_link⟩
  · exact fun _ both => congrArg Parts.all (parts_link_other both.1)
  · exact fun _ both => spans_link_other linked attachable regular both.1

/-- The leaves of a last part come last. -/
theorem leaves_link_last (notEnd : owner ∉ ends) (isLast : (forest.parts owner).beyond place = []) :
    (forest.link owner item place isChild).leaves ends owner =
      forest.leaves ends owner ++ forest.leaves ends item := by
  obtain ⟨owning, found, complex⟩ := attachable.complex
  have isKind := kind_of_get found
  have whole : (forest.parts owner).all = (forest.parts owner).upTo place := by
    rw [Parts.all_eq _ place, isLast, List.append_nil]
  rw [(attachable.linked linked regular).leaves_complex notEnd (kind_link.trans isKind) complex,
    linked.leaves_complex notEnd isKind complex, all_link_owner (get_lt_size found), isLast, ← whole,
    List.flatMap_append, List.flatMap_singleton]
  congr 1
  · refine List.flatMap_congr fun part member => ?_
    exact leaves_link_other linked attachable regular (attachable.part_ne linked member)
      (linked.part_lt_size member)
  · exact leaves_link_other linked attachable regular (Ne.symm attachable.different) attachable.inside

end Link

end Forest

end ExprLang
