import ExprLang.Proofs.Forest.Walk
import ExprLang.Proofs.Language
import ExprLang.Proofs.Parse.Statements
import Mathlib.Data.List.Pairwise

/-!
Which item stands at a position. The search goes down from an item to the first part whose span holds
the position. Spans are nested and those of the parts of one item are apart, so there is one such part
at most, and the search ends at the one item that holds the position while none of its parts does.
-/

namespace ExprLang

namespace Forest

open Relation

/-- The span of an item holds a position. -/
def Spans (forest : Forest) (id position : Nat) : Prop :=
  forest.start id ≤ position ∧ position < forest.stop id

/-- An item at or below `top` that holds a position none of its parts holds. -/
structure Innermost (forest : Forest) (top position id : Nat) : Prop where
  below : ReflTransGen forest.Owns top id
  spans : forest.Spans id position
  alone : ∀ part, forest.Owns id part → ¬ forest.Spans part position

variable {forest : Forest} {top position id other : Nat}

theorem covers_iff_spans : forest.covers id position = true ↔ forest.Spans id position := by
  rw [covers, length, Spans, Bool.and_eq_true, decide_eq_true_iff, decide_eq_true_iff]
  omega

theorem Spans.lt_size (spans : forest.Spans id position) : id < forest.size := by
  by_contra outside
  have stop := stop_of_size_le (Nat.le_of_not_lt outside)
  exact Nat.not_lt_zero _ (stop ▸ spans.2)

section Laid

variable (linked : forest.Linked) (laid : forest.Laid)

include linked laid

/-- Whoever stands above an item holds what the item holds. -/
theorem Spans.above (spans : forest.Spans id position) (path : ReflTransGen forest.Owns top id) :
    forest.Spans top position := by
  have covers := span_of_below linked laid path
  exact ⟨Nat.le_trans covers.1 spans.1, Nat.lt_of_lt_of_le spans.2 covers.2⟩

omit linked in
/-- Of the parts of an item one at most holds a position. -/
theorem part_unique {left right : Nat} (ownsLeft : forest.Owns top left)
    (ownsRight : forest.Owns top right) (inLeft : forest.Spans left position)
    (inRight : forest.Spans right position) : left = right := by
  by_contra different
  have apart : (forest.parts top).all.Pairwise fun x y =>
      forest.stop x ≤ forest.start y ∨ forest.stop y ≤ forest.start x :=
    (laid top).imp fun before => Or.inl before.2
  have : Std.Symm fun x y => forest.stop x ≤ forest.start y ∨ forest.stop y ≤ forest.start x :=
    ⟨fun _ _ => Or.symm⟩
  have either := apart.forall ownsLeft ownsRight different
  have := inLeft.1
  have := inLeft.2
  have := inRight.1
  have := inRight.2
  omega

omit laid in
/-- With a step for each item at or below `id` the search comes to its end. -/
theorem innermost_itemAtWithin {steps : Nat} (enough : forest.weight id ≤ steps)
    (spans : forest.Spans id position) :
    forest.Innermost id position (forest.itemAtWithin position steps id) := by
  induction steps generalizing id with
  | zero => exact absurd (weight_pos spans.lt_size) (Nat.not_lt_of_le enough)
  | succ steps ih =>
      unfold itemAtWithin
      cases found : (forest.parts id).all.find? (forest.covers · position) with
      | none =>
          refine ⟨ReflTransGen.refl, spans, fun part owns inside => ?_⟩
          exact List.find?_eq_none.mp found part owns (covers_iff_spans.mpr inside)
      | some part =>
          have owns : forest.Owns id part := List.mem_of_find?_eq_some found
          have inside := covers_iff_spans.mp (List.find?_some (p := (forest.covers · position)) found)
          have fewer := Nat.lt_of_lt_of_le (linked.weight_lt owns) enough
          have innermost := ih (Nat.le_of_lt_succ fewer) inside
          exact ⟨innermost.below.head owns, innermost.spans, innermost.alone⟩

/-- Both items lie on the way from `top` down to the position, and that way does not fork. -/
theorem Innermost.unique (first : forest.Innermost top position id)
    (second : forest.Innermost top position other) : id = other := by
  obtain ⟨path, inFirst, aloneFirst⟩ := first
  obtain ⟨otherPath, inSecond, aloneSecond⟩ := second
  induction path using ReflTransGen.head_induction_on with
  | refl =>
      rcases otherPath.cases_head with same | ⟨part, owns, path⟩
      · exact same
      · exact absurd (inSecond.above linked laid path) (aloneFirst part owns)
  | head owns path ih =>
      have inPart := inFirst.above linked laid path
      rcases otherPath.cases_head with rfl | ⟨part, ownsPart, otherPath⟩
      · exact absurd inPart (aloneSecond _ owns)
      · have inOther := inSecond.above linked laid otherPath
        obtain rfl := part_unique laid owns ownsPart inPart inOther
        exact ih otherPath

theorem itemAt_eq_some_iff :
    forest.itemAt? top position = some id ↔ forest.Innermost top position id := by
  have ends : forest.Spans top position →
      forest.Innermost top position (forest.itemAtWithin position (forest.size + 1) top) :=
    innermost_itemAtWithin linked (Nat.le_succ_of_le (weight_le_size top))
  unfold itemAt?
  constructor
  · intro found
    split at found
    · rename_i covers
      exact Option.some.inj found ▸ ends (covers_iff_spans.mp covers)
    · cases found
  · intro innermost
    have spans := innermost.spans.above linked laid innermost.below
    rw [if_pos (covers_iff_spans.mpr spans)]
    exact congrArg some ((ends spans).unique linked laid innermost)

end Laid

theorem itemAt_eq_none_iff : forest.itemAt? top position = none ↔ ¬ forest.Spans top position := by
  rw [itemAt?, ← covers_iff_spans]
  split <;> simp_all

/-- A token has no parts that could hold anything. -/
theorem IsToken.innermost_iff (linked : forest.Linked) (isToken : forest.IsToken id) :
    forest.Innermost top position id ↔
      ReflTransGen forest.Owns top id ∧ forest.Spans id position := by
  refine ⟨fun innermost => ⟨innermost.below, innermost.spans⟩, fun ⟨below, spans⟩ =>
    ⟨below, spans, fun part owns => ?_⟩⟩
  rw [Owns, isToken.parts linked] at owns
  cases owns

end Forest

namespace Grammar

variable {grammar : Grammar} {config : Config} {isLiteralChar : Char → Nat → Bool}

/-- Whether a parse comes to the end of its text or stops before, its forest is in order. -/
theorem sound_parse (built : build config isLiteralChar [] = .ok grammar) (text : String) :
    (grammar.parse text).forest.Sound := by
  obtain ⟨named, plain⟩ := named_of_build built
  rcases @finalState_cases _ True named (fun _ => plain) _ (tidy_of_plain plain _) with
    ⟨_, rooted, _⟩ | ⟨_, halted⟩
  · exact rooted.standing.choose_spec.2.sound
  · exact halted.sound

/-- A lookup finds nothing just outside the span of the document. Inside it finds the one item of the
tree that holds the position while none of its parts does; and it finds a token just where one
stands. -/
theorem lookup_finds_the_innermost (built : build config isLiteralChar [] = .ok grammar)
    (text : String) (position : Nat) :
    ((grammar.parse text).itemAt? position = none ↔
        ¬ ((grammar.parse text).start ≤ position ∧
          position < (grammar.parse text).start + (grammar.parse text).length)) ∧
      (∀ id, (grammar.parse text).itemAt? position = some id ↔
        (grammar.parse text).forest.Innermost (grammar.parse text).root position id) ∧
      ∀ token, (grammar.parse text).forest.IsToken token →
        ((grammar.parse text).itemAt? position = some token ↔
          Relation.ReflTransGen (grammar.parse text).forest.Owns (grammar.parse text).root token ∧
            (grammar.parse text).forest.Spans token position) := by
  have sound := sound_parse built text
  have found : ∀ id, (grammar.parse text).itemAt? position = some id ↔
      (grammar.parse text).forest.Innermost (grammar.parse text).root position id := fun id =>
    Forest.itemAt_eq_some_iff sound.linked sound.laid
  have proper := Forest.start_le_stop sound.linked sound.laid (grammar.parse text).root
  refine ⟨?_, found, fun token isToken => (found token).trans (isToken.innermost_iff sound.linked)⟩
  rw [Document.itemAt?, Forest.itemAt_eq_none_iff, Forest.Spans, Document.start, Document.length,
    Forest.length, Nat.add_sub_cancel' proper]

/-- A text with a symbol at which the parser stops in the second statement. -/
def stoppedDocument : Document := (sampleGrammar []).parse "const a; f(b c) # d"

/-- Between the keyword and the name stands neither of them, but the item that has both. -/
theorem lookup_between_keyword_and_name :
    build sampleConfig stockLiteralChar [] = .ok (sampleGrammar []) ∧
      stoppedDocument.faults.hasCritical = true ∧
      stoppedDocument.forest.kind? 2 = some (.literal "a") ∧
      stoppedDocument.itemAt? 5 = some 2 ∧
      stoppedDocument.forest.Innermost stoppedDocument.root 5 2 := by
  have found : stoppedDocument.itemAt? 5 = some 2 := by decide +kernel
  exact ⟨build_sample, by decide +kernel, by decide +kernel, found,
    ((lookup_finds_the_innermost build_sample _ 5).2.1 2).mp found⟩

end Grammar

end ExprLang
