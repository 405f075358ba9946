import ExprLang.Proofs.Forest.Walk
import ExprLang.Proofs.Language
import ExprLang.Proofs.Parse.Statements

/-!
Names and keywords. Where a name can stand the parser looks for keywords first, with one exception: a
run of keywords that begins with a repeated one finds nothing new, and the parser takes that for no
keyword at all and goes on to the operand. So a keyword is read as a name only behind two repeated
keywords that follow one another, the one that ended the run before and the one that ended this run.
-/

namespace ExprLang

open ParseState

namespace Grammar

variable {grammar : Grammar} {config : Config} {isLiteralChar : Char → Nat → Bool}

/-- Wherever a parse ends, its names stand where names can be read. -/
theorem nameable_of_name (built : build config isLiteralChar [] = .ok grammar) (text : String)
    {token : ItemId} {word : String}
    (isName : (grammar.parse text).forest.kind? token = some (.token .name word)) :
    grammar.Nameable (Text.ofString text) (grammar.parse text).faults
      ((grammar.parse text).forest.start token) := by
  obtain ⟨named, plain⟩ := named_of_build built
  obtain ⟨item, found, kind⟩ := Option.map_eq_some_iff.mp isName
  have isToken : item.isToken = true := by rw [Item.isToken, kind]; rfl
  rcases @finalState_cases _ True named (fun _ => plain) _ (tidy_of_plain plain _) with
    ⟨_, rooted, _⟩ | ⟨_, halted⟩
  · obtain ⟨_, _, standing⟩ := rooted.standing
    have nameable := (standing.strict trivial).named token item .name word found kind rfl
    rw [standing.text, ← (Forest.span_of_token standing.sound.linked found isToken).1] at nameable
    exact nameable
  · have nameable := halted.named trivial token item .name word found kind rfl
    rw [halted.text, ← (Forest.span_of_token halted.sound.linked found isToken).1] at nameable
    exact nameable

/-- A name stands where a keyword is written only directly behind two repeated keywords that follow one
another, and both of them have been reported. -/
theorem names_at_keywords_follow_repeats (built : build config isLiteralChar [] = .ok grammar)
    (supported : grammar.supportsKeywords = true) (text : String) (token : ItemId) (word : String)
    (isName : (grammar.parse text).forest.kind? token = some (.token .name word))
    (isKeyword : grammar.keywordAt? (Text.ofString text)
      ((grammar.parse text).forest.start token) ≠ none) :
    grammar.DroppedTwice (Text.ofString text) (grammar.parse text).faults
      ((grammar.parse text).forest.start token) :=
  (nameable_of_name built text isName supported).resolve_left isKeyword

/-- The fourth of these keywords is read as a name. -/
theorem keyword_behind_two_repeats :
    build sampleConfig stockLiteralChar [] = .ok (sampleGrammar []) ∧
      ((sampleGrammar []).parse "const const const const x").forest.kind? 3 =
        some (.token .name "const") ∧
      (sampleGrammar []).DroppedTwice (Text.ofString "const const const const x")
        ((sampleGrammar []).parse "const const const const x").faults
        (((sampleGrammar []).parse "const const const const x").forest.start 3) :=
  ⟨build_sample, by decide +kernel,
    names_at_keywords_follow_repeats build_sample rfl _ 3 "const" (by decide +kernel)
      (by decide +kernel)⟩

/-- A literal stands where a keyword is written. -/
theorem literal_at_keyword :
    ((sampleGrammar []).parse "const const const const x").forest.kind? 2 = some (.literal "const") ∧
      ((sampleGrammar []).parse "const const const const x").forest.start 2 = 18 ∧
      (sampleGrammar []).keywordAt? (Text.ofString "const const const const x") 18 =
        some ⟨2, "const"⟩ := by
  decide +kernel

end Grammar

end ExprLang
