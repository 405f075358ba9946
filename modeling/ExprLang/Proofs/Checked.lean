import ExprLang.Proofs.Language

/-!
What the checks of a definition have seen: every check passed, and the grammar holds the tables of
the definition.
-/

namespace ExprLang.Grammar

/-- The outcome of all checks of a definition, one by one. -/
structure Checked (config : Config) (isLiteralChar : Char → Nat → Bool)
    (extensions : List Extension) (grammar : Grammar) : Prop where
  keywords : checkKeywords (fold config.caseSensitive) [] [] config.keywords = .ok ()
  operatorIds : checkOperatorIds [] config.operators = .ok ()
  operators : checkOperators (fold config.caseSensitive) [] 0 config.operators = .ok ()
  codeBlock : checkPair .codeBlockStart .codeBlockEnd config.codeBlock = .ok ()
  multiline : checkPair .multilineStart .multilineEnd config.multilineComment = .ok ()
  lineComment : ∀ marker, config.lineComment = some marker →
    checkMarker .lineComment marker = .ok ()
  separator : checkSeparator config.separator = .ok ()
  quotes : checkQuotes config.separator config.quotes = .ok ()
  numbers : readNumericRules config.numericTypes = .ok grammar.numericRules
  tables : grammar = {
    keywords := config.keywords
    operators := operatorsOf config.operators
    numericRules := grammar.numericRules
    codeBlock := config.codeBlock
    separator := config.separator
    comments := {
      line := config.lineComment
      multiline := config.multilineComment.map fun pair => (pair.start, pair.stop) }
    quotes := config.quotes
    textEscape := config.textEscape
    caseSensitive := config.caseSensitive
    supportsPrefixes := config.supportsPrefixes
    supportsKeywords := config.supportsKeywords
    isLiteralChar
    extensions }

variable {config : Config} {isLiteralChar : Char → Nat → Bool} {extensions : List Extension}
  {grammar : Grammar}

theorem checked_of_build (built : build config isLiteralChar extensions = .ok grammar) :
    Checked config isLiteralChar extensions grammar := by
  unfold build at built
  dsimp only at built
  obtain ⟨⟨⟩, keywords, built⟩ := ok_of_bind built
  obtain ⟨⟨⟩, operatorIds, built⟩ := ok_of_bind built
  obtain ⟨⟨⟩, operators, built⟩ := ok_of_bind built
  obtain ⟨⟨⟩, codeBlock, built⟩ := ok_of_bind built
  obtain ⟨⟨⟩, multiline, built⟩ := ok_of_bind built
  have lineComment : ∀ marker, config.lineComment = some marker →
      checkMarker .lineComment marker = .ok () := by
    intro marker given
    rw [given] at built
    obtain ⟨⟨⟩, checked, _⟩ := ok_of_bind built
    exact checked
  split at built
  case' h_2 => obtain ⟨_, _, built⟩ := ok_of_bind built
  all_goals
    obtain ⟨⟨⟩, separator, built⟩ := ok_of_bind built
    obtain ⟨⟨⟩, quotes, built⟩ := ok_of_bind built
    obtain ⟨_, _, built⟩ := ok_of_bind built
    obtain ⟨rules, numbers, built⟩ := ok_of_bind built
    cases built
    exact {
      keywords, operatorIds, operators, codeBlock, multiline, lineComment, separator, quotes, numbers
      tables := rfl }

end ExprLang.Grammar
