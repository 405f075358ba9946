import ExprLang.Proofs.Written

/-!
What the checks of a definition give: the operators of a grammar have names, and its extensions are
those that it was built with.
-/

namespace ExprLang.Grammar

theorem ok_of_bind {ε α β : Type} {step : Except ε α} {next : α → Except ε β} {result : β}
    (run : step >>= next = .ok result) : ∃ value, step = .ok value ∧ next value = .ok result := by
  cases step with
  | error => cases run
  | ok value => exact ⟨value, rfl, run⟩

theorem nameProblem_of_checkOperators {fold : String → String} {entries : List OperatorEntry}
    {signatures : List (List String × OperatorKind)} {index : Nat}
    (checked : checkOperators fold signatures index entries = .ok ()) :
    ∀ entry ∈ entries, nameProblem? entry.nameParts = none := by
  induction entries generalizing signatures index with
  | nil => nofun
  | cons first rest ih =>
      unfold checkOperators at checked
      split at checked
      · cases checked
      · rename_i fine
        dsimp only at checked
        split at checked
        · cases checked
        · exact List.forall_mem_cons.mpr ⟨fine, ih checked⟩

/-- Numbering changes no name. -/
theorem nameParts_of_numberOperators {free : List Nat} {entries : List OperatorEntry}
    {operator : Operator} (member : operator ∈ numberOperators free entries) :
    ∃ entry ∈ entries, entry.nameParts = operator.nameParts := by
  induction entries generalizing free with
  | nil => cases member
  | cons first rest ih =>
      unfold numberOperators at member
      dsimp only at member
      split at member <;>
        · rcases List.mem_cons.mp member with rfl | later
          · exact ⟨first, List.mem_cons_self, rfl⟩
          · obtain ⟨entry, inRest, same⟩ := ih later
            exact ⟨entry, List.mem_cons_of_mem _ inRest, same⟩

variable {config : Config} {isLiteralChar : Char → Nat → Bool} {extensions : List Extension}
  {grammar : Grammar}

/-- Once the definition has been read its table of operators has been checked. -/
theorem named_of_build (built : build config isLiteralChar extensions = .ok grammar) :
    grammar.Named ∧ grammar.extensions = extensions := by
  unfold build at built
  dsimp only at built
  obtain ⟨_, _, built⟩ := ok_of_bind built
  obtain ⟨_, _, built⟩ := ok_of_bind built
  obtain ⟨_, checked, built⟩ := ok_of_bind built
  obtain ⟨_, _, built⟩ := ok_of_bind built
  obtain ⟨_, _, built⟩ := ok_of_bind built
  have fields : grammar.operators = operatorsOf config.operators ∧ grammar.extensions = extensions := by
    split at built
    case' h_2 => obtain ⟨_, _, built⟩ := ok_of_bind built
    all_goals
      obtain ⟨_, _, built⟩ := ok_of_bind built
      obtain ⟨_, _, built⟩ := ok_of_bind built
      obtain ⟨_, _, built⟩ := ok_of_bind built
      obtain ⟨_, _, built⟩ := ok_of_bind built
      cases built
      exact ⟨rfl, rfl⟩
  refine ⟨fun operator member => ?_, fields.2⟩
  rw [fields.1] at member
  obtain ⟨entry, inTable, same⟩ := nameParts_of_numberOperators member
  have fine := nameProblem_of_checkOperators checked entry inTable
  rintro none
  simp [nameProblem?, same, none] at fine

/-! A small language to try laws on. -/

def sampleConfig : Config where
  keywords := [⟨1, "word"⟩, ⟨2, "const"⟩]
  operators := [.ofName "+" .binary 4, .ofName "is null" .postfixOp 1]
  numericTypes := []

def sampleGrammar (extensions : List Extension) : Grammar where
  keywords := sampleConfig.keywords
  operators := operatorsOf sampleConfig.operators
  numericRules := []
  codeBlock := sampleConfig.codeBlock
  separator := sampleConfig.separator
  comments := { line := some "//", multiline := some ("/*", "*/") }
  quotes := sampleConfig.quotes
  textEscape := sampleConfig.textEscape
  caseSensitive := true
  supportsPrefixes := true
  supportsKeywords := true
  isLiteralChar := stockLiteralChar
  extensions

theorem build_sample : build sampleConfig stockLiteralChar [] = .ok (sampleGrammar []) := rfl

end ExprLang.Grammar
