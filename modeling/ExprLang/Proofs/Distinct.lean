import ExprLang.Proofs.Checked
import Mathlib.Data.List.Pairwise

/-!
No two entries of a table are written as one. The check of a definition folds whole texts, while a
text is matched character by character. The two agree, but for the capital sigma: its lowercase in a
whole text depends on its neighbours.
-/

namespace ExprLang

/-! Texts written at one place -/

theorem Unicode.lowercaseFrom_eq_flatMap {text : List Char} (plain : 'Σ' ∉ text)
    (before : List Char) : lowercaseFrom before text = text.flatMap lowercase := by
  induction text generalizing before with
  | nil => rfl
  | cons c rest ih =>
      have other : c ≠ 'Σ' := fun same => plain (same ▸ List.mem_cons_self)
      have later := ih (fun member => plain (List.mem_cons_of_mem _ member)) (c :: before)
      simp [lowercaseFrom, other, later]

namespace Text

variable {text : Text} {caseSensitive : Bool} {position : Nat}

/-- Without case sensitivity two texts that are written at one place have the same lowercase, with
it they are one text. -/
theorem spells_alike {a b : List Char} (sameLength : a.length = b.length)
    (spellsA : text.spells caseSensitive a position = true)
    (spellsB : text.spells caseSensitive b position = true) :
    a.flatMap Unicode.lowercase = b.flatMap Unicode.lowercase ∧ (caseSensitive = true → a = b) := by
  induction a generalizing b position with
  | nil =>
      have none := List.eq_nil_of_length_eq_zero sameLength.symm
      subst none
      exact ⟨rfl, fun _ => rfl⟩
  | cons x xs ih =>
      cases b with
      | nil => cases sameLength
      | cons y ys =>
          unfold spells at spellsA spellsB
          cases found : text[position]? with
          | none => simp [found] at spellsA
          | some actual =>
              simp only [found, Bool.and_eq_true] at spellsA spellsB
              obtain ⟨sameTail, equalTail⟩ :=
                ih (Nat.succ.inj sameLength) spellsA.2 spellsB.2
              have here := spellsA.1
              have there := spellsB.1
              simp only [sameChar, Bool.or_eq_true, beq_iff_eq, Bool.and_eq_true,
                Bool.not_eq_true'] at here there
              constructor
              · have lowX : Unicode.lowercase actual = Unicode.lowercase x :=
                  here.elim (congrArg _) (·.2)
                have lowY : Unicode.lowercase actual = Unicode.lowercase y :=
                  there.elim (congrArg _) (·.2)
                simp only [List.flatMap_cons, sameTail, ← lowX, lowY]
              · intro sensitive
                have equalX := here.resolve_right (by simp [sensitive])
                have equalY := there.resolve_right (by simp [sensitive])
                rw [← equalX, ← equalY, equalTail sensitive]

end Text

namespace Grammar

/-- Folding a whole text of the tables is folding its characters one by one. -/
def FoldsByCharacter (grammar : Grammar) : Prop :=
  grammar.caseSensitive = true ∨
    (∀ keyword ∈ grammar.keywords, 'Σ' ∉ keyword.text.toList) ∧
      ∀ operator ∈ grammar.operators, ∀ part ∈ operator.nameParts, 'Σ' ∉ part.toList

variable {grammar : Grammar} {text : Text} {position : Nat}

theorem fold_eq_of_isSymbolAt {a b : String} (sameLength : a.length = b.length)
    (plain : grammar.caseSensitive = true ∨ 'Σ' ∉ a.toList ∧ 'Σ' ∉ b.toList)
    (writtenA : grammar.isSymbolAt text position a = true)
    (writtenB : grammar.isSymbolAt text position b = true) :
    fold grammar.caseSensitive a = fold grammar.caseSensitive b := by
  have spellsA := (Bool.and_eq_true_iff.mp (Bool.and_eq_true_iff.mp writtenA).1).2
  have spellsB := (Bool.and_eq_true_iff.mp (Bool.and_eq_true_iff.mp writtenB).1).2
  obtain ⟨sameLower, equal⟩ := Text.spells_alike
    (by simpa only [String.length_toList] using sameLength) spellsA spellsB
  by_cases sensitive : grammar.caseSensitive = true
  · rw [String.toList_injective (equal sensitive)]
  · obtain ⟨plainA, plainB⟩ := plain.resolve_left sensitive
    simp only [fold, sensitive, Bool.false_eq_true, ↓reduceIte, Unicode.lowercaseText,
      Unicode.lowercaseFrom_eq_flatMap plainA, Unicode.lowercaseFrom_eq_flatMap plainB, sameLower]

/-- Neither list of words holds a capital sigma where case is ignored. -/
def PlainWords (caseSensitive : Bool) (a b : List String) : Prop :=
  caseSensitive = true ∨ (∀ part ∈ a, 'Σ' ∉ part.toList) ∧ ∀ part ∈ b, 'Σ' ∉ part.toList

theorem PlainWords.head {caseSensitive : Bool} {part other : String} {a b : List String}
    (plain : PlainWords caseSensitive (part :: a) (other :: b)) :
    caseSensitive = true ∨ 'Σ' ∉ part.toList ∧ 'Σ' ∉ other.toList :=
  plain.imp_right fun ⟨inA, inB⟩ => ⟨inA _ List.mem_cons_self, inB _ List.mem_cons_self⟩

theorem PlainWords.tail {caseSensitive : Bool} {part other : String} {a b : List String}
    (plain : PlainWords caseSensitive (part :: a) (other :: b)) : PlainWords caseSensitive a b :=
  plain.imp_right fun ⟨inA, inB⟩ =>
    ⟨fun part member => inA part (List.mem_cons_of_mem _ member),
      fun part member => inB part (List.mem_cons_of_mem _ member)⟩

/-- Words that are spelled with the same spans stand at the same places. -/
theorem folds_eq_of_moreSpans {a b : List String} {spans : List (Nat × Nat)}
    (plain : PlainWords grammar.caseSensitive a b)
    (spelledA : grammar.moreSpans? text position a = some spans)
    (spelledB : grammar.moreSpans? text position b = some spans) :
    a.map (fold grammar.caseSensitive) = b.map (fold grammar.caseSensitive) := by
  induction a generalizing b position spans with
  | nil =>
      cases spelledA
      cases b with
      | nil => rfl
      | cons other rest => simp [moreSpans?] at spelledB
  | cons part rest ih =>
      cases b with
      | nil =>
          cases spelledB
          simp [moreSpans?] at spelledA
      | cons other others =>
          simp only [moreSpans?, Option.ite_none_left_eq_some, Option.ite_none_right_eq_some,
            Option.map_eq_some_iff] at spelledA spelledB
          obtain ⟨-, writtenA, laterA, spelledA, rfl⟩ := spelledA
          obtain ⟨-, writtenB, laterB, spelledB, same⟩ := spelledB
          injection same with sameSpan sameLater
          have sameLength : part.length = other.length := (Prod.mk.inj sameSpan).2.symm
          subst sameLater
          rw [← sameLength] at spelledB
          rw [List.map_cons, List.map_cons, ih plain.tail spelledA spelledB,
            fold_eq_of_isSymbolAt sameLength plain.head writtenA writtenB]

theorem folds_eq_of_spans {a b : List String} {spans : List (Nat × Nat)}
    (plain : PlainWords grammar.caseSensitive a b)
    (spelledA : grammar.spans? text position a = some spans)
    (spelledB : grammar.spans? text position b = some spans) :
    a.map (fold grammar.caseSensitive) = b.map (fold grammar.caseSensitive) := by
  cases a with
  | nil =>
      cases spelledA
      cases b with
      | nil => rfl
      | cons other rest => simp [spans?] at spelledB
  | cons part rest =>
      cases b with
      | nil =>
          cases spelledB
          simp [spans?] at spelledA
      | cons other others =>
          simp only [spans?, Option.ite_none_right_eq_some, Option.map_eq_some_iff]
            at spelledA spelledB
          obtain ⟨writtenA, laterA, spelledA, rfl⟩ := spelledA
          obtain ⟨writtenB, laterB, spelledB, same⟩ := spelledB
          injection same with sameSpan sameLater
          have sameLength : part.length = other.length := (Prod.mk.inj sameSpan).2.symm
          subst sameLater
          rw [← sameLength] at spelledB
          rw [List.map_cons, List.map_cons, folds_eq_of_moreSpans plain.tail spelledA spelledB,
            fold_eq_of_isSymbolAt sameLength plain.head writtenA writtenB]

/-! What the check of a table compares -/

theorem folds_distinct_of_checkKeywords {fold : String → String} {keywords : List Keyword}
    {ids : List KeywordId} {texts : List String}
    (checked : checkKeywords fold ids texts keywords = .ok ()) :
    (∀ keyword ∈ keywords, fold keyword.text ∉ texts) ∧
      keywords.Pairwise fun a b => fold a.text ≠ fold b.text := by
  induction keywords generalizing ids texts with
  | nil => exact ⟨nofun, List.Pairwise.nil⟩
  | cons first rest ih =>
      unfold checkKeywords at checked
      split at checked
      · cases checked
      · split at checked
        · cases checked
        · split at checked
          · cases checked
          · rename_i fresh
            obtain ⟨absent, apart⟩ := ih checked
            constructor
            · rintro keyword (_ | ⟨_, member⟩) seen
              · exact fresh seen
              · exact absent keyword member (List.mem_cons_of_mem _ seen)
            · apply List.Pairwise.cons _ apart
              intro keyword member same
              exact absent keyword member (same ▸ List.mem_cons_self)

/-- What the check compares of an operator. -/
def signature (fold : String → String) (nameParts : List String) (kind : OperatorKind) :
    List String × OperatorKind :=
  (nameParts.map fold, kind)

theorem signatures_distinct_of_checkOperators {fold : String → String}
    {entries : List OperatorEntry} {signatures : List (List String × OperatorKind)} {index : Nat}
    (checked : checkOperators fold signatures index entries = .ok ()) :
    (∀ entry ∈ entries, signature fold entry.nameParts entry.kind ∉ signatures) ∧
      entries.Pairwise fun a b =>
        signature fold a.nameParts a.kind ≠ signature fold b.nameParts b.kind := by
  induction entries generalizing signatures index with
  | nil => exact ⟨nofun, List.Pairwise.nil⟩
  | cons first rest ih =>
      unfold checkOperators at checked
      dsimp only at checked
      split at checked
      · cases checked
      · split at checked
        · cases checked
        · rename_i fresh
          obtain ⟨absent, apart⟩ := ih checked
          constructor
          · rintro entry (_ | ⟨_, member⟩) seen
            · exact fresh seen
            · exact absent entry member (List.mem_cons_of_mem _ seen)
          · apply List.Pairwise.cons _ apart
            intro entry member same
            exact absent entry member (same ▸ List.mem_cons_self)

/-- Numbering keeps the names and kinds in their order. -/
theorem map_signature_numberOperators (fold : String → String) (free : List Nat)
    (entries : List OperatorEntry) :
    (numberOperators free entries).map (fun operator => signature fold operator.nameParts operator.kind)
      = entries.map fun entry => signature fold entry.nameParts entry.kind := by
  induction entries generalizing free with
  | nil => rfl
  | cons entry rest ih =>
      unfold numberOperators
      dsimp only
      split <;> simp only [List.map_cons, ih]

/-! Uniqueness -/

variable {config : Config} {isLiteralChar : Char → Nat → Bool} {extensions : List Extension}

theorem keywords_apart (checked : Checked config isLiteralChar extensions grammar)
    (simple : grammar.FoldsByCharacter) (text : Text) (position : Nat) :
    grammar.keywords.Pairwise fun a b => a.text.length = b.text.length →
      ¬(grammar.isSymbolAt text position a.text = true ∧
        grammar.isSymbolAt text position b.text = true) := by
  have distinct : grammar.keywords.Pairwise fun a b =>
      fold grammar.caseSensitive a.text ≠ fold grammar.caseSensitive b.text := by
    rw [checked.tables]
    exact (folds_distinct_of_checkKeywords checked.keywords).2
  apply distinct.imp_of_mem
  rintro a b inA inB differ sameLength ⟨writtenA, writtenB⟩
  apply differ
  exact fold_eq_of_isSymbolAt sameLength
    (simple.imp_right fun plain => ⟨plain.1 a inA, plain.1 b inB⟩) writtenA writtenB

theorem operators_apart (checked : Checked config isLiteralChar extensions grammar)
    (simple : grammar.FoldsByCharacter) (text : Text) (position : Nat) :
    grammar.operators.Pairwise fun a b => a.kind = b.kind → ∀ spans,
      ¬(grammar.spans? text position a.nameParts = some spans ∧
        grammar.spans? text position b.nameParts = some spans) := by
  let key := fun operator : Operator =>
    signature (fold grammar.caseSensitive) operator.nameParts operator.kind
  have distinct : grammar.operators.Pairwise fun a b => key a ≠ key b := by
    have operators : grammar.operators = operatorsOf config.operators :=
      congrArg Grammar.operators checked.tables
    have sensitivity : grammar.caseSensitive = config.caseSensitive :=
      congrArg Grammar.caseSensitive checked.tables
    have table : grammar.operators.map key =
        config.operators.map fun entry =>
          signature (fold grammar.caseSensitive) entry.nameParts entry.kind := by
      rw [operators]
      exact map_signature_numberOperators _ _ _
    have inTable := (signatures_distinct_of_checkOperators checked.operators).2
    rw [← sensitivity] at inTable
    have inNames := List.pairwise_map.mpr inTable
    rw [← table] at inNames
    exact List.pairwise_map.mp inNames
  apply distinct.imp_of_mem
  rintro a b inA inB differ sameKind spans ⟨spelledA, spelledB⟩
  apply differ
  have sameFolds := folds_eq_of_spans
    (simple.imp_right fun plain => ⟨plain.2 a inA, plain.2 b inB⟩) spelledA spelledB
  exact Prod.ext sameFolds sameKind

/-- No keyword in the row is longer than the one that is kept. -/
theorem length_le_of_longest {keywords : List Keyword} {best : Option Keyword} {kept : Keyword}
    (last : keywords.foldl longerKeyword best = some kept) :
    (∀ other, best = some other → other.text.length ≤ kept.text.length) ∧
      ∀ keyword ∈ keywords, keyword.text.length ≤ kept.text.length := by
  induction keywords generalizing best with
  | nil =>
      refine ⟨fun other before => ?_, nofun⟩
      cases before.symm.trans last
      exact Nat.le_refl _
  | cons keyword rest ih =>
      obtain ⟨kept, later⟩ := ih last
      constructor
      · rintro other rfl
        unfold longerKeyword at kept
        dsimp only at kept
        split at kept
        · rename_i shorter
          exact Nat.le_trans shorter (kept keyword rfl)
        · exact kept other rfl
      · rintro other (_ | ⟨_, member⟩)
        case tail => exact later other member
        cases best with
        | none => exact kept keyword rfl
        | some other =>
            unfold longerKeyword at kept
            dsimp only at kept
            split at kept
            · exact kept keyword rfl
            · rename_i longer
              exact Nat.le_trans (Nat.le_of_not_le longer) (kept other rfl)

/-- The operators that are spelled with these words. -/
theorem filter_spellings (spans : List (Nat × Nat)) :
    ((grammar.spellings text position).filter (·.spans == spans)).map (·.operator) =
      grammar.operators.filter fun operator =>
        grammar.spans? text position operator.nameParts == some spans := by
  unfold spellings
  induction grammar.operators with
  | nil => rfl
  | cons operator rest ih =>
      cases spelled : grammar.spans? text position operator.nameParts with
      | none => simpa [List.filterMap_cons, List.filter_cons, spelled] using ih
      | some found =>
          by_cases equal : found = spans
          · simpa [List.filterMap_cons, List.filter_cons, spelled, equal] using ih
          · simpa [List.filterMap_cons, List.filter_cons, spelled, equal] using ih

/-- Every candidate is an operator of the table that is spelled like the chosen one. -/
theorem candidates_of_operatorAt {afterOperand : Bool} {written : OperatorMatch}
    (found : grammar.operatorAt? text position afterOperand = some written) :
    ∃ spans, written.candidates = grammar.operators.filter fun operator =>
      grammar.spans? text position operator.nameParts == some spans := by
  unfold operatorAt? at found
  dsimp only at found
  split at found
  · cases found
  · rename_i best chosen
    split at found
    · cases found
    · rename_i first others chosenOperators
      cases found
      exact ⟨best.spans, chosenOperators.symm.trans (filter_spellings best.spans)⟩

/-- Where folding a text of the tables is folding its characters, two entries that are written as
one are refused: the longest keyword at a place is unique, and so is the candidate of each kind. -/
theorem matches_are_unique (built : build config isLiteralChar extensions = .ok grammar)
    (simple : grammar.FoldsByCharacter) (text : Text) (position : Nat) :
    (grammar.keywords.Pairwise fun a b => a.text.length = b.text.length →
      ¬(grammar.isSymbolAt text position a.text = true ∧
        grammar.isSymbolAt text position b.text = true)) ∧
    (grammar.operators.Pairwise fun a b => a.kind = b.kind → ∀ spans,
      ¬(grammar.spans? text position a.nameParts = some spans ∧
        grammar.spans? text position b.nameParts = some spans)) ∧
    (∀ found, grammar.keywordAt? text position = some found →
      ∀ keyword ∈ grammar.keywords, grammar.isSymbolAt text position keyword.text = true →
        keyword = found ∨ keyword.text.length < found.text.length) ∧
    ∀ afterOperand written, grammar.operatorAt? text position afterOperand = some written →
      written.candidates.Pairwise fun a b => a.kind ≠ b.kind := by
  have checked := checked_of_build built
  have keywordsApart := keywords_apart checked simple text position
  have operatorsApart := operators_apart checked simple text position
  refine ⟨keywordsApart, operatorsApart, ?_, ?_⟩
  · intro found longest keyword member written
    have inTable := (mem_of_foldl longerKeyword_picks longest).resolve_right (by simp)
    obtain ⟨inKeywords, foundWritten⟩ := List.mem_filter.mp inTable
    have short := (length_le_of_longest longest).2 keyword (List.mem_filter.mpr ⟨member, written⟩)
    by_cases same : keyword = found
    · exact Or.inl same
    · apply Or.inr
      apply Nat.lt_of_le_of_ne short
      intro sameLength
      have symmetric : Std.Symm fun a b : Keyword => a.text.length = b.text.length →
          ¬(grammar.isSymbolAt text position a.text = true ∧
            grammar.isSymbolAt text position b.text = true) :=
        ⟨fun a b apart sameLength both => apart sameLength.symm both.symm⟩
      exact keywordsApart.forall member inKeywords same sameLength ⟨written, foundWritten⟩
  · intro afterOperand written found
    obtain ⟨spans, candidates⟩ := candidates_of_operatorAt found
    rw [candidates]
    apply (operatorsApart.filter _).imp_of_mem
    intro a b inA inB apart sameKind
    exact apart sameKind spans ⟨by simpa using (List.mem_filter.mp inA).2,
      by simpa using (List.mem_filter.mp inB).2⟩

/-- The name of one letter more than a sigma, once in capitals and once not. -/
def sigmaConfig : Config where
  keywords := [⟨1, "ΑΣ"⟩, ⟨2, "ασ"⟩]
  caseSensitive := false
  numericTypes := []

def sigmaGrammar : Grammar where
  keywords := sigmaConfig.keywords
  operators := []
  numericRules := []
  codeBlock := sigmaConfig.codeBlock
  separator := sigmaConfig.separator
  comments := { line := some "//", multiline := some ("/*", "*/") }
  quotes := sigmaConfig.quotes
  textEscape := sigmaConfig.textEscape
  caseSensitive := false
  supportsPrefixes := true
  supportsKeywords := true
  isLiteralChar := stockLiteralChar
  extensions := []

/-- In capitals the sigma ends a word, so the two keywords have different folds and are accepted;
both are written where one of them is. -/
theorem sigma_escapes_the_check :
    build sigmaConfig stockLiteralChar [] = .ok sigmaGrammar ∧
      ¬(sigmaGrammar.keywords.Pairwise fun a b => a.text.length = b.text.length →
        ¬(sigmaGrammar.isSymbolAt (Text.ofString "ασ x") 0 a.text = true ∧
          sigmaGrammar.isSymbolAt (Text.ofString "ασ x") 0 b.text = true)) := by
  constructor
  · have capitals : fold false "ΑΣ" = "ας" := by decide +kernel
    have others : fold false "ασ" = "ασ" := by decide +kernel
    have accepted : checkKeywords (fold false) [] [] sigmaConfig.keywords = .ok () := by
      have visible : isBlankText "ΑΣ" = false ∧ isBlankText "ασ" = false := by decide +kernel
      simp [sigmaConfig, checkKeywords, capitals, others, visible]
    simp only [build, sigmaConfig] at accepted ⊢
    rw [accepted]
    rfl
  · have written : sigmaGrammar.isSymbolAt (Text.ofString "ασ x") 0 "ΑΣ" = true ∧
        sigmaGrammar.isSymbolAt (Text.ofString "ασ x") 0 "ασ" = true := by decide +kernel
    have sameLength : "ΑΣ".length = "ασ".length := by decide +kernel
    intro apart
    have first := (List.pairwise_cons (a := (⟨1, "ΑΣ"⟩ : Keyword)) (l := [⟨2, "ασ"⟩])).mp apart
    exact first.1 ⟨2, "ασ"⟩ List.mem_cons_self sameLength written

theorem words_of_sample_are_unique :
    (build sampleConfig stockLiteralChar [] = .ok (sampleGrammar []) ∧
      (sampleGrammar []).FoldsByCharacter) ∧
    ((sampleGrammar []).operatorAt? (Text.ofString "x is  null") 2 true).map (·.candidates.length) =
      some 1 ∧
    ∀ written, (sampleGrammar []).operatorAt? (Text.ofString "x is  null") 2 true = some written →
      written.candidates.Pairwise fun a b => a.kind ≠ b.kind :=
  ⟨⟨build_sample, Or.inl rfl⟩, by decide +kernel, fun written found =>
    (matches_are_unique build_sample (Or.inl rfl) _ _).2.2.2 true written found⟩

end Grammar

end ExprLang
