import ExprLang.Proofs.Distinct
import ExprLang.Proofs.Stock
import Mathlib

/-!
What is found at a place does not hang on the order of the operator table. A spelling outranks another
one by its kind, its number of words and its number of characters. Where no word goes on behind a place
at which a gap begins, spellings with as many words and characters have the same words; so the spellings
that nothing outranks make up one group, whichever of them comes first.
-/

namespace ExprLang

theorem Text.spells_getElem {text : Text} {caseSensitive : Bool} {symbol : List Char} {place k : Nat}
    {expected : Char} (spelled : text.spells caseSensitive symbol place = true)
    (within : symbol[k]? = some expected) :
    ∃ actual, text[place + k]? = some actual ∧ sameChar caseSensitive actual expected = true := by
  induction symbol generalizing place k with
  | nil => cases within
  | cons c rest ih =>
      unfold spells at spelled
      split at spelled
      · cases spelled
      · rename_i actual here
        obtain ⟨same, later⟩ := Bool.and_eq_true_iff.mp spelled
        cases k with
        | zero =>
            cases within
            exact ⟨actual, here, same⟩
        | succ k =>
            obtain ⟨next, there, alike⟩ := ih later within
            exact ⟨next, by rwa [Nat.add_right_comm, Nat.add_assoc] at there, alike⟩

/-! Gaps begin with a blank or with a marker -/

namespace CommentMarkers

/-- The markers that a comment begins with. -/
def openings (markers : CommentMarkers) : List String :=
  markers.line.toList ++ (markers.multiline.map (·.1)).toList

variable {markers : CommentMarkers} {text : Text} {place : Nat}

theorem opening_of_commentAt {comment : Comment}
    (found : markers.commentAt? text place = some comment) :
    ∃ marker ∈ markers.openings, text.isWritten true place marker = true := by
  rcases Option.or_eq_some_iff.mp found with isLine | ⟨_, isMultiline⟩
  · unfold lineAt? at isLine
    split at isLine
    · cases isLine
    · rename_i marker given
      split at isLine
      · rename_i written
        exact ⟨marker, by simp [openings, given], written⟩
      · cases isLine
  · unfold multilineAt? at isMultiline
    split at isMultiline
    · cases isMultiline
    · rename_i opening closing given
      split at isMultiline
      · rename_i written
        exact ⟨opening, by simp [openings, given], written⟩
      · cases isMultiline

end CommentMarkers

/-- What is written begins with the first character of the symbol. -/
theorem Text.isWritten_first {text : Text} {place : Nat} {symbol : String}
    (written : text.isWritten true place symbol = true) :
    ∃ first, symbol.toList.head? = some first ∧ text[place]? = some first := by
  obtain ⟨filled, spelled⟩ := Bool.and_eq_true_iff.mp written
  cases chars : symbol.toList with
  | nil =>
      rw [String.toList_eq_nil_iff.mp chars] at filled
      cases filled
  | cons first rest =>
      rw [chars] at spelled
      obtain ⟨actual, here, same⟩ := spells_getElem (k := 0) spelled rfl
      obtain rfl : actual = first := by simpa [sameChar] using same
      exact ⟨actual, rfl, here⟩

namespace Grammar

/-- Behind its first character the word has none that counts as the first of a marker that a comment
begins with. -/
def Unmarked (grammar : Grammar) (word : String) : Prop :=
  ∀ marker ∈ grammar.comments.openings, ∀ first ∈ marker.toList.head?,
    ∀ c ∈ word.toList.tail, sameChar grammar.caseSensitive first c = false

instance (grammar : Grammar) (word : String) : Decidable (grammar.Unmarked word) :=
  decidable_of_iff (grammar.comments.openings.all fun marker => marker.toList.head?.all fun first =>
    word.toList.tail.all fun c => !sameChar grammar.caseSensitive first c) (by
      simp only [Unmarked, List.all_eq_true, Option.all_eq_true, Bool.not_eq_true',
        Option.mem_def])

variable {grammar : Grammar} {text : Text} {place : Nat}

/-- Inside a word no gap begins. -/
theorem gapEnd_inside_word {word : String} (solid : Solid word) (unmarked : grammar.Unmarked word)
    (written : grammar.isSymbolAt text place word = true) {k : Nat} (behind : 0 < k)
    (within : k < word.length) : grammar.comments.gapEnd text (place + k) = place + k := by
  have spelled := (Bool.and_eq_true_iff.mp (Bool.and_eq_true_iff.mp written).1).2
  have inside : k < word.toList.length := by rwa [String.length_toList]
  obtain ⟨actual, here, same⟩ :=
    Text.spells_getElem spelled (List.getElem?_eq_getElem inside)
  refine CommentMarkers.gapEnd_of_settled ⟨?_, ?_⟩
  · cases found : grammar.comments.commentAt? text (place + k) with
    | none => rfl
    | some comment =>
        obtain ⟨marker, member, marks⟩ := CommentMarkers.opening_of_commentAt found
        obtain ⟨first, isFirst, there⟩ := Text.isWritten_first marks
        obtain rfl : actual = first := Option.some.inj (here.symm.trans there)
        have inTail : word.toList[k] ∈ word.toList.tail := by
          rw [← List.drop_one]
          exact List.mem_drop_iff_getElem.mpr ⟨k - 1, by omega, by congr 1; omega⟩
        have other := unmarked marker member actual isFirst _ inTail
        exact absurd (same.symm.trans other) nofun
  · rw [Text.isBlankAt, here, Option.any_some]
    cases blank : Unicode.isBlank actual with
    | false => rfl
    | true =>
        -- A blank has no other case, so the word itself would hold it.
        have plain : Unicode.isAlphabetic actual = false :=
          (Bool.or_eq_false_iff.mp (Unicode.not_alphanumeric_of_isBlank blank)).1
        have equal := Unicode.eq_of_sameChar plain same
        have inWord := solid word.toList[k] (List.getElem_mem inside)
        rw [equal] at inWord
        exact absurd (blank.symm.trans inWord) nofun

/-- Words that follow are words behind a gap. -/
theorem moreSpans_cons (grammar : Grammar) (text : Text) (place : Nat) (word : String)
    (rest : List String) :
    grammar.moreSpans? text place (word :: rest) =
      if grammar.comments.gapEnd text place = place then none
      else grammar.spans? text (grammar.comments.gapEnd text place) (word :: rest) := rfl

/-- Words are as long as their spans, and these are inside the text. -/
theorem lengths_of_spans {words : List String} {spans : List (Nat × Nat)}
    (spelled : grammar.spans? text place words = some spans) :
    spans.map (·.2) = words.map String.length ∧ ∀ span ∈ spans, span.1 + span.2 ≤ text.size := by
  induction words generalizing place spans with
  | nil =>
      cases spelled
      exact ⟨rfl, nofun⟩
  | cons word rest ih =>
      simp only [spans?, Option.ite_none_right_eq_some, Option.map_eq_some_iff] at spelled
      obtain ⟨written, later, spelled, rfl⟩ := spelled
      have inside := (isSymbolAt_inside written).2
      cases rest with
      | nil =>
          cases spelled
          exact ⟨rfl, List.forall_mem_singleton.mpr inside⟩
      | cons second rest =>
          rw [moreSpans_cons, Option.ite_none_left_eq_some] at spelled
          obtain ⟨lengths, others⟩ := ih spelled.2
          constructor
          · rw [List.map_cons, lengths, List.map_cons (l := second :: rest)]
          · exact List.forall_mem_cons.mpr ⟨inside, others⟩

theorem lengths_wordsOf {spans : List (Nat × Nat)}
    (inside : ∀ span ∈ spans, span.1 + span.2 ≤ text.size) :
    (wordsOf text spans).map (·.2.length) = spans.map (·.2) := by
  rw [wordsOf, List.map_map]
  apply List.map_congr_left
  intro span member
  exact length_slice_of_inside (inside span member)

/-- Words with as many characters that are written at one place have the same spans. Where one word
of the first row is shorter than its counterpart, a gap behind it would begin inside the other. -/
theorem spans_eq {a b : List String} {spansA spansB : List (Nat × Nat)}
    (plainA : ∀ word ∈ a, Solid word ∧ grammar.Unmarked word)
    (plainB : ∀ word ∈ b, Solid word ∧ grammar.Unmarked word)
    (spelledA : grammar.spans? text place a = some spansA)
    (spelledB : grammar.spans? text place b = some spansB) (count : a.length = b.length)
    (total : (a.map String.length).sum = (b.map String.length).sum) : spansA = spansB := by
  induction a generalizing b place spansA spansB with
  | nil =>
      cases List.eq_nil_of_length_eq_zero count.symm
      exact Option.some.inj (spelledA.symm.trans spelledB)
  | cons x as ih =>
      obtain ⟨y, bs, rfl⟩ := List.exists_cons_of_length_eq_add_one count.symm
      obtain ⟨plainX, plainAs⟩ := List.forall_mem_cons.mp plainA
      obtain ⟨plainY, plainBs⟩ := List.forall_mem_cons.mp plainB
      simp only [spans?, Option.ite_none_right_eq_some, Option.map_eq_some_iff] at spelledA spelledB
      obtain ⟨writtenX, laterA, spelledA, rfl⟩ := spelledA
      obtain ⟨writtenY, laterB, spelledB, rfl⟩ := spelledB
      have someX := (isSymbolAt_inside writtenX).1
      have someY := (isSymbolAt_inside writtenY).1
      simp only [List.map_cons, List.sum_cons] at total
      cases as with
      | nil =>
          cases List.eq_nil_of_length_eq_zero (Nat.succ.inj count).symm
          cases spelledA
          cases spelledB
          have same : x.length = y.length := by simpa using total
          rw [same]
      | cons second as =>
          obtain ⟨other, bs, rfl⟩ := List.exists_cons_of_length_eq_add_one (Nat.succ.inj count).symm
          rw [moreSpans_cons, Option.ite_none_left_eq_some] at spelledA spelledB
          have same : x.length = y.length := by
            rcases Nat.lt_trichotomy x.length y.length with shorter | same | longer
            · exact absurd (gapEnd_inside_word plainY.1 plainY.2 writtenY someX shorter) spelledA.1
            · exact same
            · exact absurd (gapEnd_inside_word plainX.1 plainX.2 writtenX someY longer) spelledB.1
          rw [same] at spelledA total ⊢
          have later := ih plainAs plainBs spelledA.2 spelledB.2 (Nat.succ.inj count)
            (Nat.add_left_cancel total)
          rw [later]

/-- The order of the operators has no part in how words are written. -/
theorem spans_withOperators (grammar : Grammar) (operators : List Operator) (text : Text) (place : Nat)
    (words : List String) :
    { grammar with operators }.spans? text place words = grammar.spans? text place words := by
  have symbols : ∀ place word,
      { grammar with operators }.isSymbolAt text place word = grammar.isSymbolAt text place word :=
    fun _ _ => rfl
  have later : ∀ place words,
      { grammar with operators }.moreSpans? text place words = grammar.moreSpans? text place words := by
    intro place words
    induction words generalizing place with
    | nil => rfl
    | cons word rest ih => simp only [moreSpans?, symbols, ih]
  cases words with
  | nil => rfl
  | cons word rest => simp only [spans?, symbols, later]

/-! The order of preference -/

namespace Spelling

variable {afterOperand : Bool}

/-- What decides between spellings, the more important first. -/
def rank (afterOperand : Bool) (spelling : Spelling) : Bool ×ₗ Nat ×ₗ Nat :=
  toLex (spelling.fits afterOperand, toLex (spelling.spans.length, spelling.total))

theorem outranks_iff {a b : Spelling} :
    a.outranks afterOperand b = true ↔ b.rank afterOperand < a.rank afterOperand := by
  simp only [outranks, rank, Prod.Lex.toLex_lt_toLex, Bool.lt_iff, Bool.or_eq_true, Bool.and_eq_true,
    Bool.not_eq_true', beq_iff_eq, decide_eq_true_eq]
  grind

/-- No spelling of the row has a higher rank than the one that is kept. -/
theorem rank_le_of_best {spellings : List Spelling} {best : Spelling}
    (found : best? afterOperand spellings = some best) :
    ∀ spelling ∈ spellings, spelling.rank afterOperand ≤ best.rank afterOperand := by
  obtain ⟨before, fresh⟩ : ∃ before : Option Spelling, before = none := ⟨none, rfl⟩
  unfold best? at found
  rw [← fresh] at found
  -- What was kept from before has to be outranked as well.
  suffices (∀ other, before = some other → other.rank afterOperand ≤ best.rank afterOperand) ∧
      ∀ spelling ∈ spellings, spelling.rank afterOperand ≤ best.rank afterOperand from this.2
  clear fresh
  induction spellings generalizing before with
  | nil =>
      cases found
      exact ⟨fun other same => (Option.some.inj same) ▸ le_rfl, List.forall_mem_nil _⟩
  | cons spelling rest ih =>
      obtain ⟨kept, later⟩ := ih _ found
      cases before with
      | none =>
          refine ⟨fun _ same => ?_, List.forall_mem_cons.mpr ⟨kept spelling rfl, later⟩⟩
          cases same
      | some other =>
          dsimp only at kept
          split at kept
          · rename_i higher
            have here := kept spelling rfl
            have lower := (outranks_iff.mp higher).le.trans here
            exact ⟨fun _ same => Option.some.inj same ▸ lower,
              List.forall_mem_cons.mpr ⟨here, later⟩⟩
          · rename_i higher
            have here := kept other rfl
            have lower := (not_lt.mp (mt outranks_iff.mpr higher)).trans here
            exact ⟨fun _ same => Option.some.inj same ▸ here,
              List.forall_mem_cons.mpr ⟨lower, later⟩⟩

/-- Where something is spelled there is a best spelling. -/
theorem exists_best (afterOperand : Bool) {spellings : List Spelling} (filled : spellings ≠ []) :
    ∃ best, best? afterOperand spellings = some best := by
  obtain ⟨first, rest, rfl⟩ := List.exists_cons_of_ne_nil filled
  unfold best?
  rw [List.foldl_cons]
  -- Once something is kept, something stays kept.
  generalize first = kept
  clear filled
  induction rest generalizing kept with
  | nil => exact ⟨kept, rfl⟩
  | cons spelling rest ih =>
      rw [List.foldl_cons]
      by_cases higher : spelling.outranks afterOperand kept = true
      · simpa only [higher, ↓reduceIte] using ih spelling
      · simpa only [higher, Bool.false_eq_true, ↓reduceIte] using ih kept

theorem total_eq (spelling : Spelling) : spelling.total = (spelling.spans.map (·.2)).sum := by
  rw [total, List.sum_eq_foldr, List.foldr_eq_foldl]

end Spelling

theorem mem_spellings {spelling : Spelling} :
    spelling ∈ grammar.spellings text place ↔ spelling.operator ∈ grammar.operators ∧
      grammar.spans? text place spelling.operator.nameParts = some spelling.spans := by
  simp only [spellings, List.mem_filterMap, Option.map_eq_some_iff]
  constructor
  · rintro ⟨operator, member, spans, spelled, rfl⟩
    exact ⟨member, spelled⟩
  · rintro ⟨member, spelled⟩
    exact ⟨spelling.operator, member, spelling.spans, spelled, rfl⟩

/-- Among the spellings of plain words those of the same rank have the same spans. -/
theorem spans_eq_of_rank_eq {afterOperand : Bool} {a b : Spelling}
    (plain : ∀ operator ∈ grammar.operators, ∀ part ∈ operator.nameParts,
      Solid part ∧ grammar.Unmarked part)
    (inA : a ∈ grammar.spellings text place) (inB : b ∈ grammar.spellings text place)
    (same : a.rank afterOperand = b.rank afterOperand) : a.spans = b.spans := by
  obtain ⟨memberA, spelledA⟩ := mem_spellings.mp inA
  obtain ⟨memberB, spelledB⟩ := mem_spellings.mp inB
  obtain ⟨lengthsA, -⟩ := lengths_of_spans spelledA
  obtain ⟨lengthsB, -⟩ := lengths_of_spans spelledB
  obtain ⟨-, ranks⟩ := Prod.mk.inj (toLex.injective same)
  obtain ⟨count, total⟩ := Prod.mk.inj (toLex.injective ranks)
  apply spans_eq (plain _ memberA) (plain _ memberB) spelledA spelledB
  · have countA := congrArg List.length lengthsA
    have countB := congrArg List.length lengthsB
    rw [List.length_map, List.length_map] at countA countB
    rw [← countA, count, countB]
  · rw [← lengthsA, ← lengthsB, ← Spelling.total_eq, ← Spelling.total_eq, total]

/-- The group that a best spelling stands for. -/
theorem operatorAt_of_best {afterOperand : Bool} {best : Spelling}
    (found : Spelling.best? afterOperand (grammar.spellings text place) = some best) :
    ∃ written, grammar.operatorAt? text place afterOperand = some written ∧
      written.parts = wordsOf text best.spans ∧
      written.candidates = grammar.operators.filter fun operator =>
        grammar.spans? text place operator.nameParts == some best.spans := by
  have candidates := @filter_spellings grammar text place best.spans
  unfold operatorAt?
  dsimp only
  rw [found]
  dsimp only
  split
  · rename_i none
    have inRow : best.operator ∈ ((grammar.spellings text place).filter (·.spans == best.spans)).map
        (·.operator) :=
      List.mem_map_of_mem (List.mem_filter.mpr ⟨best_mem found, beq_self_eq_true _⟩)
    rw [none] at inRow
    cases inRow
  · rename_i first others chosen
    exact ⟨_, rfl, rfl, chosen.symm.trans candidates⟩

theorem operatorAt_of_empty {afterOperand : Bool} (empty : grammar.spellings text place = []) :
    grammar.operatorAt? text place afterOperand = none := by
  unfold operatorAt?
  rw [empty]
  rfl

/-! Other orders of the table -/

/-- Two finds with the same words and the same candidates. -/
structure SameFind (a b : OperatorMatch) : Prop where
  parts : a.parts = b.parts
  candidates : a.candidates.Perm b.candidates

theorem spellings_withOperators (grammar : Grammar) (operators : List Operator) (text : Text)
    (place : Nat) : { grammar with operators }.spellings text place = operators.filterMap fun operator =>
      (grammar.spans? text place operator.nameParts).map fun spans => ⟨operator, spans⟩ := by
  simp only [spellings, spans_withOperators]

variable {afterOperand : Bool}

/-- The best spellings of both tables have the same rank, so they have the same words. -/
theorem sameFind_of_perm {operators : List Operator}
    (plain : ∀ operator ∈ grammar.operators, ∀ part ∈ operator.nameParts,
      Solid part ∧ grammar.Unmarked part)
    (reordered : operators.Perm grammar.operators) :
    Option.Rel SameFind ({ grammar with operators }.operatorAt? text place afterOperand)
      (grammar.operatorAt? text place afterOperand) := by
  have rows : ({ grammar with operators }.spellings text place).Perm (grammar.spellings text place) := by
    rw [spellings_withOperators]
    exact reordered.filterMap _
  by_cases empty : grammar.spellings text place = []
  · have otherEmpty := (empty ▸ rows).eq_nil
    rw [operatorAt_of_empty empty, operatorAt_of_empty otherEmpty]
    exact .none
  · have otherFilled : { grammar with operators }.spellings text place ≠ [] := fun otherEmpty =>
      empty (otherEmpty ▸ rows).nil_eq.symm
    obtain ⟨best, chosen⟩ := Spelling.exists_best afterOperand empty
    obtain ⟨otherBest, otherChosen⟩ :=
      Spelling.exists_best afterOperand otherFilled
    have inRow := best_mem chosen
    have otherInRow := rows.mem_iff.mp (best_mem otherChosen)
    have sameRank := le_antisymm (Spelling.rank_le_of_best chosen otherBest otherInRow)
      (Spelling.rank_le_of_best otherChosen best (rows.mem_iff.mpr inRow))
    have sameSpans := spans_eq_of_rank_eq plain otherInRow inRow sameRank
    obtain ⟨written, found, parts, candidates⟩ := operatorAt_of_best chosen
    obtain ⟨otherWritten, otherFound, otherParts, otherCandidates⟩ := operatorAt_of_best otherChosen
    rw [found, otherFound]
    constructor
    constructor
    · rw [otherParts, sameSpans, parts]
    · rw [otherCandidates, sameSpans, candidates]
      simpa only [spans_withOperators] using reordered.filter _

/-- Where an operator that fits is written, one is found with more words or with as many words that
have no fewer characters. -/
theorem operatorAt_outdoes {operator : Operator} {spans : List (Nat × Nat)}
    (member : operator ∈ grammar.operators) (fits : (operator.kind != .prefixOp) = afterOperand)
    (spelled : grammar.spans? text place operator.nameParts = some spans) :
    ∃ written, grammar.operatorAt? text place afterOperand = some written ∧
      spans.length ≤ written.parts.length ∧
      (spans.length = written.parts.length →
        (spans.map (·.2)).sum ≤ (written.parts.map (·.2.length)).sum) := by
  have inRow : ⟨operator, spans⟩ ∈ grammar.spellings text place := mem_spellings.mpr ⟨member, spelled⟩
  obtain ⟨best, chosen⟩ := Spelling.exists_best afterOperand (List.ne_nil_of_mem inRow)
  obtain ⟨written, found, parts, -⟩ := operatorAt_of_best chosen
  obtain ⟨-, bestSpelled⟩ := mem_spellings.mp (best_mem chosen)
  have lengths := lengths_wordsOf (lengths_of_spans bestSpelled).2
  have notBelow := Spelling.rank_le_of_best chosen _ inRow
  have fit : Spelling.fits afterOperand ⟨operator, spans⟩ = true := beq_iff_eq.mpr fits
  simp only [Spelling.rank, fit, Prod.Lex.toLex_le_toLex, Spelling.total_eq] at notBelow
  have count : written.parts.length = best.spans.length := by rw [parts, wordsOf, List.length_map]
  refine ⟨written, found, ?_⟩
  rw [count, parts, lengths]
  -- What fits is at the top of the first place of the rank.
  have tied := notBelow.resolve_left (not_lt_of_ge (Bool.le_true _))
  rcases tied.2 with more | ⟨same, total⟩
  · exact ⟨more.le, fun same => absurd same more.ne⟩
  · exact ⟨same.le, fun _ => total⟩

variable {config : Config} {isLiteralChar : Char → Nat → Bool} {extensions : List Extension}

/-- Where no word of an operator goes on with what begins a comment, the order of the table has no part
in what is found at a place; and no operator that fits there has more words than what is found, or as
many words with more characters. -/
theorem operatorAt_ignores_order (built : build config isLiteralChar extensions = .ok grammar)
    (unmarked : ∀ operator ∈ grammar.operators, ∀ part ∈ operator.nameParts, grammar.Unmarked part)
    (text : Text) (place : Nat) (afterOperand : Bool) :
    (∀ operators, operators.Perm grammar.operators →
      Option.Rel SameFind ({ grammar with operators }.operatorAt? text place afterOperand)
        (grammar.operatorAt? text place afterOperand)) ∧
    ∀ operator ∈ grammar.operators, (operator.kind != .prefixOp) = afterOperand → ∀ spans,
      grammar.spans? text place operator.nameParts = some spans →
        ∃ written, grammar.operatorAt? text place afterOperand = some written ∧
          spans.length ≤ written.parts.length ∧
          (spans.length = written.parts.length →
            (spans.map (·.2)).sum ≤ (written.parts.map (·.2.length)).sum) := by
  constructor
  · intro operators reordered
    refine sameFind_of_perm (fun operator member part inName => ?_) reordered
    exact ⟨solid_nameParts built operator member part inName, unmarked operator member part inName⟩
  · intro operator member fits spans spelled
    exact operatorAt_outdoes member fits spelled

/-- Names of one and of two words that begin alike; one of them has two kinds. -/
def negatedConfig : Config where
  operators := [.ofName "is" .binary 4, .ofName "is not" .binary 4, .ofName "is not" .postfixOp 1,
    .ofName "is null" .postfixOp 1]
  caseSensitive := false

theorem build_negated : build negatedConfig stockLiteralChar [] = .ok (ofConfig negatedConfig) := by
  have numbers : readNumericRules negatedConfig.numericTypes = .ok NumericRule.defaults :=
    readNumericRules_defaults
  unfold build
  rw [numbers]
  rfl

/-- The longer name is found whether it stands before or behind the shorter one. -/
theorem is_not_in_both_orders :
    (∀ operator ∈ (ofConfig negatedConfig).operators, ∀ part ∈ operator.nameParts,
      (ofConfig negatedConfig).Unmarked part) ∧
    let text := Text.ofString "x IS /*?*/ NOT y"
    Option.Rel SameFind
      ({ ofConfig negatedConfig with
        operators := (ofConfig negatedConfig).operators.reverse }.operatorAt? text 2 true)
      ((ofConfig negatedConfig).operatorAt? text 2 true) ∧
    ∃ written, (ofConfig negatedConfig).operatorAt? text 2 true = some written ∧
      2 ≤ written.parts.length := by
  have unmarked : ∀ operator ∈ (ofConfig negatedConfig).operators, ∀ part ∈ operator.nameParts,
      (ofConfig negatedConfig).Unmarked part := by decide +kernel
  obtain ⟨orders, outdoes⟩ :=
    operatorAt_ignores_order build_negated unmarked (Text.ofString "x IS /*?*/ NOT y") 2 true
  refine ⟨unmarked, orders _ (List.reverse_perm _), ?_⟩
  obtain ⟨written, found, words, -⟩ := outdoes ⟨2, ["is", "not"], .binary, 4⟩ (by decide +kernel) rfl
    [(2, 2), (11, 3)] (by decide +kernel)
  exact ⟨written, found, words⟩

/-- One name goes on with what begins a comment, so it ends either before or behind that comment. -/
def markedConfig : Config where
  operators := [.ofName "a/**/ +" .binary 4, .ofName "a +++++" .binary 4]

/-- Both names are written there with two words of six characters; the first of the table is found. -/
theorem marked_names_differ_by_order :
    let wordsIn := fun operators => ({ ofConfig markedConfig with operators }.operatorAt?
      (Text.ofString "a/**/ +++++") 0 true).map OperatorMatch.parts
    wordsIn (ofConfig markedConfig).operators = some [(0, "a/**/"), (6, "+")] ∧
      wordsIn (ofConfig markedConfig).operators.reverse = some [(0, "a"), (6, "+++++")] := by
  decide +kernel

end Grammar

end ExprLang
