import ExprLang.Proofs.Checked
import ExprLang.Proofs.Letters
import ExprLang.Proofs.Matching

/-!
Languages with the stock names and numbers and without extensions. What such a language looks for in a
text are its own words, names and the default numbers; so it is known which characters go on with none
of these, and which other characters can stand for one another.
-/

namespace ExprLang

/-! The default numbers -/

namespace Pattern

def digits : Pattern := repetition (char .digit) 1 none true

def oneOf (a b : Char) : CharSet := .union (.union .nothing (.single a)) (.single b)

def point : Pattern := char (.single '.')

def fraction : Pattern := sequence point digits

def exponent : Pattern :=
  sequence (char (oneOf 'e' 'E')) (sequence (repetition (char (oneOf '+' '-')) 0 (some 1) true) digits)

def anchored (p : Pattern) : Pattern := sequence (assertion .textStart .word) p

end Pattern

open Pattern in
/-- The default patterns as they are read. -/
def NumericRule.defaults : List NumericRule :=
  [⟨3, .scientific,
      anchored (sequence digits (sequence (repetition fraction 0 (some 1) true) exponent))⟩,
   ⟨3, .scientific, anchored (sequence point (sequence digits exponent))⟩,
   ⟨2, .decimal, anchored (sequence digits fraction)⟩,
   ⟨2, .decimal, anchored fraction⟩,
   ⟨1, .integer, anchored digits⟩]

theorem readNumericRules_defaults :
    Grammar.readNumericRules NumericType.defaults = .ok NumericRule.defaults := by decide +kernel

/-- The sets of characters that default numbers are made of. -/
def Numeral (set : CharSet) : Prop :=
  set ∈ [.digit, .single '.', Pattern.oneOf 'e' 'E', Pattern.oneOf '+' '-']

instance (set : CharSet) : Decidable (Numeral set) := inferInstanceAs (Decidable (_ ∈ _))

theorem anchored_defaults : ∀ rule ∈ NumericRule.defaults, rule.pattern.Anchored Numeral := by
  have parts : Pattern.digits.Plain Numeral ∧ Pattern.point.Plain Numeral ∧
      Pattern.exponent.Plain Numeral := by
    simp only [Pattern.digits, Pattern.point, Pattern.exponent, Pattern.Plain]
    decide
  simp only [NumericRule.defaults, List.forall_mem_cons, Pattern.anchored, Pattern.Anchored]
  simp [Pattern.fraction, Pattern.Plain, parts]

/-! What the checks of a definition leave -/

def CommentMarkers.texts (markers : CommentMarkers) : List String :=
  markers.line.toList ++ markers.multiline.toList.flatMap fun pair => [pair.1, pair.2]

/-- At a character that is in none of the markers there is no comment. -/
theorem CommentMarkers.commentAt_of_char {markers : CommentMarkers} {text : Text} {place : Nat} {c : Char}
    (here : text[place]? = some c) (unmarked : ∀ marker ∈ markers.texts, c ∉ marker.toList) :
    markers.commentAt? text place = none := by
  have line : markers.lineAt? text place = none := by
    unfold lineAt?
    cases given : markers.line with
    | none => rfl
    | some marker =>
        have unwritten := unmarked marker (by simp [texts, given])
        simp [Text.not_isWritten_of_char here unwritten]
  have multiline : markers.multilineAt? text place = none := by
    unfold multilineAt?
    cases given : markers.multiline with
    | none => rfl
    | some pair =>
        have unwritten := unmarked pair.1 (by simp [texts, given])
        simp [Text.not_isWritten_of_char here unwritten]
  rw [commentAt?, line, multiline, Option.or_none]

/-- A word without blanks. -/
def Solid (word : String) : Prop := ∀ c ∈ word.toList, Unicode.isBlank c = false

namespace Grammar

/-- All that the grammar compares with a text without regard for comments. -/
def symbols (grammar : Grammar) : List String :=
  grammar.keywords.map (·.text) ++ grammar.operators.flatMap (·.nameParts) ++
    grammar.codeBlock.toList.flatMap fun pair => [pair.start, pair.stop]

/-- A checked language without extensions, with the default names and numbers. -/
structure Stock (grammar : Grammar) : Prop where
  plain : grammar.extensions = []
  names : grammar.isLiteralChar = stockLiteralChar
  numbers : grammar.numericRules = NumericRule.defaults
  named : grammar.Named
  parts : ∀ operator ∈ grammar.operators, ∀ part ∈ operator.nameParts, Solid part
  block : ∀ pair, grammar.codeBlock = some pair → Solid pair.start ∧ Solid pair.stop
  comments : ∀ marker ∈ grammar.comments.texts, Solid marker
  separator : ∀ c, grammar.separator = some c →
    isBrace c = false ∧ c ≠ ',' ∧ Unicode.isBlank c = false
  quotes : ∀ quote ∈ grammar.quotes, some quote ≠ grammar.separator

theorem solid_of_hasBlank {word : String} (none : hasBlank word = false) : Solid word := by
  simp only [hasBlank, Bool.or_eq_false_iff, List.any_eq_false] at none
  exact fun c member => Bool.eq_false_iff.mpr (none.2 c member)

theorem solid_of_checkMarker {marker : Marker} {word : String} (checked : checkMarker marker word = .ok ()) :
    Solid word := by
  unfold checkMarker at checked
  split at checked
  · cases checked
  · rename_i fine
    exact solid_of_hasBlank (Bool.eq_false_iff.mpr fine)

theorem solid_of_checkPair {start stop : Marker} {pair : MarkerPair}
    (checked : checkPair start stop (some pair) = .ok ()) : Solid pair.start ∧ Solid pair.stop := by
  obtain ⟨⟨⟩, first, second⟩ := ok_of_bind checked
  exact ⟨solid_of_checkMarker first, solid_of_checkMarker second⟩

theorem solid_of_nameProblem {parts : List String} (fine : nameProblem? parts = none) :
    ∀ part ∈ parts, Solid part := by
  intro part member
  unfold nameProblem? at fine
  split at fine
  · cases fine
  · have none := List.findSome?_eq_none_iff.mp fine part member
    unfold partProblem? at none
    split at none
    · cases none
    · rename_i solid
      exact solid_of_hasBlank (Bool.eq_false_iff.mpr solid)

theorem separator_of_checkQuotes {separator : Option Char} {quotes : List Char}
    (checked : checkQuotes separator quotes = .ok ()) : ∀ quote ∈ quotes, some quote ≠ separator := by
  induction quotes with
  | nil => nofun
  | cons quote rest ih =>
      unfold checkQuotes at checked
      split at checked
      · cases checked
      · rename_i fine
        simp only [Bool.or_eq_true, beq_iff_eq, not_or] at fine
        exact List.forall_mem_cons.mpr ⟨fine.2, ih checked⟩

variable {grammar : Grammar} {config : Config}

/-- The words of a checked operator have no blanks. -/
theorem solid_nameParts {isLiteralChar : Char → Nat → Bool} {extensions : List Extension}
    (built : build config isLiteralChar extensions = .ok grammar) :
    ∀ operator ∈ grammar.operators, ∀ part ∈ operator.nameParts, Solid part := by
  intro operator member
  have checked := checked_of_build built
  have same : grammar.operators = operatorsOf config.operators :=
    congrArg (·.operators) checked.tables
  obtain ⟨entry, inTable, parts⟩ := nameParts_of_numberOperators (same ▸ member)
  exact parts ▸ solid_of_nameProblem (nameProblem_of_checkOperators checked.operators entry inTable)

theorem stock_of_build (built : build config stockLiteralChar [] = .ok grammar)
    (numeric : config.numericTypes = NumericType.defaults) : grammar.Stock := by
  have checked := checked_of_build built
  have tables := checked.tables
  have numbers : grammar.numericRules = NumericRule.defaults := by
    have read := checked.numbers
    rw [numeric, readNumericRules_defaults] at read
    exact (Except.ok.inj read).symm
  constructor
  · exact congrArg (·.extensions) tables
  · exact congrArg (·.isLiteralChar) tables
  · exact numbers
  · exact (named_of_build built).1
  · exact solid_nameParts built
  · intro pair given
    have same : grammar.codeBlock = config.codeBlock := congrArg (·.codeBlock) tables
    have block := checked.codeBlock
    rw [← same, given] at block
    exact solid_of_checkPair block
  · have same := congrArg (·.comments) tables
    dsimp only at same
    rw [same]
    intro marker member
    rcases List.mem_append.mp member with line | multiline
    · exact solid_of_checkMarker (checked.lineComment marker (Option.mem_toList.mp line))
    · obtain ⟨_, given, which⟩ := List.mem_flatMap.mp multiline
      obtain ⟨pair, isPair, rfl⟩ := Option.map_eq_some_iff.mp (Option.mem_toList.mp given)
      have multiline := checked.multiline
      rw [isPair] at multiline
      obtain ⟨start, stop⟩ := solid_of_checkPair multiline
      rcases List.mem_pair.mp which with rfl | rfl
      · exact start
      · exact stop
  · intro c given
    have same : grammar.separator = config.separator := congrArg (·.separator) tables
    have separator := checked.separator
    rw [← same, given] at separator
    simp only [checkSeparator] at separator
    split at separator
    · cases separator
    · rename_i fine
      simp only [Bool.or_eq_true, beq_iff_eq, not_or, Bool.not_eq_true] at fine
      exact ⟨fine.1.1, fine.1.2, fine.2⟩
  · have same : grammar.separator = config.separator := congrArg (·.separator) tables
    have quotes : grammar.quotes = config.quotes := congrArg (·.quotes) tables
    rw [same, quotes]
    exact separator_of_checkQuotes checked.quotes

/-! Characters that go on with nothing -/

/-- No word, name or number goes on with this character. -/
structure Parts (grammar : Grammar) (c : Char) : Prop where
  plain : Unicode.isAlphanumeric c = false
  sign : c ∉ ['_', '.', '+', '-']
  unwritten : ∀ symbol ∈ grammar.symbols, c ∉ symbol.toList

namespace Parts

variable {c : Char} (parts : grammar.Parts c)

include parts

theorem not_alphabetic : Unicode.isAlphabetic c = false :=
  (Bool.or_eq_false_iff.mp parts.plain).1

theorem not_literal (place : Nat) : stockLiteralChar c place = false := by
  have underscore : (c == '_') = false := beq_eq_false_iff_ne.mpr fun same =>
    parts.sign (same ▸ List.mem_cons_self)
  rw [stockLiteralChar, underscore, Bool.false_or]
  split
  · exact parts.not_alphabetic
  · exact parts.plain

theorem not_numeral {set : CharSet} (numeral : Numeral set) : set.holds c = false := by
  have single : ∀ d : Char, c ≠ d → (CharSet.single d).holds c = false := by
    intro d different
    have : c.toNat ≠ d.toNat := mt Char.toNat_inj.mp different
    simp only [CharSet.single, CharSet.holds, Bool.and_eq_false_iff, decide_eq_false_iff_not]
    omega
  have letter : ∀ d : Char, Unicode.isAlphabetic d = true → c ≠ d := by
    rintro d isLetter rfl
    exact Bool.false_ne_true (parts.not_alphabetic.symm.trans isLetter)
  have sign : ∀ d ∈ ['_', '.', '+', '-'], c ≠ d := fun d member same => parts.sign (same ▸ member)
  simp only [Numeral, List.mem_cons, List.not_mem_nil, or_false] at numeral
  rcases numeral with rfl | rfl | rfl | rfl
  · refine Bool.eq_false_iff.mpr fun digit => ?_
    have numeric := Unicode.isNumeric_of_isDigit digit
    have plain := parts.plain
    rw [Unicode.isAlphanumeric, numeric, Bool.or_true] at plain
    cases plain
  · exact single '.' (sign '.' (by simp))
  · simp only [Pattern.oneOf, CharSet.holds, Bool.false_or, Bool.or_eq_false_iff]
    exact ⟨single 'e' (letter 'e' (by decide)), single 'E' (letter 'E' (by decide))⟩
  · simp only [Pattern.oneOf, CharSet.holds, Bool.false_or, Bool.or_eq_false_iff]
    exact ⟨single '+' (sign '+' (by simp)), single '-' (sign '-' (by simp))⟩

/-- Up to case it is no character of a word. -/
theorem not_written {symbol : String} (listed : symbol ∈ grammar.symbols) {e : Char}
    (member : e ∈ symbol.toList) (caseSensitive : Bool) : sameChar caseSensitive c e = false := by
  refine Bool.eq_false_iff.mpr fun same => ?_
  have := Unicode.eq_of_sameChar parts.not_alphabetic same
  exact parts.unwritten symbol listed (this ▸ member)

end Parts

/-- Blanks are in no word, unless a keyword has them. -/
theorem Stock.parts_of_isBlank (stock : grammar.Stock)
    (keywords : ∀ keyword ∈ grammar.keywords, Solid keyword.text) {c : Char}
    (blank : Unicode.isBlank c = true) : grammar.Parts c where
  plain := Unicode.not_alphanumeric_of_isBlank blank
  sign member := by
    simp only [List.mem_cons, List.not_mem_nil, or_false] at member
    rcases member with rfl | rfl | rfl | rfl <;> exact absurd blank (by decide)
  unwritten symbol listed member := by
    have solid : Solid symbol := by
      simp only [symbols, List.mem_append, List.mem_map, List.mem_flatMap, Option.mem_toList,
        List.mem_pair] at listed
      rcases listed with (⟨keyword, inTable, rfl⟩ | ⟨operator, inTable, part⟩) | ⟨pair, given, which⟩
      · exact keywords keyword inTable
      · exact stock.parts operator inTable symbol part
      · obtain ⟨start, stop⟩ := stock.block pair given
        rcases which with rfl | rfl
        · exact start
        · exact stop
    exact Bool.false_ne_true ((solid c member).symm.trans blank)

/-! Characters that stand for others -/

/-- The grammar does not tell a character from its fold. -/
structure Refolds (grammar : Grammar) (fold : Char → Char) : Prop where
  same : ∀ c e, sameChar grammar.caseSensitive (fold c) e = sameChar grammar.caseSensitive c e
  name : ∀ c place, stockLiteralChar (fold c) place = stockLiteralChar c place
  numeral : ∀ set, Numeral set → ∀ c, set.holds (fold c) = set.holds c
  blank : ∀ c, Unicode.isBlank (fold c) = Unicode.isBlank c
  sign : ∀ c d, (d ∈ [' ', '\n', ',', '(', ')', '[', ']', '\\'] ∨ d ∈ grammar.quotes ∨
    some d = grammar.separator ∨ ∃ marker ∈ grammar.comments.texts, d ∈ marker.toList) →
      (fold c = d ↔ c = d)

theorem refolds_id (grammar : Grammar) : grammar.Refolds id :=
  ⟨fun _ _ => rfl, fun _ _ => rfl, fun _ _ _ => rfl, fun _ => rfl, fun _ _ _ => Iff.rfl⟩

/-- What does not tell apart ASCII letters does not tell apart any characters by their case. -/
theorem toLower_same {α : Type} {f : Char → α} (ascii : ∀ n < 128, f (Char.ofNat n).toLower = f (Char.ofNat n))
    (c : Char) : f c.toLower = f c := by
  cases isUpper : c.isUpper with
  | false => rw [Unicode.toLower_of_not_isUpper isUpper]
  | true =>
      have small : c.toNat < 128 := by
        have : c.toNat ≤ 'Z'.toNat := (of_decide_eq_true isUpper).2
        exact Nat.lt_of_le_of_lt this (by decide)
      have := ascii c.toNat small
      rwa [Char.ofNat_toNat] at this

/-- Where case does not matter the grammar does not tell letters from small letters, if its signs are
no letters. -/
theorem refolds_toLower (insensitive : grammar.caseSensitive = false)
    (quotes : ∀ quote ∈ grammar.quotes, quote.isAlpha = false)
    (separator : ∀ c, grammar.separator = some c → c.isAlpha = false)
    (comments : ∀ marker ∈ grammar.comments.texts, ∀ c ∈ marker.toList, c.isAlpha = false) :
    grammar.Refolds Char.toLower where
  same c e := by
    have lower : Unicode.lowercase c.toLower = Unicode.lowercase c :=
      toLower_same (by decide +kernel) c
    have byLowercase : ∀ a : Char, sameChar false a e = (Unicode.lowercase a == Unicode.lowercase e) := by
      intro a
      rw [sameChar, Bool.not_false, Bool.true_and]
      by_cases same : a = e
      · simp [same]
      · simp [same]
    rw [insensitive, byLowercase, byLowercase, lower]
  name c place := by
    by_cases first : place = 0
    · subst first
      exact toLower_same (f := (stockLiteralChar · 0)) (by decide +kernel) c
    · simp only [stockLiteralChar, if_neg first]
      exact toLower_same (f := fun c => c == '_' || Unicode.isAlphanumeric c) (by decide +kernel) c
  numeral set isNumeral := by
    simp only [Numeral, List.mem_cons, List.not_mem_nil, or_false] at isNumeral
    rcases isNumeral with rfl | rfl | rfl | rfl <;> exact toLower_same (by decide +kernel)
  blank := toLower_same (by decide +kernel)
  sign c d known := by
    have noLetter : d.isAlpha = false := by
      rcases known with member | isQuote | isSeparator | ⟨marker, member, inMarker⟩
      · have none : ∀ d ∈ [' ', '\n', ',', '(', ')', '[', ']', '\\'], d.isAlpha = false := by simp
        exact none d member
      · exact quotes d isQuote
      · exact separator d isSeparator.symm
      · exact comments marker member d inMarker
    have same : ∀ n < 128, (Char.ofNat n).toLower.isAlpha = (Char.ofNat n).isAlpha := by decide +kernel
    have letters := toLower_same same c
    by_cases letter : c.isAlpha = true
    · refine iff_of_false ?_ ?_
      · rintro rfl
        exact Bool.false_ne_true (noLetter.symm.trans (letters.trans letter))
      · rintro rfl
        exact Bool.false_ne_true (noLetter.symm.trans letter)
    · have small : c.isUpper = false := by
        refine Bool.eq_false_iff.mpr fun isUpper => letter ?_
        exact Bool.or_eq_true_iff.mpr (Or.inl isUpper)
      rw [Unicode.toLower_of_not_isUpper small]

/-! Stock languages to try laws on. -/

/-- The grammar of a definition that passes the checks, with the default numbers. -/
def ofConfig (config : Config) : Grammar where
  keywords := config.keywords
  operators := operatorsOf config.operators
  numericRules := NumericRule.defaults
  codeBlock := config.codeBlock
  separator := config.separator
  comments := {
    line := config.lineComment
    multiline := config.multilineComment.map fun pair => (pair.start, pair.stop) }
  quotes := config.quotes
  textEscape := config.textEscape
  caseSensitive := config.caseSensitive
  supportsPrefixes := config.supportsPrefixes
  supportsKeywords := config.supportsKeywords
  isLiteralChar := stockLiteralChar
  extensions := []

def plainConfig : Config where
  keywords := [⟨1, "word"⟩, ⟨2, "const"⟩]
  operators := [.ofName "+" .binary 4, .ofName "is null" .postfixOp 1]
  caseSensitive := false

theorem build_plain : build plainConfig stockLiteralChar [] = .ok (ofConfig plainConfig) := by
  have numbers : readNumericRules plainConfig.numericTypes = .ok NumericRule.defaults :=
    readNumericRules_defaults
  unfold build
  rw [numbers]
  rfl

end Grammar

end ExprLang
