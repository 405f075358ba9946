import ExprLang.Language.Error
import ExprLang.Comment
import ExprLang.Extension
import ExprLang.Pattern.Match

/-!
A grammar is a language definition that has been checked. No two keywords have one text, no two
operators of one kind have one name, and every operator has a number of its own: the one the
definition gives it, or the next free one from 1 on.
-/

namespace ExprLang

structure Operator where
  id : Nat
  nameParts : List String
  kind : OperatorKind
  priority : Int
  deriving DecidableEq, Repr

def Operator.name (operator : Operator) : String := joinWords operator.nameParts

/-- One pattern of a numeric type. -/
structure NumericRule where
  type : NumericTypeId
  kind : NumericKind
  pattern : Pattern
  deriving DecidableEq, Repr

structure Grammar where
  keywords : List Keyword
  operators : List Operator
  /-- In order of preference. -/
  numericRules : List NumericRule
  codeBlock : Option MarkerPair
  separator : Option Char
  comments : CommentMarkers
  quotes : List Char
  textEscape : TextEscape
  caseSensitive : Bool
  supportsPrefixes : Bool
  supportsKeywords : Bool
  /-- Whether a character can stand at a place of a name. -/
  isLiteralChar : Char → Nat → Bool
  extensions : List Extension

/-- Names are letters, underscores and, but for the first place, digits. -/
def stockLiteralChar (c : Char) (place : Nat) : Bool :=
  c == '_' || if place = 0 then Unicode.isAlphabetic c else Unicode.isAlphanumeric c

namespace Grammar

/-- Texts that count as one have one fold. -/
def fold (caseSensitive : Bool) (text : String) : String :=
  if caseSensitive then text else Unicode.lowercaseText text

def isBlankText (text : String) : Bool := text.toList.all Unicode.isBlank

/-- `ids` and `texts` are those of the keywords before. -/
def checkKeywords (fold : String → String) :
    List KeywordId → List String → List Keyword → Except LanguageError Unit
  | _, _, [] => .ok ()
  | ids, texts, keyword :: rest =>
      if isBlankText keyword.text then .error (.emptyKeyword keyword.id)
      else if keyword.id ∈ ids then .error (.duplicateKeywordId keyword.id)
      else if fold keyword.text ∈ texts then .error (.duplicateKeyword keyword.text)
      else checkKeywords fold (keyword.id :: ids) (fold keyword.text :: texts) rest

def checkOperatorIds : List UInt32 → List OperatorEntry → Except LanguageError Unit
  | _, [] => .ok ()
  | ids, operator :: rest =>
      match operator.id with
      | none => checkOperatorIds ids rest
      | some id =>
          if id ∈ ids then .error (.duplicateOperatorId id) else checkOperatorIds (id :: ids) rest

def isBrace (c : Char) : Bool := c == '(' || c == ')' || c == '[' || c == ']'

def hasBlank (text : String) : Bool := text.isEmpty || text.toList.any Unicode.isBlank

def partProblem? (part : String) : Option NameProblem :=
  if hasBlank part then some (.blankPart part)
  else if part.toList.any fun c => isBrace c || c == ',' then some (.reservedPart part)
  else none

def nameProblem? (parts : List String) : Option NameProblem :=
  if parts.isEmpty then some .noParts else parts.findSome? partProblem?

/-- `signatures` are those of the operators before. -/
def checkOperators (fold : String → String) :
    List (List String × OperatorKind) → Nat → List OperatorEntry → Except LanguageError Unit
  | _, _, [] => .ok ()
  | signatures, index, operator :: rest =>
      match nameProblem? operator.nameParts with
      | some problem => .error (.invalidOperatorName index problem)
      | none =>
          let signature := (operator.nameParts.map fold, operator.kind)
          if signature ∈ signatures then
            .error (.duplicateOperator operator.nameParts operator.kind)
          else checkOperators fold (signature :: signatures) (index + 1) rest

/-- The first `count` positive numbers that are not among `used`. -/
def freeIds (used : List Nat) (count : Nat) : List Nat :=
  ((List.range' 1 (count + used.length)).filter (· ∉ used)).take count

/-- Numbers the operators in order; `free` are the numbers to give out. -/
def numberOperators : List Nat → List OperatorEntry → List Operator
  | _, [] => []
  | free, entry :: rest =>
      let number := fun id => (⟨id, entry.nameParts, entry.kind, entry.priority.toInt⟩ : Operator)
      match entry.id, free with
      | some id, free => number id.toNat :: numberOperators free rest
      | none, id :: free => number id :: numberOperators free rest
      | none, [] => number 0 :: numberOperators [] rest

def operatorsOf (entries : List OperatorEntry) : List Operator :=
  let used := entries.filterMap fun entry => entry.id.map UInt32.toNat
  numberOperators (freeIds used entries.length) entries

def checkMarker (marker : Marker) (text : String) : Except LanguageError Unit :=
  if hasBlank text then .error (.invalidMarker marker (.blank text)) else .ok ()

def checkPair (start stop : Marker) : Option MarkerPair → Except LanguageError Unit
  | none => .ok ()
  | some pair => do
      checkMarker start pair.start
      checkMarker stop pair.stop

def checkSeparator : Option Char → Except LanguageError Unit
  | none => .ok ()
  | some c =>
      if isBrace c || c == ',' || Unicode.isBlank c then
        .error (.invalidMarker .separator (.reserved c))
      else .ok ()

def checkQuotes (separator : Option Char) : List Char → Except LanguageError Unit
  | [] => .ok ()
  | quote :: rest =>
      if isBrace quote || quote == ',' || some quote == separator then
        .error (.invalidMarker .quote (.reserved quote))
      else checkQuotes separator rest

/-- An extension is triggered by keywords of the table only. -/
def checkExtensions (keywords : List Keyword) (extensions : List Extension) :
    Except LanguageError Unit :=
  let known := keywords.map (·.id)
  match (extensions.flatMap (·.keywords)).find? (· ∉ known) with
  | some id => .error (.unknownKeyword id)
  | none => .ok ()

def readPatterns (type : NumericType) : List String → Except LanguageError (List NumericRule)
  | [] => .ok []
  | text :: rest =>
      match Pattern.readAnchored text with
      | .error error => .error (.invalidNumericPattern text error)
      | .ok pattern => do
          let rules ← readPatterns type rest
          return ⟨type.id, type.kind, pattern⟩ :: rules

def readNumericRules : List NumericType → Except LanguageError (List NumericRule)
  | [] => .ok []
  | type :: rest => do
      let rules ← readPatterns type type.patterns
      let others ← readNumericRules rest
      return rules ++ others

/-- Checks a definition; of several faults the first in this order is reported. -/
def build (config : Config) (isLiteralChar : Char → Nat → Bool) (extensions : List Extension) :
    Except LanguageError Grammar := do
  let fold := fold config.caseSensitive
  checkKeywords fold [] [] config.keywords
  checkOperatorIds [] config.operators
  checkOperators fold [] 0 config.operators
  checkPair .codeBlockStart .codeBlockEnd config.codeBlock
  checkPair .multilineStart .multilineEnd config.multilineComment
  match config.lineComment with
  | none => pure ()
  | some marker => checkMarker .lineComment marker
  checkSeparator config.separator
  checkQuotes config.separator config.quotes
  checkExtensions config.keywords extensions
  let numericRules ← readNumericRules config.numericTypes
  return {
    keywords := config.keywords
    operators := operatorsOf config.operators
    numericRules
    codeBlock := config.codeBlock
    separator := config.separator
    comments := {
      line := config.lineComment
      multiline := config.multilineComment.map fun pair => (pair.start, pair.stop) }
    quotes := config.quotes
    textEscape := config.textEscape
    caseSensitive := config.caseSensitive
    supportsPrefixes := config.supportsPrefixes
    supportsKeywords := config.supportsKeywords
    isLiteralChar
    extensions }

/-- The extensions that a keyword triggers, once for each time one of them names it. -/
def extensionsFor (grammar : Grammar) (keyword : KeywordId) : List Extension :=
  grammar.extensions.flatMap fun extension =>
    (extension.keywords.filter (· == keyword)).map fun _ => extension

end Grammar

end ExprLang
