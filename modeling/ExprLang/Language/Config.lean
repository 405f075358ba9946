import ExprLang.Unicode.Blank

/-!
The tables and markers that define a language, as plain data. A field that a definition leaves out
has the default that stands here.
-/

namespace ExprLang

abbrev KeywordId := UInt32

abbrev NumericTypeId := UInt32

structure Keyword where
  id : KeywordId
  text : String
  deriving DecidableEq, Repr

inductive OperatorKind where
  | prefixOp
  | postfixOp
  | binary
  deriving DecidableEq, Repr

def OperatorKind.name : OperatorKind → String
  | prefixOp => "prefix"
  | postfixOp => "postfix"
  | binary => "binary"

/-- An operator is written as the words of `nameParts`, with gaps between them. The smaller its
priority number, the tighter it binds. -/
structure OperatorEntry where
  id : Option UInt32 := none
  nameParts : List String
  kind : OperatorKind
  priority : Int32
  deriving DecidableEq, Repr

/-- The maximal runs of characters that are not blank. -/
def words : List Char → List Char → List String
  | word, [] => if word.isEmpty then [] else [String.ofList word.reverse]
  | word, c :: rest =>
      if Unicode.isBlank c then
        if word.isEmpty then words [] rest else String.ofList word.reverse :: words [] rest
      else words (c :: word) rest

/-- The words of `name` are the name parts. -/
def OperatorEntry.ofName (name : String) (kind : OperatorKind) (priority : Int32) : OperatorEntry :=
  { nameParts := words [] name.toList, kind, priority }

/-- How the text of a numeric literal converts to a value. -/
inductive NumericKind where
  | integer
  | decimal
  | scientific
  | other
  deriving DecidableEq, Repr

def NumericKind.name : NumericKind → String
  | integer => "integer"
  | decimal => "decimal"
  | scientific => "scientific"
  | other => "other"

/-- A kind of numeric literal and the patterns that recognise it, in order of preference. -/
structure NumericType where
  id : NumericTypeId
  name : String
  kind : NumericKind
  patterns : List String
  deriving DecidableEq, Repr

def NumericType.defaults : List NumericType :=
  [⟨3, "scientific", .scientific, ["\\d+(\\.\\d+)?[eE][+-]?\\d+", "\\.\\d+[eE][+-]?\\d+"]⟩,
   ⟨2, "decimal", .decimal, ["\\d+\\.\\d+", "\\.\\d+"]⟩,
   ⟨1, "integer", .integer, ["\\d+"]⟩]

structure MarkerPair where
  start : String
  stop : String
  deriving DecidableEq, Repr

/-- How a quote is written inside a text constant. -/
inductive TextEscape where
  | doubledQuote
  | backslash
  deriving DecidableEq, Repr

def TextEscape.name : TextEscape → String
  | doubledQuote => "doubled_quote"
  | backslash => "backslash"

structure Config where
  keywords : List Keyword := []
  operators : List OperatorEntry := []
  codeBlock : Option MarkerPair := some ⟨"\x7b", "\x7d"⟩
  separator : Option Char := some ';'
  lineComment : Option String := some "//"
  multilineComment : Option MarkerPair := some ⟨"/*", "*/"⟩
  quotes : List Char := ['"', '\'']
  textEscape : TextEscape := .doubledQuote
  caseSensitive : Bool := true
  supportsPrefixes : Bool := true
  supportsKeywords : Bool := true
  numericTypes : List NumericType := NumericType.defaults
  deriving DecidableEq, Repr

end ExprLang
