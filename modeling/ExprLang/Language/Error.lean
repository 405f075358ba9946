import ExprLang.Language.Config
import ExprLang.Json.Record
import ExprLang.Pattern.Reader

/-!
What can be wrong with a language definition.
-/

namespace ExprLang

inductive NameProblem where
  | noParts
  | blankPart (part : String)
  | reservedPart (part : String)
  deriving DecidableEq, Repr

def NameProblem.message : NameProblem → String
  | noParts => "no name parts"
  | blankPart part => s!"name part '{part}' is empty or contains whitespace"
  | reservedPart part => s!"name part '{part}' contains a brace or comma"

inductive Marker where
  | codeBlockStart
  | codeBlockEnd
  | multilineStart
  | multilineEnd
  | lineComment
  | separator
  | quote
  deriving DecidableEq, Repr

def Marker.name : Marker → String
  | codeBlockStart => "code block start"
  | codeBlockEnd => "code block end"
  | multilineStart => "multiline comment start"
  | multilineEnd => "multiline comment end"
  | lineComment => "line comment"
  | separator => "separator"
  | quote => "quote"

inductive MarkerProblem where
  | blank (text : String)
  | reserved (symbol : Char)
  deriving DecidableEq, Repr

def MarkerProblem.message : MarkerProblem → String
  | blank text => s!"'{text}' is empty or contains whitespace"
  | reserved symbol => s!"'{symbol}' is reserved"

inductive LanguageError where
  | emptyKeyword (id : KeywordId)
  | duplicateKeywordId (id : KeywordId)
  | duplicateKeyword (text : String)
  | invalidOperatorName (index : Nat) (problem : NameProblem)
  | duplicateOperatorId (id : UInt32)
  | duplicateOperator (nameParts : List String) (kind : OperatorKind)
  | invalidNumericPattern (pattern : String) (error : PatternError)
  | invalidMarker (marker : Marker) (problem : MarkerProblem)
  | unknownKeyword (id : KeywordId)
  | invalidJson (error : Json.ReadError)
  deriving DecidableEq, Repr

def joinWords (words : List String) : String := " ".intercalate words

def LanguageError.message : LanguageError → String
  | emptyKeyword id => s!"keyword keyword#{id} has empty text"
  | duplicateKeywordId id => s!"keyword id keyword#{id} is used more than once"
  | duplicateKeyword text => s!"keyword '{text}' is defined more than once"
  | invalidOperatorName index problem =>
      s!"operator {index} has an invalid name: {problem.message}"
  | duplicateOperatorId id => s!"operator id operator#{id} is used more than once"
  | duplicateOperator nameParts kind =>
      s!"{kind.name} operator '{joinWords nameParts}' is defined more than once"
  | invalidNumericPattern pattern error =>
      s!"invalid numeric pattern '{pattern}': {error.message}"
  | invalidMarker marker problem => s!"invalid {marker.name} marker: {problem.message}"
  | unknownKeyword id => s!"custom expression parser is registered for unknown keyword#{id}"
  | invalidJson error => s!"invalid language JSON: {error.message}"

end ExprLang
