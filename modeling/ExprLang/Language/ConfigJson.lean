import ExprLang.Language.Config
import ExprLang.Json.Record

/-!
The JSON form of a language definition, written and read. Every top-level field may be left out and
then has its default; an optional marker is switched off by null. An operator without an id leaves
the id out.
-/

namespace ExprLang

open Json

/-! Writing -/

def Keyword.toJson (keyword : Keyword) : Json :=
  .object [("id", .nat keyword.id.toNat), ("text", .string keyword.text)]

def OperatorEntry.toJson (operator : OperatorEntry) : Json :=
  .object ((operator.id.map fun id => ("id", Json.nat id.toNat)).toList ++
    [("name_parts", .strings operator.nameParts), ("kind", .string operator.kind.name),
     ("priority", .int operator.priority.toInt)])

def NumericType.toJson (type : NumericType) : Json :=
  .object [("id", .nat type.id.toNat), ("name", .string type.name),
    ("kind", .string type.kind.name), ("patterns", .strings type.patterns)]

def MarkerPair.toJson (pair : MarkerPair) : Json :=
  .object [("start", .string pair.start), ("end", .string pair.stop)]

def Config.fieldNames : List String :=
  ["keywords", "operators", "code_block", "separator", "line_comment", "multiline_comment",
   "quote_chars", "text_escape", "case_sensitive", "supports_prefixes", "supports_keywords",
   "numeric_types"]

def charJson (c : Char) : Json := .string (String.singleton c)

def Config.toEntries (config : Config) : List (String × Json) :=
  [("keywords", .array (config.keywords.map Keyword.toJson)),
   ("operators", .array (config.operators.map OperatorEntry.toJson)),
   ("code_block", .ofOption MarkerPair.toJson config.codeBlock),
   ("separator", .ofOption charJson config.separator),
   ("line_comment", .ofOption .string config.lineComment),
   ("multiline_comment", .ofOption MarkerPair.toJson config.multilineComment),
   ("quote_chars", .array (config.quotes.map charJson)),
   ("text_escape", .string config.textEscape.name),
   ("case_sensitive", .bool config.caseSensitive),
   ("supports_prefixes", .bool config.supportsPrefixes),
   ("supports_keywords", .bool config.supportsKeywords),
   ("numeric_types", .array (config.numericTypes.map NumericType.toJson))]

def Config.toJson (config : Config) : Json := .object config.toEntries

/-! Reading -/

def readKeyword (json : Json) : Result Keyword := do
  let fields ← readRecord ["id", "text"] json
  let id ← required fields "id" readUInt32
  let text ← required fields "text" readText
  return { id, text }

def operatorKinds : List (String × OperatorKind) :=
  [("prefix", .prefixOp), ("postfix", .postfixOp), ("binary", .binary)]

def readOperator (json : Json) : Result OperatorEntry := do
  let fields ← readRecord ["id", "name_parts", "kind", "priority"] json
  let id ← defaulted fields "id" (readOption readUInt32) none
  let nameParts ← required fields "name_parts" (readList readText)
  let kind ← required fields "kind" (readChoice operatorKinds)
  let priority ← required fields "priority" readInt32
  return { id, nameParts, kind, priority }

def numericKinds : List (String × NumericKind) :=
  [("integer", .integer), ("decimal", .decimal), ("scientific", .scientific), ("other", .other)]

def readNumericType (json : Json) : Result NumericType := do
  let fields ← readRecord ["id", "name", "kind", "patterns"] json
  let id ← required fields "id" readUInt32
  let name ← required fields "name" readText
  let kind ← required fields "kind" (readChoice numericKinds)
  let patterns ← required fields "patterns" (readList readText)
  return { id, name, kind, patterns }

def readMarkerPair (json : Json) : Result MarkerPair := do
  let fields ← readRecord ["start", "end"] json
  let start ← required fields "start" readText
  let stop ← required fields "end" readText
  return { start, stop }

def textEscapes : List (String × TextEscape) :=
  [("doubled_quote", .doubledQuote), ("backslash", .backslash)]

namespace Config

def ofJson (json : Json) : Result Config := do
  let fields ← readRecord fieldNames json
  let dflt : Config := {}
  let keywords ← defaulted fields "keywords" (readList readKeyword) dflt.keywords
  let operators ← defaulted fields "operators" (readList readOperator) dflt.operators
  let codeBlock ← defaulted fields "code_block" (readOption readMarkerPair) dflt.codeBlock
  let separator ← defaulted fields "separator" (readOption readChar) dflt.separator
  let lineComment ← defaulted fields "line_comment" (readOption readText) dflt.lineComment
  let multilineComment ←
    defaulted fields "multiline_comment" (readOption readMarkerPair) dflt.multilineComment
  let quotes ← defaulted fields "quote_chars" (readList readChar) dflt.quotes
  let textEscape ← defaulted fields "text_escape" (readChoice textEscapes) dflt.textEscape
  let caseSensitive ← defaulted fields "case_sensitive" readBool dflt.caseSensitive
  let supportsPrefixes ← defaulted fields "supports_prefixes" readBool dflt.supportsPrefixes
  let supportsKeywords ← defaulted fields "supports_keywords" readBool dflt.supportsKeywords
  let numericTypes ← defaulted fields "numeric_types" (readList readNumericType) dflt.numericTypes
  return { keywords, operators, codeBlock, separator, lineComment, multilineComment, quotes,
           textEscape, caseSensitive, supportsPrefixes, supportsKeywords, numericTypes }

def parse (text : String) : Result Config :=
  match Json.parse text with
  | .error error => .error (.notJson error)
  | .ok json => ofJson json

end Config

end ExprLang
