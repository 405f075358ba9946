import ExprLang.Parse.State

/-!
The plain operands: text constants, numbers and names.
-/

namespace ExprLang

/-- A text constant behind its opening quote: what it stands for, how many characters it takes
with its closing quote, and whether it has one. -/
structure Constant where
  text : List Char
  length : Nat
  closed : Bool
  deriving DecidableEq, Repr

namespace Constant

def cons (c : Char) (length : Nat) (rest : Constant) : Constant :=
  { rest with text := c :: rest.text, length := length + rest.length }

/-- The character that an escaped character stands for. -/
def unescape : Char → Char
  | 'n' => '\n'
  | 't' => '\t'
  | 'r' => '\r'
  | '0' => '\x00'
  | c => c

def decode (escape : TextEscape) (quote : Char) : List Char → Constant
  | [] => ⟨[], 0, false⟩
  | [c] => if c = quote then ⟨[], 1, true⟩ else ⟨[c], 1, false⟩
  | c :: d :: rest =>
      if c = quote then
        if escape = .doubledQuote ∧ d = quote then (decode escape quote rest).cons quote 2
        else ⟨[], 1, true⟩
      else if c = '\\' ∧ escape = .backslash then (decode escape quote rest).cons (unescape d) 2
      else (decode escape quote (d :: rest)).cons c 1

end Constant

namespace Parse

/-- An item with one token that covers it. -/
def createLeaf (kind : ItemKind) (token : TokenKind) (text : String) (start : Nat) :
    Parse ItemId := do
  let item ← create kind start
  addRegular item (← createToken token text start)
  return item

/-- Parses a text constant at its opening quote. -/
def textConstant (grammar : Grammar) (quote : Char) : Parse ItemId := do
  let start ← position
  let constant := Constant.decode grammar.textEscape quote ((← text).rest (start + 1))
  let stop := start + 1 + constant.length
  let raw ← slice start stop
  let item ← createLeaf (.constantText raw (String.ofList constant.text) quote constant.closed)
    .text raw start
  if !constant.closed then report start (stop - start) (.constantTextNotClosed quote)
  moveTo stop
  return item

def number (written : NumericMatch) : Parse ItemId := do
  let start ← position
  let value ← slice start (start + written.length)
  let item ← createLeaf (.numeric value written.type written.kind) .numericValue value start
  skip written.length
  return item

/-- Parses a name at the cursor, if there is one. -/
def name? (grammar : Grammar) : Parse (Option ItemId) := do
  let start ← position
  let stop := grammar.nameEnd (← text) start
  if stop = start then return none
  let name ← slice start stop
  let item ← createLeaf (.literal name) .name name start
  moveTo stop
  return some item

end Parse

end ExprLang
