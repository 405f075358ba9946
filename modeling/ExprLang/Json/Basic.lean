/-!
JSON values and their text. An object keeps its entries in order, repeated names too; text that is
to have its names in order is written from a sorted value.
-/

namespace ExprLang

inductive Json where
  | null
  | bool (value : Bool)
  | int (value : Int)
  /-- A number with a fraction or an exponent, or minus zero, as written. -/
  | real (literal : String)
  | string (value : String)
  /-- A string with half a surrogate pair: a JSON string, but no text. -/
  | halfPair
  | array (items : List Json)
  | object (entries : List (String × Json))
  deriving Repr

namespace Json

def nat (value : Nat) : Json := .int value

def ofOption {α : Type} (write : α → Json) : Option α → Json
  | none => null
  | some value => write value

def strings (values : List String) : Json := array (values.map string)

def nats (values : List Nat) : Json := array (values.map nat)

def insertEntry {α : Type} (entry : String × α) : List (String × α) → List (String × α)
  | [] => [entry]
  | other :: rest =>
      if other.1 ≤ entry.1 then other :: insertEntry entry rest else entry :: other :: rest

mutual

/-- The names of every object ascend by code point. -/
def sortNames : Json → Json
  | array items => array (sortNamesOfItems items)
  | object entries => object (sortNamesOfEntries entries)
  | json => json

def sortNamesOfItems : List Json → List Json
  | [] => []
  | item :: rest => sortNames item :: sortNamesOfItems rest

def sortNamesOfEntries : List (String × Json) → List (String × Json)
  | [] => []
  | (name, value) :: rest => insertEntry (name, sortNames value) (sortNamesOfEntries rest)

end

def hexDigit (n : Nat) : Char := Nat.digitChar n

/-- Escapes what a JSON string must escape, in the shortest form, and nothing else. -/
def escapeChar (c : Char) : List Char :=
  match c with
  | '"' => ['\\', '"']
  | '\\' => ['\\', '\\']
  | '\n' => ['\\', 'n']
  | '\r' => ['\\', 'r']
  | '\t' => ['\\', 't']
  | c =>
      if c.toNat = 8 then ['\\', 'b']
      else if c.toNat = 12 then ['\\', 'f']
      else if c.toNat < 32 then
        ['\\', 'u', '0', '0', hexDigit (c.toNat / 16), hexDigit (c.toNat % 16)]
      else [c]

def quote (text : String) : String :=
  String.ofList ('"' :: text.toList.flatMap escapeChar ++ ['"'])

/-- The break before an item at some depth; compact text has none. -/
def lineBreak (pretty : Bool) (depth : Nat) : String :=
  if pretty then "\n".pushn ' ' (2 * depth) else ""

def renderEntry (pretty : Bool) (name value : String) : String :=
  quote name ++ (if pretty then ": " else ":") ++ value

mutual

def render (pretty : Bool) (depth : Nat) : Json → String
  | null => "null"
  | bool value => if value then "true" else "false"
  | int value => toString value
  | real literal => literal
  | string value => quote value
  | halfPair => quote ""
  | array [] => "[]"
  | array (item :: rest) =>
      "[" ++ lineBreak pretty (depth + 1) ++ render pretty (depth + 1) item ++
        renderItems pretty (depth + 1) rest ++ lineBreak pretty depth ++ "]"
  | object [] => "\x7b\x7d"
  | object ((name, value) :: rest) =>
      "\x7b" ++ lineBreak pretty (depth + 1) ++ renderEntry pretty name
        (render pretty (depth + 1) value) ++
        renderEntries pretty (depth + 1) rest ++ lineBreak pretty depth ++ "\x7d"

def renderItems (pretty : Bool) (depth : Nat) : List Json → String
  | [] => ""
  | item :: rest =>
      "," ++ lineBreak pretty depth ++ render pretty depth item ++ renderItems pretty depth rest

def renderEntries (pretty : Bool) (depth : Nat) : List (String × Json) → String
  | [] => ""
  | (name, value) :: rest =>
      "," ++ lineBreak pretty depth ++ renderEntry pretty name (render pretty depth value) ++
        renderEntries pretty depth rest

end

/-- Without any blank. -/
def compact (json : Json) : String := json.render false 0

/-- One item a line, indented by two blanks. -/
def pretty (json : Json) : String := json.render true 0

end Json

end ExprLang
