import ExprLang.Json.Basic

/-!
The strict reader of JSON text: no comments, no trailing commas, no leading zeros, no bare control
characters and nothing behind the value. Every step consumes a character, so the length of the text
bounds the recursion.
-/

namespace ExprLang

namespace Json

/-- The text is no JSON; so many of its characters were left. -/
structure SyntaxError where
  left : Nat
  deriving DecidableEq, Repr

abbrev Parsed := Except SyntaxError

def refuse {α : Type} (rest : List Char) : Parsed α := .error ⟨rest.length⟩

def isSpace (c : Char) : Bool := c == ' ' || c == '\n' || c == '\r' || c == '\t'

def skipSpaces (input : List Char) : List Char := input.dropWhile isSpace

def hexDigit? (c : Char) : Option Nat :=
  if c.isDigit then some (c.toNat - '0'.toNat)
  else if 'a' ≤ c ∧ c ≤ 'f' then some (c.toNat - 'a'.toNat + 10)
  else if 'A' ≤ c ∧ c ≤ 'F' then some (c.toNat - 'A'.toNat + 10)
  else none

/-- The code unit that four hexadecimal digits write. -/
def unit? (a b c d : Char) : Option Nat := do
  return ((← hexDigit? a) * 16 + (← hexDigit? b)) * 256 + ((← hexDigit? c) * 16 + (← hexDigit? d))

def isHighHalf (unit : Nat) : Bool := 0xd800 ≤ unit && unit < 0xdc00

def isLowHalf (unit : Nat) : Bool := 0xdc00 ≤ unit && unit < 0xe000

/-- The low half of a surrogate pair, if it is written next. -/
def lowHalf? : List Char → Option (Nat × List Char)
  | '\\' :: 'u' :: a :: b :: c :: d :: rest =>
      match unit? a b c d with
      | some unit => if isLowHalf unit then some (unit, rest) else none
      | none => none
  | _ => none

/-- Reads a string behind its opening quote. Without a value it holds half a surrogate pair. -/
def readString : Nat → Option (List Char) → List Char → Parsed (Option String × List Char)
  | 0, _, input => refuse input
  | _, _, [] => refuse []
  | steps + 1, read, c :: rest =>
      let proceed := fun c rest => readString steps (read.map (c :: ·)) rest
      if c = '"' then .ok (read.map fun read => String.ofList read.reverse, rest)
      else if c.toNat < 32 then refuse (c :: rest)
      else if c ≠ '\\' then proceed c rest
      else match rest with
        | '"' :: rest => proceed '"' rest
        | '\\' :: rest => proceed '\\' rest
        | '/' :: rest => proceed '/' rest
        | 'b' :: rest => proceed '\x08' rest
        | 'f' :: rest => proceed '\x0c' rest
        | 'n' :: rest => proceed '\n' rest
        | 'r' :: rest => proceed '\r' rest
        | 't' :: rest => proceed '\t' rest
        | 'u' :: a :: b :: c :: d :: rest =>
            match unit? a b c d with
            | none => refuse rest
            | some unit =>
                if isHighHalf unit then
                  match lowHalf? rest with
                  | some (low, rest) =>
                      proceed (Char.ofNat (0x10000 + (unit - 0xd800) * 0x400 + (low - 0xdc00))) rest
                  | none => readString steps none rest
                else if isLowHalf unit then readString steps none rest
                else proceed (Char.ofNat unit) rest
        | rest => refuse rest

/-- The fraction and the exponent of a number, each with at least one digit. -/
def readReal (input : List Char) : Parsed (List Char × List Char) :=
  let fraction : Parsed (List Char × List Char) := match input with
    | '.' :: rest =>
        match rest.span Char.isDigit with
        | ([], rest) => refuse rest
        | (digits, rest) => .ok ('.' :: digits, rest)
    | rest => .ok ([], rest)
  match fraction with
  | .error e => .error e
  | .ok (fraction, rest) =>
      match rest with
      | 'e' :: rest | 'E' :: rest =>
          let (sign, rest) := match rest with
            | '+' :: rest => (['+'], rest)
            | '-' :: rest => (['-'], rest)
            | rest => ([], rest)
          match rest.span Char.isDigit with
          | ([], rest) => refuse rest
          | (digits, rest) => .ok (fraction ++ 'e' :: sign ++ digits, rest)
      | rest => .ok (fraction, rest)

def natOfDigits (digits : List Char) : Nat :=
  digits.foldl (fun n c => 10 * n + (c.toNat - '0'.toNat)) 0

def readNumber (negative : Bool) (input : List Char) : Parsed (Json × List Char) :=
  match input.span Char.isDigit with
  | ([], rest) => refuse rest
  | ('0' :: _ :: _, rest) => refuse rest
  | (digits, rest) =>
      match readReal rest with
      | .error e => .error e
      | .ok ([], rest) =>
          let value := natOfDigits digits
          if negative then
            if value = 0 then .ok (.real "-0", rest) else .ok (.int (-(value : Int)), rest)
          else .ok (.int value, rest)
      | .ok (behind, rest) =>
          let unsigned := digits ++ behind
          .ok (.real (String.ofList (if negative then '-' :: unsigned else unsigned)), rest)

mutual

def readValue : Nat → List Char → Parsed (Json × List Char)
  | 0, input => refuse input
  | steps + 1, input =>
      match skipSpaces input with
      | 'n' :: 'u' :: 'l' :: 'l' :: rest => .ok (.null, rest)
      | 't' :: 'r' :: 'u' :: 'e' :: rest => .ok (.bool true, rest)
      | 'f' :: 'a' :: 'l' :: 's' :: 'e' :: rest => .ok (.bool false, rest)
      | '"' :: rest =>
          match readString (rest.length + 1) (some []) rest with
          | .error e => .error e
          | .ok (some value, rest) => .ok (.string value, rest)
          | .ok (none, rest) => .ok (.halfPair, rest)
      | '[' :: rest =>
          match skipSpaces rest with
          | ']' :: rest => .ok (.array [], rest)
          | rest => readItems steps [] rest
      | '\x7b' :: rest =>
          match skipSpaces rest with
          | '\x7d' :: rest => .ok (.object [], rest)
          | rest => readEntries steps [] rest
      | '-' :: rest => readNumber true rest
      | rest => readNumber false rest

/-- Reads items up to the closing bracket; `read` holds those before, the last one first. -/
def readItems : Nat → List Json → List Char → Parsed (Json × List Char)
  | 0, _, input => refuse input
  | steps + 1, read, input =>
      match readValue steps input with
      | .error e => .error e
      | .ok (item, rest) =>
          match skipSpaces rest with
          | ',' :: rest => readItems steps (item :: read) rest
          | ']' :: rest => .ok (.array (item :: read).reverse, rest)
          | rest => refuse rest

/-- Reads entries up to the closing brace; `read` holds those before, the last one first. -/
def readEntries : Nat → List (String × Json) → List Char → Parsed (Json × List Char)
  | 0, _, input => refuse input
  | steps + 1, read, input =>
      match skipSpaces input with
      | '"' :: rest =>
          match readString (rest.length + 1) (some []) rest with
          | .error e => .error e
          | .ok (none, rest) => refuse rest
          | .ok (some name, rest) =>
              match skipSpaces rest with
              | ':' :: rest =>
                  match readValue steps rest with
                  | .error e => .error e
                  | .ok (value, rest) =>
                      match skipSpaces rest with
                      | ',' :: rest => readEntries steps ((name, value) :: read) rest
                      | '\x7d' :: rest => .ok (.object ((name, value) :: read).reverse, rest)
                      | rest => refuse rest
              | rest => refuse rest
      | rest => refuse rest

end

/-- The value that a whole text writes. -/
def parse (text : String) : Parsed Json :=
  let input := text.toList
  match readValue (input.length + 1) input with
  | .error e => .error e
  | .ok (json, rest) =>
      match skipSpaces rest with
      | [] => .ok json
      | rest => refuse rest

end Json

end ExprLang
