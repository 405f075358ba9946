import ExprLang.Json.Reader

/-!
Typed reading of JSON values. A record is an object with its fields by name or an array with its
fields by place; an object may hold entries of other names, but each field only once.
-/

namespace ExprLang

namespace Json

inductive ReadError where
  | notJson (error : SyntaxError)
  | expected (what : String)
  | missingField (name : String)
  | repeatedField (name : String)
  deriving DecidableEq, Repr

def ReadError.message : ReadError → String
  | notJson error => s!"not a JSON text, {error.left} characters before its end"
  | expected what => s!"expected {what}"
  | missingField name => s!"missing field {quote name}"
  | repeatedField name => s!"duplicate field {quote name}"

abbrev Result := Except ReadError

abbrev Fields := String → Option Json

/-- The first of the field names that stands more than once. -/
def repeatedName? (names : List String) (entries : List (String × Json)) : Option String :=
  names.find? fun name => 1 < entries.countP fun entry => entry.1 == name

def fieldAt (names : List String) (items : List Json) (name : String) : Option Json :=
  match names, items with
  | first :: names, item :: items => if first = name then some item else fieldAt names items name
  | _, _ => none

/-- The fields of a record with these field names. -/
def readRecord (names : List String) : Json → Result Fields
  | object entries =>
      match repeatedName? names entries with
      | some name => .error (.repeatedField name)
      | none => .ok fun name => entries.lookup name
  | array items =>
      if names.length < items.length then .error (.expected "fewer items")
      else .ok (fieldAt names items)
  | _ => .error (.expected "a record")

def required {α : Type} (fields : Fields) (name : String) (read : Json → Result α) : Result α :=
  match fields name with
  | some json => read json
  | none => .error (.missingField name)

def defaulted {α : Type} (fields : Fields) (name : String) (read : Json → Result α) (value : α) :
    Result α :=
  match fields name with
  | some json => read json
  | none => .ok value

def readOption {α : Type} (read : Json → Result α) : Json → Result (Option α)
  | null => .ok none
  | json => (read json).map some

def readItemsWith {α : Type} (read : Json → Result α) : List Json → Result (List α)
  | [] => .ok []
  | item :: rest =>
      match read item with
      | .error e => .error e
      | .ok value => (readItemsWith read rest).map (value :: ·)

def readList {α : Type} (read : Json → Result α) : Json → Result (List α)
  | array items => readItemsWith read items
  | _ => .error (.expected "a list")

def readText : Json → Result String
  | string value => .ok value
  | _ => .error (.expected "a string")

/-- A string of one character. -/
def readChar : Json → Result Char
  | string value =>
      match value.toList with
      | [c] => .ok c
      | _ => .error (.expected "a character")
  | _ => .error (.expected "a character")

def readBool : Json → Result Bool
  | bool value => .ok value
  | _ => .error (.expected "a boolean")

def readUInt32 : Json → Result UInt32
  | int value =>
      if 0 ≤ value ∧ value.toNat < UInt32.size then .ok (UInt32.ofNat value.toNat)
      else .error (.expected "a natural number of 32 bits")
  | _ => .error (.expected "a natural number of 32 bits")

def readInt32 : Json → Result Int32
  | int value =>
      if Int32.minValue.toInt ≤ value ∧ value ≤ Int32.maxValue.toInt then .ok (Int32.ofInt value)
      else .error (.expected "an integer of 32 bits")
  | _ => .error (.expected "an integer of 32 bits")

def readNamed {α : Type} (values : List (String × α)) (name : String) : Result α :=
  match values.lookup name with
  | some value => .ok value
  | none => .error (.expected "one of the known names")

/-- A value by its name, alone or as the one entry of an object without content. -/
def readChoice {α : Type} (values : List (String × α)) : Json → Result α
  | string name => readNamed values name
  | object [(name, null)] => readNamed values name
  | _ => .error (.expected "one of the known names")

end Json

end ExprLang
