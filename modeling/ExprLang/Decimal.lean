/-!
Decimal numbers with a mantissa of 96 bits and at most 28 places behind the point. Digits that do
not fit behind the point are dropped; the first of them rounds the rest, a five upwards. Digits that
do not fit before the point make no number.
-/

namespace ExprLang

structure Decimal where
  negative : Bool
  mantissa : Nat
  /-- How many digits of the mantissa stand behind the point. -/
  scale : Nat
  deriving DecidableEq, Repr

namespace Decimal

def mantissaLimit : Nat := 1 <<< 96

def scaleLimit : Nat := 28

/-- Zero has no sign. -/
def ofParts (negative : Bool) (mantissa scale : Nat) : Decimal :=
  ⟨negative && mantissa != 0, mantissa, scale⟩

def digit? (c : Char) : Option Nat := if c.isDigit then some (c.toNat - '0'.toNat) else none

/-- Rounds by the first character that does not fit; what follows it does not count. -/
def roundAt (negative : Bool) (mantissa scale : Nat) (next : Char) : Option Decimal :=
  let dropped := if next = '_' ∨ next = '.' then some 0 else digit? next
  match dropped with
  | none => none
  | some dropped =>
      if dropped < 5 then some (ofParts negative mantissa scale)
      else if mantissa + 1 < mantissaLimit then some (ofParts negative (mantissa + 1) scale)
      else if scale = 0 then none
      else some (ofParts negative ((mantissa + 5) / 10) (scale - 1))

/-- Reads digits with at most one point. An underscore may stand behind a digit. -/
def readDigits (negative : Bool) : Bool → Bool → Nat → Nat → List Char → Option Decimal
  | _, seenDigit, mantissa, scale, [] =>
      if seenDigit then some (ofParts negative mantissa scale) else none
  | seenPoint, seenDigit, mantissa, scale, c :: rest =>
      if scaleLimit ≤ scale then roundAt negative mantissa scale c
      else match digit? c with
      | some digit =>
          let longer := 10 * mantissa + digit
          if longer < mantissaLimit then
            readDigits negative seenPoint true longer (if seenPoint then scale + 1 else scale) rest
          else if seenPoint then roundAt negative mantissa scale c
          else none
      | none =>
          if c = '.' ∧ !seenPoint then readDigits negative true seenDigit mantissa scale rest
          else if c = '_' ∧ seenDigit then
            readDigits negative seenPoint seenDigit mantissa scale rest
          else none

def readFixed (text : List Char) : Option Decimal :=
  match text with
  | '-' :: rest => readDigits true false false 0 0 rest
  | '+' :: rest => readDigits false false false 0 0 rest
  | rest => readDigits false false false 0 0 rest

def readNat : Nat → List Char → Option Nat
  | value, [] => some value
  | value, c :: rest =>
      match digit? c with
      | some digit => readNat (10 * value + digit) rest
      | none => none

/-- A number of 32 bits, with or without a plus sign. -/
def readExponent (text : List Char) : Option Nat :=
  let digits := match text with
    | '+' :: rest => rest
    | rest => rest
  if digits.isEmpty then none else (readNat 0 digits).filter (· < UInt32.size)

/-- Moves the point to the left; the new scale is a number of 32 bits. -/
def shiftLeft (d : Decimal) (places : Nat) : Option Decimal :=
  let scale := (d.scale + places) % UInt32.size
  if scale ≤ scaleLimit then some { d with scale } else none

/-- Moves the point to the right, behind the last digit with zeros. -/
def shiftRight (d : Decimal) (places : Nat) : Option Decimal :=
  if places ≤ d.scale then some { d with scale := d.scale - places }
  else if scaleLimit < places then none
  else
    let mantissa := d.mantissa * Nat.pow 10 (places - d.scale)
    if mantissa < mantissaLimit then some { d with mantissa, scale := 0 } else none

/-- A fixed number, an E of either case and an exponent. -/
def readScientific (text : List Char) : Option Decimal :=
  match text.span fun c => c != 'e' && c != 'E' with
  | (_, []) => none
  | (fixed, _ :: exponent) =>
      match readFixed fixed with
      | none => none
      | some d =>
          match exponent with
          | '-' :: places => (readExponent places).bind d.shiftLeft
          | places => (readExponent places).bind d.shiftRight

/-- A fixed number, or else a scientific one. -/
def read (text : List Char) : Option Decimal := readFixed text <|> readScientific text

/-- Drops zeros at the end, at most `scale` of them. -/
def dropZeros (mantissa : Nat) : Nat → Nat × Nat
  | 0 => (mantissa, 0)
  | scale + 1 =>
      if mantissa % 10 = 0 then dropZeros (mantissa / 10) scale else (mantissa, scale + 1)

/-- The same number with the fewest places. -/
def normalize (d : Decimal) : Decimal :=
  let (mantissa, scale) := dropZeros d.mantissa d.scale
  ofParts d.negative mantissa scale

/-- All places are written, and at least one digit before the point. -/
def toText (d : Decimal) : String :=
  let digits := Nat.toDigits 10 d.mantissa
  let padded := List.replicate (d.scale + 1 - digits.length) '0' ++ digits
  let (whole, fraction) := padded.splitAt (padded.length - d.scale)
  let unsigned := if d.scale = 0 then whole else whole ++ '.' :: fraction
  String.ofList (if d.negative then '-' :: unsigned else unsigned)

end Decimal

end ExprLang
