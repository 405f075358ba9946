import ExprLang.Unicode.Numeric
import ExprLang.Unicode.Blank
import ExprLang.Unicode.Category
import ExprLang.Unicode.CaseVariants

/-!
Sets of characters as a pattern writes them: ranges, properties and the operations on sets.
-/

namespace ExprLang

inductive CharSet where
  | nothing
  | range (first last : Nat)
  | digit
  | blank
  | word
  | alphabetic
  /-- The general categories of these two-letter names. -/
  | categories (names : List String)
  | union (a b : CharSet)
  | intersection (a b : CharSet)
  | difference (a b : CharSet)
  | symmetricDifference (a b : CharSet)
  | complement (a : CharSet)
  /-- What the set holds up to case. -/
  | anyCase (a : CharSet)
  deriving DecidableEq, Repr

namespace CharSet

/-- Letters, marks, digits, connecting punctuation and the two joiners. -/
def isWordChar (c : Char) : Bool :=
  if c.toNat < 128 then c.isAlphanum || c == '_'
  else Unicode.isAlphabetic c || Unicode.isDigit c || c.toNat == 0x200c || c.toNat == 0x200d ||
    ["Mn", "Mc", "Me", "Pc"].contains (Unicode.category c)

def holds : CharSet → Char → Bool
  | nothing, _ => false
  | range first last, c => first ≤ c.toNat && c.toNat ≤ last
  | digit, c => Unicode.isDigit c
  | blank, c => Unicode.isBlank c
  | word, c => isWordChar c
  | alphabetic, c => Unicode.isAlphabetic c
  | categories names, c => names.contains (Unicode.category c)
  | union a b, c => a.holds c || b.holds c
  | intersection a b, c => a.holds c && b.holds c
  | difference a b, c => a.holds c && !b.holds c
  | symmetricDifference a b, c => a.holds c != b.holds c
  | complement a, c => !a.holds c
  | anyCase a, c => a.holds c || (Unicode.caseVariants c).any a.holds

def single (c : Char) : CharSet := range c.toNat c.toNat

def ofRanges (ranges : List (Char × Char)) : CharSet :=
  ranges.foldr (fun (first, last) set => union (range first.toNat last.toNat) set) nothing

def asciiDigit : CharSet := ofRanges [('0', '9')]

def asciiBlank : CharSet := ofRanges [('\t', '\r'), (' ', ' ')]

def asciiWord : CharSet := ofRanges [('0', '9'), ('A', 'Z'), ('_', '_'), ('a', 'z')]

/-- The ASCII classes that are written between `[:` and `:]`. -/
def asciiClass? : String → Option CharSet
  | "alnum" => some (ofRanges [('0', '9'), ('A', 'Z'), ('a', 'z')])
  | "alpha" => some (ofRanges [('A', 'Z'), ('a', 'z')])
  | "ascii" => some (ofRanges [('\x00', '\x7f')])
  | "blank" => some (ofRanges [('\t', '\t'), (' ', ' ')])
  | "cntrl" => some (ofRanges [('\x00', '\x1f'), ('\x7f', '\x7f')])
  | "digit" => some asciiDigit
  | "graph" => some (ofRanges [('!', '~')])
  | "lower" => some (ofRanges [('a', 'z')])
  | "print" => some (ofRanges [(' ', '~')])
  | "punct" => some (ofRanges [('!', '/'), (':', '@'), ('[', '\x60'), ('\x7b', '~')])
  | "space" => some asciiBlank
  | "upper" => some (ofRanges [('A', 'Z')])
  | "word" => some asciiWord
  | "xdigit" => some (ofRanges [('0', '9'), ('A', 'F'), ('a', 'f')])
  | _ => none

/-- Names compare without case, blanks, hyphens, underscores and a leading "is". -/
def normalName (name : List Char) : String :=
  let plain := (name.filter fun c => c != ' ' && c != '-' && c != '_').map Char.toLower
  match plain with
  | 'i' :: 's' :: rest => if rest.isEmpty then "is" else String.ofList rest
  | _ => String.ofList plain

def category? (name : String) : Option CharSet :=
  (Unicode.categoryNames.find? (·.1.contains name)).map fun (_, letters) => categories letters

/-- The set that a property name stands for. -/
def property? (name : List Char) : Option CharSet :=
  match normalName name with
  | "any" => some (range 0 0x10ffff)
  | "ascii" => some (range 0 0x7f)
  | "assigned" => some (complement (categories ["Cn"]))
  | "alphabetic" | "alpha" => some alphabetic
  | "whitespace" | "space" | "wspace" => some blank
  | normal => category? normal

def propertyValue? (name value : List Char) : Option CharSet :=
  match normalName name with
  | "gc" | "generalcategory" => category? (normalName value)
  | _ => none

end CharSet

end ExprLang
