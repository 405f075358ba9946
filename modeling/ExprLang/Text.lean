import ExprLang.Unicode.Lowercase
import ExprLang.Unicode.Blank

/-!
A text is its characters, and a position counts characters. A symbol is written at a position when
its characters stand there one by one; without case sensitivity two characters are the same when
they have the same lowercase.
-/

namespace ExprLang

abbrev Text := Array Char

def sameChar (caseSensitive : Bool) (actual expected : Char) : Bool :=
  actual == expected ||
    (!caseSensitive && Unicode.lowercase actual == Unicode.lowercase expected)

namespace Text

def ofString (text : String) : Text := text.toList.toArray

/-- The characters from `start` up to `stop`, both cut to the text. -/
def slice (text : Text) (start stop : Nat) : String :=
  String.ofList (text.extract start stop).toList

/-- The characters from `start` to the end. -/
def rest (text : Text) (start : Nat) : List Char :=
  (text.extract start text.size).toList

def spells (text : Text) (caseSensitive : Bool) : List Char → Nat → Bool
  | [], _ => true
  | expected :: symbol, position =>
      match text[position]? with
      | none => false
      | some actual =>
          sameChar caseSensitive actual expected && spells text caseSensitive symbol (position + 1)

/-- The empty symbol is written nowhere. -/
def isWritten (text : Text) (caseSensitive : Bool) (position : Nat) (symbol : String) : Bool :=
  !symbol.isEmpty && text.spells caseSensitive symbol.toList position

/-- The first of the next `steps` positions that satisfies `found`, or the one after them. -/
def seek (found : Nat → Bool) : Nat → Nat → Nat
  | 0, position => position
  | steps + 1, position => if found position then position else seek found steps (position + 1)

def isBlankAt (text : Text) (position : Nat) : Bool :=
  text[position]?.any Unicode.isBlank

end Text

end ExprLang
