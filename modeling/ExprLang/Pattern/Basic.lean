import ExprLang.Pattern.CharSet

/-!
Patterns for numeric literals. A pattern prefers: the left branch of an alternative to the right
one, and more repetitions to fewer unless it is reluctant.
-/

namespace ExprLang

/-- A place in a text that consumes no character. -/
inductive Assertion where
  | textStart
  | textEnd
  | lineStart
  | lineEnd
  /-- Lines that end in a carriage return, a line feed or both. -/
  | anyLineStart
  | anyLineEnd
  | wordBoundary
  | notWordBoundary
  | wordStart
  | wordEnd
  | wordStartHalf
  | wordEndHalf
  deriving DecidableEq, Repr

inductive Pattern where
  | empty
  | char (set : CharSet)
  /-- `wordChars` says which characters make up words. -/
  | assertion (place : Assertion) (wordChars : CharSet)
  | sequence (p q : Pattern)
  | alternative (p q : Pattern)
  | repetition (p : Pattern) (min : Nat) (max : Option Nat) (eager : Bool)
  deriving DecidableEq, Repr

namespace Pattern

def ofSequence : List Pattern → Pattern
  | [] => empty
  | [p] => p
  | p :: ps => sequence p (ofSequence ps)

def ofBranches : List Pattern → Pattern
  | [] => empty
  | [p] => p
  | p :: ps => alternative p (ofBranches ps)

end Pattern

end ExprLang
