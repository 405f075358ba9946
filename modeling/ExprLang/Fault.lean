/-!
What is wrong with a parsed text. A fault keeps its cause; the code and the wording follow from
the cause. A critical fault is where the parser stopped, any other one it recovered from.
-/

namespace ExprLang

/-- Extensions number their own faults from here on. -/
def customCodeStart : Nat := 10000

namespace Fault

inductive Code where
  | invalidSymbol
  | unexpectedSymbol
  | binaryOperatorMissing
  | noSeparationBetweenSymbols
  | operandMissing
  | constantTextNotClosed
  | multipleOccurrencesOfKeyword
  | invalidUseOfPrefixesOrKeywords
  | postfixHasNoTarget
  | postfixRejected
  | closingBraceMissing
  | codeBlockEndMarkerMissing
  | commentNotClosed
  | parserImplementation
  | customExpressionFailed
  | custom (number : Nat)
  deriving DecidableEq, Repr

namespace Code

def number : Code → Nat
  | invalidSymbol => 1
  | unexpectedSymbol => 2
  | binaryOperatorMissing => 3
  | noSeparationBetweenSymbols => 4
  | operandMissing => 5
  | constantTextNotClosed => 6
  | multipleOccurrencesOfKeyword => 7
  | invalidUseOfPrefixesOrKeywords => 8
  | postfixHasNoTarget => 9
  | postfixRejected => 10
  | closingBraceMissing => 11
  | codeBlockEndMarkerMissing => 12
  | commentNotClosed => 13
  | parserImplementation => 14
  | customExpressionFailed => 15
  | custom number => number

/-- The parser's own code of that number, if it has one. -/
def ofNumber : Nat → Code
  | 1 => invalidSymbol
  | 2 => unexpectedSymbol
  | 3 => binaryOperatorMissing
  | 4 => noSeparationBetweenSymbols
  | 5 => operandMissing
  | 6 => constantTextNotClosed
  | 7 => multipleOccurrencesOfKeyword
  | 8 => invalidUseOfPrefixesOrKeywords
  | 9 => postfixHasNoTarget
  | 10 => postfixRejected
  | 11 => closingBraceMissing
  | 12 => codeBlockEndMarkerMissing
  | 13 => commentNotClosed
  | 14 => parserImplementation
  | 15 => customExpressionFailed
  | number => custom number

/-- The letter E and at least four digits. -/
def label (code : Code) : String :=
  let digits := toString code.number
  "E" ++ "".pushn '0' (4 - digits.length) ++ digits

end Code

inductive Cause where
  | invalidSymbol (symbol : Char)
  | unexpectedSymbol (symbol : String)
  | binaryOperatorMissing
  | noSeparationBetweenSymbols
  | operandMissing (operator : String)
  | constantTextNotClosed (quote : Char)
  | multipleOccurrencesOfKeyword (keyword : String)
  | invalidUseOfPrefixesOrKeywords
  | postfixHasNoTarget
  | postfixRejected
  | closingBraceMissing (expected : Char)
  | codeBlockEndMarkerMissing (marker : String)
  | commentNotClosed (marker : String)
  | parserImplementation (details : String)
  | customExpressionFailed (details : String)
  | custom (code : Nat) (message : String)
  deriving DecidableEq, Repr

namespace Cause

def code : Cause → Code
  | invalidSymbol _ => .invalidSymbol
  | unexpectedSymbol _ => .unexpectedSymbol
  | binaryOperatorMissing => .binaryOperatorMissing
  | noSeparationBetweenSymbols => .noSeparationBetweenSymbols
  | operandMissing _ => .operandMissing
  | constantTextNotClosed _ => .constantTextNotClosed
  | multipleOccurrencesOfKeyword _ => .multipleOccurrencesOfKeyword
  | invalidUseOfPrefixesOrKeywords => .invalidUseOfPrefixesOrKeywords
  | postfixHasNoTarget => .postfixHasNoTarget
  | postfixRejected => .postfixRejected
  | closingBraceMissing _ => .closingBraceMissing
  | codeBlockEndMarkerMissing _ => .codeBlockEndMarkerMissing
  | commentNotClosed _ => .commentNotClosed
  | parserImplementation _ => .parserImplementation
  | customExpressionFailed _ => .customExpressionFailed
  | custom number _ => .custom number

def message : Cause → String
  | invalidSymbol symbol => s!"invalid symbol '{symbol}'"
  | unexpectedSymbol symbol => s!"unexpected '{symbol}'"
  | binaryOperatorMissing => "binary operator missing"
  | noSeparationBetweenSymbols => "no separation between symbols"
  | operandMissing operator => s!"operand missing for operator '{operator}'"
  | constantTextNotClosed quote => s!"text constant is not closed, expected {quote}"
  | multipleOccurrencesOfKeyword keyword => s!"keyword '{keyword}' is used more than once"
  | invalidUseOfPrefixesOrKeywords => "prefixes or keywords must be followed by an expression"
  | postfixHasNoTarget => "postfix has no expression to apply to"
  | postfixRejected => "postfix cannot be applied to this expression"
  | closingBraceMissing expected => s!"closing brace '{expected}' is missing"
  | codeBlockEndMarkerMissing marker => s!"code block end marker '{marker}' is missing"
  | commentNotClosed marker => s!"comment is not closed, expected '{marker}'"
  | parserImplementation details => s!"parser implementation error: {details}"
  | customExpressionFailed details => s!"custom expression parser failed: {details}"
  | custom _ message => message

/-- Causes that stop the parser unless it is told otherwise. -/
def criticalByDefault : Cause → Bool
  | invalidSymbol _ | parserImplementation _ | customExpressionFailed _ => true
  | _ => false

end Cause

end Fault

structure Fault where
  start : Nat
  length : Nat
  cause : Fault.Cause
  critical : Bool := cause.criticalByDefault
  deriving DecidableEq, Repr

namespace Fault

def code (fault : Fault) : Code := fault.cause.code

def message (fault : Fault) : String := fault.cause.message

def stop (fault : Fault) : Nat := fault.start + fault.length

def describe (fault : Fault) : String :=
  s!"{fault.code.label} at {fault.start}: {fault.message}"

/-- A fault without length covers its own position. -/
def covers (fault : Fault) (position : Nat) : Bool :=
  if fault.length = 0 then fault.start == position
  else fault.start ≤ position && position < fault.stop

def startsWithin (fault : Fault) (start stop : Nat) : Bool :=
  start ≤ fault.start && fault.start < stop

end Fault

/-- The faults of one parse, in the order they were reported. -/
abbrev Faults := List Fault

namespace Faults

def covering (faults : Faults) (position : Nat) : List Fault :=
  faults.filter (·.covers position)

def within (faults : Faults) (start stop : Nat) : List Fault :=
  faults.filter (·.startsWithin start stop)

def withCode (faults : Faults) (code : Fault.Code) : List Fault :=
  faults.filter (·.code == code)

def hasCritical (faults : Faults) : Bool := faults.any (·.critical)

def criticalCount (faults : Faults) : Nat := faults.countP (·.critical)

end Faults

end ExprLang
