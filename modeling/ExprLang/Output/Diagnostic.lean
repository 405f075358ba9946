import ExprLang.Parse.Document

/-!
Faults located by line and column. Both count from one, and a line ends with its line feed.
-/

namespace ExprLang

/-- Line and column behind the characters, from the line and column before them. -/
def advance : Nat × Nat → List Char → Nat × Nat
  | place, [] => place
  | (line, column), c :: rest =>
      if c = '\n' then advance (line + 1, 1) rest else advance (line, column + 1) rest

/-- Line and column of a position; behind the end they are those of the end. -/
def lineColumn (text : Text) (position : Nat) : Nat × Nat :=
  advance (1, 1) (text.toList.take position)

structure Diagnostic where
  line : Nat
  column : Nat
  start : Nat
  length : Nat
  code : Fault.Code
  message : String
  critical : Bool
  deriving DecidableEq, Repr

namespace Diagnostic

def ofFault (text : Text) (fault : Fault) : Diagnostic :=
  let (line, column) := lineColumn text fault.start
  { line
    column
    start := fault.start
    length := fault.length
    code := fault.code
    message := fault.message
    critical := fault.critical }

def describe (diagnostic : Diagnostic) : String :=
  s!"{diagnostic.line}:{diagnostic.column} [{diagnostic.code.label}] {diagnostic.message}" ++
    if diagnostic.critical then " (critical)" else ""

end Diagnostic

/-- In the order the faults were reported. -/
def Document.diagnostics (document : Document) : List Diagnostic :=
  document.faults.map (.ofFault document.text)

end ExprLang
