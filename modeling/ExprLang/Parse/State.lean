import ExprLang.Cursor
import ExprLang.Fault
import ExprLang.Forest.Basic
import ExprLang.Language.Written

/-!
The state of a parse, and the steps that change it. A step may stop the whole parse; it has then
recorded a critical fault, and the state keeps all that was done before.
-/

namespace ExprLang

/-- What an extension notes of the state it is called in. -/
structure Sighting where
  extension : String
  position : Nat
  current : Option Char
  atEnd : Bool
  prefixes : List ItemId
  keywords : List ItemId
  trigger : ItemId
  triggerKeyword : KeywordId
  items : Nat
  rest : String
  deriving DecidableEq, Repr

structure ParseState where
  cursor : Cursor
  forest : Forest := {}
  faults : Faults := []
  sightings : List Sighting := []

/-- The parse cannot go on. -/
structure Stopped where
  deriving DecidableEq, Repr

abbrev Parse := EStateM Stopped ParseState

/-- The constructs that hold expressions. -/
inductive Context where
  | root
  | codeBlock
  | braces
  | custom
  deriving DecidableEq, Repr

/-- In a list of statements, a code block behind an expression ends its statement. -/
def Context.endsAtBlock : Context → Bool
  | root | codeBlock => true
  | braces | custom => false

/-- One expression between terminators. -/
structure Segment where
  item : Option ItemId
  /-- The segment ended with a code block and needs no separator. -/
  closedByBlock : Bool
  deriving DecidableEq, Repr

/-- How the expressions inside a construct are parsed. -/
abbrev Inner := Context → Parse Segment

namespace Parse

def text : Parse Text := return (← get).cursor.text

def position : Parse Nat := return (← get).cursor.position

def current? : Parse (Option Char) := return (← get).cursor.current?

def slice (start stop : Nat) : Parse String := return (← get).cursor.slice start stop

def forest : Parse Forest := return (← get).forest

def size : Parse Nat := return (← get).forest.size

def remaining : Parse Nat := return (← get).cursor.remaining

def criticalCount : Parse Nat := return (← get).faults.criticalCount

def moveTo (position : Nat) : Parse Unit :=
  modify fun s => { s with cursor := s.cursor.moveTo position }

def skip (count : Nat) : Parse Unit :=
  modify fun s => { s with cursor := s.cursor.skip count }

def addFault (fault : Fault) : Parse Unit :=
  modify fun s => { s with faults := s.faults ++ [fault] }

/-- Records a fault that the parser recovers from. -/
def report (start length : Nat) (cause : Fault.Cause) : Parse Unit :=
  addFault ⟨start, length, cause, false⟩

/-- Records a critical fault and stops. -/
def stop {α : Type} (start length : Nat) (cause : Fault.Cause) : Parse α := do
  addFault ⟨start, length, cause, true⟩
  throw {}

def stuck {α : Type} (position : Nat) : Parse α :=
  stop position 0 (.parserImplementation "no progress in statement list")

def createToken (kind : TokenKind) (text : String) (start : Nat) : Parse ItemId :=
  modifyGet fun s =>
    let (id, forest) := s.forest.createToken kind text start
    (id, { s with forest })

def create (kind : ItemKind) (start : Nat) : Parse ItemId :=
  modifyGet fun s =>
    let (id, forest) := s.forest.create kind start
    (id, { s with forest })

def changeForest (change : Forest → Forest) : Parse Unit :=
  modify fun s => { s with forest := change s.forest }

/-- Attaches, or does what `refused` says and leaves the forest as it is. -/
def attachOr (refused : AttachError → Parse Unit)
    (attach : Forest → Except AttachError Forest) : Parse Unit := do
  match attach (← forest) with
  | .ok forest => modify fun s => { s with forest }
  | .error error => refused error

/-- The parser attaches in text order only, so it is its own fault if a part is refused. -/
def attach (change : Forest → Except AttachError Forest) : Parse Unit :=
  attachOr (fun error => do stop (← position) 0 (.parserImplementation error.message)) change

def addPrefix (owner item : ItemId) : Parse Unit := attach (·.addPrefix owner item)

def addKeyword (owner item : ItemId) : Parse Unit := attach (·.addKeyword owner item)

def addPostfix (owner item : ItemId) : Parse Unit := attach (·.addPostfix owner item)

def addRegular (owner item : ItemId) : Parse Unit := attach (·.addRegular owner item)

def addChild (owner item : ItemId) : Parse Unit := attach (·.addChild owner item)

/-- Skips blanks and comments; a comment without end is reported once. -/
def skipGap : Parse Unit := do
  let s ← get
  let (cursor, unclosed) := s.cursor.skipGap
  set { s with cursor }
  match unclosed with
  | none => pure ()
  | some start =>
      if (s.faults.covering start).any (·.code == .commentNotClosed) then pure ()
      else
        let marker := (cursor.markers.multiline.map (·.2)).getD ""
        report start (cursor.text.size - start) (.commentNotClosed marker)

end Parse

end ExprLang
