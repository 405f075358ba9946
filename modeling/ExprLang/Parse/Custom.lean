import ExprLang.Parse.Enclosed

/-!
Running an extension at its trigger keyword. An extension may decline, and then the parser goes on
from the trigger as if the cursor had not moved and no item had been made; faults and comments that
it met stay. If it fails, or if a critical fault came up while it ran, the parse stops.
-/

namespace ExprLang

inductive ScriptError where
  | message (text : String)
  | invalidErrorCode (code : Nat)
  /-- The parser stopped on a critical fault while the extension used it. -/
  | parseStopped
  deriving DecidableEq, Repr

def ScriptError.describe : ScriptError → String
  | message text => text
  | invalidErrorCode code => s!"custom error code {code} is below {customCodeStart}"
  | parseStopped => "parsing stopped on a critical error"

/-- Ways to leave a script before its end. -/
inductive ScriptExit where
  | declined
  | failed (error : ScriptError)
  deriving DecidableEq, Repr

/-- A part of a custom expression. -/
inductive CustomPart where
  | token (item : ItemId)
  | child (item : ItemId)
  deriving DecidableEq, Repr

/-- What surrounds the call of an extension. -/
structure Trigger where
  /-- Prefixes that are not attached yet. -/
  prefixes : List ItemId
  /-- Keywords before the trigger. -/
  before : List ItemId
  token : ItemId
  keyword : KeywordId
  deriving DecidableEq, Repr

abbrev Script := EStateM ScriptExit ParseState

namespace Script

/-- Runs a step of the parser and tells whether it stopped. -/
def attempt {α : Type} (step : Parse α) : Script (Except Stopped α) := fun s =>
  match step s with
  | .ok value s => .ok (.ok value) s
  | .error stopped s => .ok (.error stopped) s

/-- Runs a step of the parser; if it stops, the script fails. -/
def run {α : Type} (step : Parse α) : Script α := do
  match ← attempt step with
  | .ok value => return value
  | .error _ => throw (.failed .parseStopped)

def isHere (grammar : Grammar) (symbol : String) : Script Bool := do
  let cursor := (← get).cursor
  return grammar.isSymbolAt cursor.text cursor.position symbol

/-- A token of the next `length` characters. -/
def token (length : Nat) : Script ItemId := do
  let cursor := (← get).cursor
  let text := cursor.slice cursor.position (cursor.position + length)
  run (Parse.skip length)
  run (Parse.createToken .custom text cursor.position)

def wordLength (text : Text) (start : Nat) : Nat :=
  Text.seek (fun i => !text[i]?.any Unicode.isAlphanumeric) (text.size - start) start - start

def piece? (grammar : Grammar) (inner : Inner) : Extension.Piece → Parse (Option ItemId)
  | .name => do
      Parse.skipGap
      Parse.name? grammar
  | .braces => do
      Parse.skipGap
      if Grammar.isOpeningBraceAt (← Parse.text) (← Parse.position) then
        return some (← Parse.braces inner none)
      else return none
  | .codeBlock => do
      Parse.skipGap
      if grammar.isBlockStartAt (← Parse.text) (← Parse.position) then
        return some (← Parse.codeBlock grammar inner)
      else return none
  | .expression => return (← inner .custom).item

def observe (extension : Extension) (trigger : Trigger) : Script Unit :=
  modify fun s => { s with sightings := s.sightings ++ [{
    extension := extension.name
    position := s.cursor.position
    current := s.cursor.current?
    atEnd := s.cursor.atEnd
    prefixes := trigger.prefixes
    keywords := trigger.before
    trigger := trigger.token
    triggerKeyword := trigger.keyword
    items := s.forest.size
    rest := String.ofList (s.cursor.text.rest s.cursor.position) }] }

def swapLast : List CustomPart → List CustomPart
  | [] => []
  | [a] => [a]
  | [a, b] => [b, a]
  | a :: b :: c :: rest => a :: swapLast (b :: c :: rest)

mutual

/-- Runs one step; `parts` are the parts so far. -/
def step (grammar : Grammar) (inner : Inner) (extension : Extension) (trigger : Trigger)
    (parts : List CustomPart) : Extension.Step → Script (List CustomPart)
  | .log => do
      observe extension trigger
      return parts
  | .skip count => do
      run (Parse.skip count)
      return parts
  | .skipSpaces => do
      run Parse.skipGap
      return parts
  | .expect symbol => do
      if ← isHere grammar symbol then return parts else throw .declined
  | .branch symbol yes no => do
      if ← isHere grammar symbol then steps grammar inner extension trigger parts yes
      else steps grammar inner extension trigger parts no
  | .token length => do return parts ++ [.token (← token length)]
  | .word => do
      let cursor := (← get).cursor
      match wordLength cursor.text cursor.position with
      | 0 => throw .declined
      | length => return parts ++ [.token (← token length)]
  | .parse piece optional keep onStop => do
      match ← attempt (piece? grammar inner piece) with
      | .ok (some item) =>
          match keep with
          | .child => return parts ++ [.child item]
          | .token => return parts ++ [.token item]
          | .dropped => return parts
      | .ok none => if optional then return parts else throw .declined
      | .error _ =>
          match onStop with
          | .pass => throw (.failed .parseStopped)
          | .decline => throw .declined
          | .carryOn => return parts
          | .fail => throw (.failed (.message s!"wrapped: {ScriptError.parseStopped.describe}"))
  | .report offset length code message critical => do
      if code < customCodeStart then throw (.failed (.invalidErrorCode code))
      let start := (← get).cursor.position + offset
      run (Parse.addFault ⟨start, length, .custom code message, critical⟩)
      return parts
  | .fail message => throw (.failed (.message message))
  | .decline => throw .declined
  | .again => return parts ++ parts.getLast?.toList
  | .swap => return swapLast parts
  | .trigger => return parts ++ [.token trigger.token]
  | .child id => return parts ++ [.child id]
  | .unknown name => throw (.failed (.message s!"unknown step {name}"))

def steps (grammar : Grammar) (inner : Inner) (extension : Extension) (trigger : Trigger)
    (parts : List CustomPart) : List Extension.Step → Script (List CustomPart)
  | [] => return parts
  | first :: rest => do
      let parts ← step grammar inner extension trigger parts first
      steps grammar inner extension trigger parts rest

end

end Script

inductive ScriptOutcome where
  | declined
  | finished (parts : List CustomPart)
  | failed (error : ScriptError)
  deriving DecidableEq, Repr

namespace Parse

def runScript (script : Script (List CustomPart)) : Parse ScriptOutcome := fun s =>
  match script s with
  | .ok parts s => .ok (.finished parts) s
  | .error .declined s => .ok .declined s
  | .error (.failed error) s => .ok (.failed error) s

/-- Builds a custom expression: the keywords before the trigger, the trigger, then the parts. A part
that cannot be attached is the extension's fault. -/
def createCustom (extension : Extension) (trigger : Trigger) (parts : List CustomPart) :
    Parse ItemId := do
  let start := (← forest).start (trigger.before.head?.getD trigger.token)
  let kind := .custom extension.category trigger.keyword extension.name extension.accepts
  let item ← create kind start
  let attach := attachOr fun error => stop start 0 (.customExpressionFailed error.message)
  trigger.before.forM fun keyword => attach (·.addKeyword item keyword)
  attach (·.addRegular item trigger.token)
  parts.forM fun part => match part with
    | .token part => attach (·.addRegular item part)
    | .child part => attach (·.addChild item part)
  return item

/-- Tries extensions in order, each from the position `start`, until one gives an expression. -/
def tryExtensions (grammar : Grammar) (inner : Inner) (trigger : Trigger) (start : Nat) :
    List Extension → Parse (Option ItemId)
  | [] => return none
  | extension :: rest => do
      let critical ← criticalCount
      let size ← size
      let outcome ← runScript (Script.steps grammar inner extension trigger [] extension.steps)
      let hasStopped := critical < (← criticalCount)
      match outcome with
      | .declined =>
          if hasStopped then throw {}
          moveTo start
          changeForest (·.truncate size)
          tryExtensions grammar inner trigger start rest
      | .finished parts =>
          let item ← createCustom extension trigger parts
          if hasStopped then throw {}
          return some item
      | .failed error =>
          if error = .parseStopped && hasStopped then throw {}
          stop ((← forest).start trigger.token) 0 (.customExpressionFailed error.describe)

def keywordId? (token : ItemId) : Parse (Option KeywordId) := do
  match (← forest).tokenKind? token with
  | some (.keyword id) => return some id
  | _ => return none

/-- Runs the extensions that the last keyword triggers. -/
def custom? (grammar : Grammar) (inner : Inner) (prefixes keywords : List ItemId) :
    Parse (Option ItemId) := do
  match keywords.getLast? with
  | none => return none
  | some token =>
      match ← keywordId? token with
      | none => return none
      | some keyword =>
          let trigger := { prefixes, before := keywords.dropLast, token, keyword }
          tryExtensions grammar inner trigger (← position) (grammar.extensionsFor keyword)

end Parse

end ExprLang
