import ExprLang.Parse.Operand

/-!
Braces with their parameters and code blocks with their statements. What stands inside is parsed by
a parser that is handed in, so nothing here calls itself.
-/

namespace ExprLang.Parse

/-- Parameters up to the closing brace. An empty place counts as a parameter as soon as there is a
comma. The closing brace is absent if something else comes first, which is left to the construct
around the braces. -/
def parameters (inner : Inner) (braces : ItemId) (kind : BraceKind) :
    Nat → List (Option ItemId) → Bool → Parse (List (Option ItemId) × Option ItemId)
  | 0, _, _ => do stuck (← position)
  | passes + 1, before, seenComma => do
      let segment ← inner .braces
      segment.item.forM (addChild braces)
      skipGap
      let place ← position
      let last := if segment.item.isSome || seenComma then before ++ [segment.item] else before
      match ← current? with
      | some c =>
          if c = ',' then
            addRegular braces (← createToken .comma "," place)
            skip 1
            parameters inner braces kind passes (before ++ [segment.item]) true
          else if c = kind.closing then
            let token ← createToken (.closingBrace kind) (String.singleton c) place
            addRegular braces token
            skip 1
            return (last, some token)
          else
            report place 0 (.closingBraceMissing kind.closing)
            return (last, none)
      | none =>
          report place 0 (.closingBraceMissing kind.closing)
          return (last, none)

/-- Parses braces at the cursor, with the name that stands before them. -/
def braces (inner : Inner) (name : Option ItemId) : Parse ItemId := do
  let start ← position
  let c ← current?
  match c.bind BraceKind.ofOpening? with
  | none =>
      let found := (c.map String.singleton).getD ""
      stop start 0 (.parserImplementation s!"expected an opening brace, found '{found}'")
  | some kind =>
      let opening ← createToken (.openingBrace kind) (String.singleton kind.opening) start
      let item ← create (.braces kind name opening none []) start
      name.forM (addChild item)
      addRegular item opening
      skip 1
      let (parameters, closing) ← parameters inner item kind ((← remaining) + 1) [] false
      changeForest (·.setKind item (.braces kind name opening closing parameters))
      return item

/-- Parses a name, and the braces it belongs to if some follow. -/
def literal? (grammar : Grammar) (inner : Inner) : Parse (Option ItemId) := do
  match ← name? grammar with
  | none => return none
  | some name =>
      let cursor := (← get).cursor
      if Grammar.isOpeningBraceAt cursor.text (cursor.gapEnd cursor.position) then
        skipGap
        return some (← braces inner (some name))
      else return some name

/-! Lists of statements -/

def noteStatement (statement : ItemId) : ItemKind → ItemKind
  | .root statements separators => .root (statements ++ [statement]) separators
  | .codeBlock start stop statements => .codeBlock start stop (statements ++ [statement])
  | kind => kind

def noteSeparator (separator : ItemId) : ItemKind → ItemKind
  | .root statements separators => .root statements (separators ++ [separator])
  | kind => kind

def noteBlockEnd (stop : ItemId) : ItemKind → ItemKind
  | .codeBlock start _ statements => .codeBlock start (some stop) statements
  | kind => kind

def changeKind (item : ItemId) (change : ItemKind → ItemKind) : Parse Unit :=
  changeForest (·.modify item fun item => { item with kind := change item.kind })

def addStatement (owner item : ItemId) : Parse Unit := do
  addChild owner item
  changeKind owner (noteStatement item)

def addSeparator (owner : ItemId) (place : Nat) : Parse Unit := do
  let token ← createToken .separator (← slice place (place + 1)) place
  addRegular owner token
  changeKind owner (noteSeparator token)
  skip 1

/-- Reports and skips a symbol that has no place in a list of statements. -/
def unexpected (place length : Nat) : Parse Unit := do
  report place length (.unexpectedSymbol (← slice place (place + length)))
  skip length

def isStrayTerminator (c : Char) : Bool := c == ',' || c == ')' || c == ']'

/-- Statements up to the end marker of their code block, which starts at `blockStart`. -/
def blockStatements (grammar : Grammar) (inner : Inner) (block : ItemId) (markers : MarkerPair)
    (blockStart : Nat) : Nat → Parse Unit
  | 0 => do stuck (← position)
  | passes + 1 => do
      let start ← position
      let segment ← inner .codeBlock
      segment.item.forM (addStatement block)
      skipGap
      let place ← position
      let again := blockStatements grammar inner block markers blockStart passes
      match ← current? with
      | none =>
          report blockStart markers.start.length (.codeBlockEndMarkerMissing markers.stop)
      | some c =>
          if grammar.isBlockEndAt (← text) place then
            let length := markers.stop.length
            let token ← createToken .codeBlockEnd (← slice place (place + length)) place
            addRegular block token
            changeKind block (noteBlockEnd token)
            skip length
          else if some c = grammar.separator then
            addSeparator block place
            again
          else if segment.closedByBlock then again
          else if isStrayTerminator c then
            unexpected place 1
            again
          else if place = start then stuck place
          else again

/-- Parses a code block at its start marker. -/
def codeBlock (grammar : Grammar) (inner : Inner) : Parse ItemId := do
  let start ← position
  match grammar.codeBlock with
  | none => stuck start
  | some markers =>
      let length := markers.start.length
      let token ← createToken .codeBlockStart (← slice start (start + length)) start
      let block ← create (.codeBlock token none []) start
      addRegular block token
      skip length
      blockStatements grammar inner block markers start ((← remaining) + 1)
      return block

/-- Deals with what stands behind a statement of the root, which began at `start`, and tells whether
the text goes on. -/
def afterStatement (grammar : Grammar) (root start : Nat) (closedByBlock : Bool) : Parse Bool := do
  skipGap
  let place ← position
  match ← current? with
  | none => return false
  | some c =>
      if some c = grammar.separator then
        addSeparator root place
        return true
      else if closedByBlock then return true
      else if grammar.isBlockEndAt (← text) place then
        unexpected place ((grammar.codeBlock.map (·.stop.length)).getD 1)
        return true
      else if isStrayTerminator c then
        unexpected place 1
        return true
      else if place = start then stuck place
      else return true

/-- Statements up to the end of the text. -/
def rootStatements (grammar : Grammar) (inner : Inner) (root : ItemId) : Nat → Parse Unit
  | 0 => do stuck (← position)
  | passes + 1 => do
      let start ← position
      let segment ← inner .root
      segment.item.forM (addStatement root)
      if ← afterStatement grammar root start segment.closedByBlock then
        rootStatements grammar inner root passes

end ExprLang.Parse
