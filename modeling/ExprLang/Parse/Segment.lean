import ExprLang.Parse.Custom
import ExprLang.Parse.Resolve

/-!
A segment is one expression: prefixes and keywords, an operand, postfixes, and so on with each
operator, up to a terminator. Its operands and operators are collected first and resolved at the
end. Prefixes and keywords before the first of them belong to the whole expression, later ones to
the operand that follows them.

Each pass through the segment consumes a character or ends it. A segment inside another one starts
behind the start of that one, so the length of the text bounds how deep segments nest.
-/

namespace ExprLang

/-- Prefixes and keywords that are not attached yet. -/
structure Modifiers where
  prefixes : List ItemId := []
  keywords : List ItemId := []
  deriving DecidableEq, Repr

namespace Modifiers

def isEmpty (modifiers : Modifiers) : Bool :=
  modifiers.prefixes.isEmpty && modifiers.keywords.isEmpty

def append (a b : Modifiers) : Modifiers :=
  ⟨a.prefixes ++ b.prefixes, a.keywords ++ b.keywords⟩

end Modifiers

/-- A segment as far as it has been parsed. -/
structure Draft where
  terms : List Term := []
  pending : Modifiers := {}
  /-- What stands before the first term. -/
  lead : Modifiers := {}
  deriving DecidableEq, Repr

namespace Draft

def addTerm (draft : Draft) (term : Term) : Draft := { draft with terms := draft.terms ++ [term] }

/-- The pending modifiers turn out to stand before the first term. -/
def leadWithPending (draft : Draft) : Draft :=
  { draft with lead := draft.lead.append draft.pending, pending := {} }

end Draft

/-- What was found where an operand can stand. -/
inductive Found where
  | operand (item : ItemId)
  | operators (written : OperatorMatch)
  /-- A custom expression with nothing to apply to. -/
  | stray (item : ItemId)
  /-- A custom expression that applies to what follows. -/
  | prefixed (item : ItemId)
  | nothing
  deriving DecidableEq, Repr

namespace Parse

/-- Parses keywords one after another behind those in `keywords`. A repeated keyword is dropped and
ends the run. -/
def keywordRun (grammar : Grammar) (reportRepeats : Bool) :
    Nat → List ItemId → Parse (List ItemId)
  | 0, keywords => return keywords
  | passes + 1, keywords => do
      skipGap
      let start ← position
      match grammar.keywordAt? (← text) start with
      | none => return keywords
      | some keyword =>
          let length := keyword.text.length
          let written ← slice start (start + length)
          skip length
          let forest ← forest
          if keywords.any fun k => forest.tokenKind? k == some (.keyword keyword.id) then
            if reportRepeats then report start length (.multipleOccurrencesOfKeyword written)
            return keywords
          else
            let token ← createToken (.keyword keyword.id) written start
            keywordRun grammar reportRepeats passes (keywords ++ [token])

def attachModifiers (owner : ItemId) (modifiers : Modifiers) : Parse Unit := do
  modifiers.prefixes.forM (addPrefix owner)
  modifiers.keywords.forM (addKeyword owner)

/-- Reports modifiers that have no operand and puts them into a series of their own. -/
def misplaced (modifiers : Modifiers) : Parse ItemId := do
  let forest ← forest
  let items := modifiers.prefixes ++ modifiers.keywords
  let start := (items.head?.map forest.start).getD 0
  let stop := (items.getLast?.map forest.stop).getD start
  report start (stop - start) .invalidUseOfPrefixesOrKeywords
  let series ← create .series start
  attachModifiers series modifiers
  return series

/-- Whether something that can start an operand follows the cursor. -/
def operandFollows (grammar : Grammar) : Parse Bool := do
  let cursor := (← get).cursor
  let place := cursor.gapEnd cursor.position
  return !(grammar.isTerminatorAt cursor.text place || grammar.isBlockStartAt cursor.text place ||
    (grammar.operatorAt? cursor.text place true).isSome)

/-- Parses prefixes and keywords. Braces without a name are a prefix if an operand follows them and
the operand otherwise. -/
def modifiers (grammar : Grammar) (inner : Inner) :
    Nat → Modifiers → Parse (Modifiers × Option ItemId)
  | 0, pending => return (pending, none)
  | passes + 1, pending => do
      skipGap
      if grammar.supportsPrefixes && pending.keywords.isEmpty &&
          Grammar.isOpeningBraceAt (← text) (← position) then
        let item ← braces inner none
        if ← operandFollows grammar then
          modifiers grammar inner passes { pending with prefixes := pending.prefixes ++ [item] }
        else return (pending, some item)
      else if grammar.supportsKeywords then
        let keywords ← keywordRun grammar true ((← remaining) + 1) pending.keywords
        if pending.keywords.length < keywords.length then
          modifiers grammar inner passes { pending with keywords }
        else return (pending, none)
      else return (pending, none)

/-- What a custom expression is good for where an operand can stand. -/
def placeCustom (grammar : Grammar) (item : ItemId) : Parse Found := do
  let forest ← forest
  let category := match forest.kind? item with
    | some (.custom category ..) => category
    | _ => .regular
  match category with
  | .regular => return .operand item
  | .prefixed =>
      if grammar.supportsPrefixes then return .prefixed item
      report (forest.start item) (forest.length item) .invalidUseOfPrefixesOrKeywords
      return .stray item
  | .postfixed =>
      report (forest.start item) (forest.length item) .postfixHasNoTarget
      return .stray item

/-- Whether an operator that follows the terms stands behind an operand. -/
def isAfterOperand (terms : List Term) : Bool :=
  match terms.getLast? with
  | some (.operand _) => true
  | some (.operators written) => written.canBe .postfixOp
  | _ => false

/-- Parses an operand that is no custom expression, or an operator in its place. -/
def plainOperand (grammar : Grammar) (inner : Inner) (terms : List Term) : Parse Found := do
  let place ← position
  let text ← text
  if grammar.isTerminatorAt text place then return .nothing
  match text[place]? with
  | none => return .nothing
  | some c =>
      if grammar.quotes.contains c then return .operand (← textConstant grammar c)
      match grammar.numberAt? text place with
      | some written => return .operand (← number written)
      | none =>
          if Grammar.isOpeningBraceAt text place then return .operand (← braces inner none)
          if grammar.isBlockStartAt text place then return .operand (← codeBlock grammar inner)
          match grammar.operatorAt? text place (isAfterOperand terms) with
          | some written =>
              moveTo written.stop
              return .operators written
          | none =>
              match ← literal? grammar inner with
              | some item => return .operand item
              | none => stop place 1 (.invalidSymbol c)

/-- Parses what stands where an operand can. A custom expression takes over the keywords. -/
def operand (grammar : Grammar) (inner : Inner) (draft : Draft) : Parse (Found × Modifiers) := do
  skipGap
  let pending := draft.pending
  match ← custom? grammar inner pending.prefixes pending.keywords with
  | some item => return (← placeCustom grammar item, { pending with keywords := [] })
  | none => return (← plainOperand grammar inner draft.terms, pending)

/-! Postfixes -/

def isPostfixCustom (forest : Forest) (item : ItemId) : Bool :=
  match forest.kind? item with
  | some (.custom .postfixed ..) => true
  | _ => false

/-- Parses keywords behind an operand and the custom expression that the last one triggers. -/
def triggeredBehind? (grammar : Grammar) (inner : Inner) : Parse (Option ItemId) := do
  let keywords ← keywordRun grammar false ((← remaining) + 1) []
  match keywords.getLast? with
  | none => return none
  | some last =>
      match ← keywordId? last with
      | none => return none
      | some id =>
          if (grammar.extensionsFor id).isEmpty then return none
          else custom? grammar inner [] keywords

/-- Goes back to an earlier state, but for the comments and sightings since then. -/
def rollBack (before : ParseState) : Parse Unit :=
  modify fun s => { s with
    cursor := s.cursor.moveTo before.cursor.position
    faults := s.faults.take before.faults.length
    forest := s.forest.truncate before.forest.size }

/-- Tries to parse keywords and a postfix custom expression that they trigger. Anything else is
undone: the cursor, the faults and the forest are what they were. -/
def customPostfix? (grammar : Grammar) (inner : Inner) : Parse (Option ItemId) := do
  if !grammar.supportsKeywords then return none
  let before ← get
  match ← triggeredBehind? grammar inner with
  | some item =>
      if isPostfixCustom (← forest) item then return some item
      rollBack before
      return none
  | none =>
      rollBack before
      return none

/-- Attaches a postfix, or reports that its target does not take it. -/
def attachPostfix (target postfixed : ItemId) : Parse Bool := do
  let forest ← forest
  if forest.acceptsPostfix target postfixed then
    addPostfix target postfixed
    return true
  else
    report (forest.start postfixed) (forest.length postfixed) .postfixRejected
    return false

structure PostfixRun where
  /-- A code block ended the statement. -/
  closedByBlock : Bool
  rejected : Option ItemId
  deriving DecidableEq, Repr

/-- Parses the postfixes of an operand; a rejected one ends the run. -/
def postfixes (grammar : Grammar) (inner : Inner) (context : Context) (target : ItemId) :
    Nat → Parse PostfixRun
  | 0 => return ⟨false, none⟩
  | passes + 1 => do
      skipGap
      if grammar.isBlockStartAt (← text) (← position) then
        let block ← codeBlock grammar inner
        if !(← attachPostfix target block) then return ⟨context.endsAtBlock, some block⟩
        else if context.endsAtBlock then return ⟨true, none⟩
        else postfixes grammar inner context target passes
      else
        match ← customPostfix? grammar inner with
        | none => return ⟨false, none⟩
        | some item =>
            if ← attachPostfix target item then postfixes grammar inner context target passes
            else return ⟨false, some item⟩

/-! Passes -/

/-- Whether a segment goes on, or else whether a code block closed it. -/
inductive Progress where
  | again
  | done (closedByBlock : Bool)
  deriving DecidableEq, Repr

/-- The pending modifiers have nothing to apply to: they lead the expression if nothing is before
them, and are misplaced otherwise. -/
def settlePending (draft : Draft) : Parse Draft := do
  if draft.pending.isEmpty then return draft
  else if draft.terms.isEmpty then return draft.leadWithPending
  else return { draft with pending := {} }.addTerm (.stray (← misplaced draft.pending))

/-- The pending modifiers lead the expression if nothing is before them, and belong to the operand
`item` otherwise. -/
def modifyOperand (draft : Draft) (item : ItemId) : Parse Draft := do
  if draft.terms.isEmpty then return draft.leadWithPending
  attachModifiers item draft.pending
  return { draft with pending := {} }

/-- Goes on behind an operand. -/
def afterOperand (grammar : Grammar) (inner : Inner) (context : Context) (draft : Draft)
    (item : ItemId) : Parse (Draft × Progress) := do
  let draft ← modifyOperand draft item
  let run ← postfixes grammar inner context item ((← remaining) + 1)
  let draft := draft.addTerm (.operand item)
  let draft := match run.rejected with
    | none => draft
    | some rejected => draft.addTerm (.stray rejected)
  if run.closedByBlock then return (draft, .done true)
  skipGap
  let place ← position
  let text ← text
  if grammar.isTerminatorAt text place then return (draft, .done false)
  match grammar.operatorAt? text place true with
  | none => return (draft, .again)
  | some written =>
      moveTo written.stop
      return (draft.addTerm (.operators written), .again)

/-- From prefixes and keywords through an operand to the operator behind it. -/
def pass (grammar : Grammar) (inner : Inner) (context : Context) (draft : Draft) :
    Parse (Draft × Progress) := do
  let (pending, item) ← modifiers grammar inner ((← remaining) + 1) draft.pending
  let draft := { draft with pending }
  match item with
  | some item => afterOperand grammar inner context draft item
  | none =>
      let (found, pending) ← operand grammar inner draft
      let draft := { draft with pending }
      match found with
      | .operand item => afterOperand grammar inner context draft item
      | .operators written =>
          return ((← settlePending draft).addTerm (.operators written), .again)
      | .stray item =>
          if draft.pending.prefixes.isEmpty then return (draft.addTerm (.stray item), .again)
          let stray ← misplaced { prefixes := draft.pending.prefixes }
          let draft := { draft with pending := {} }.addTerm (.stray stray)
          return (draft.addTerm (.stray item), .again)
      | .prefixed item =>
          let pending := { draft.pending with prefixes := draft.pending.prefixes ++ [item] }
          return ({ draft with pending }, .again)
      | .nothing => return (draft, .done false)

def passes (grammar : Grammar) (inner : Inner) (context : Context) :
    Nat → Draft → Parse (Draft × Bool)
  | 0, _ => do stuck (← position)
  | count + 1, draft => do
      match ← pass grammar inner context draft with
      | (draft, .again) => passes grammar inner context count draft
      | (draft, .done closedByBlock) => return (draft, closedByBlock)

/-- Parses one segment; `inner` parses the segments inside it. -/
def segmentWith (grammar : Grammar) (inner : Inner) (context : Context) : Parse Segment := do
  let (draft, closedByBlock) ← passes grammar inner context ((← remaining) + 1) {}
  let draft ← settlePending draft
  match ← resolve draft.terms with
  | some item =>
      attachModifiers item draft.lead
      return ⟨some item, closedByBlock⟩
  | none =>
      if draft.lead.isEmpty then return ⟨none, closedByBlock⟩
      else return ⟨some (← misplaced draft.lead), closedByBlock⟩

/-- Parses one segment with at most `depth` segments inside one another. -/
def segment (grammar : Grammar) : Nat → Inner
  | 0 => fun _ => do stuck (← position)
  | depth + 1 => segmentWith grammar (segment grammar depth)

end Parse

end ExprLang
