import ExprLang.Parse.Reading
import ExprLang.Parse.State

/-!
Building what was read of a segment: one operator tree, or a series of all its pieces in text order
if they do not make one expression.
-/

namespace ExprLang.Parse

/-- The operator as written, with a token for each of its words. -/
def createInfo (chosen : Chosen) : Parse ItemId := do
  let operator := chosen.operator
  let info ← create (.operatorInfo operator.id operator.kind operator.name) chosen.written.start
  chosen.written.parts.forM fun (start, text) => do
    addRegular info (← createToken .operatorNamePart text start)
  return info

/-- The parts of an operator item stand in text order: a prefix operator before its operand, any
other behind it. -/
def createOperator (chosen : Chosen) (operand : ItemId) (right : Option ItemId) :
    Parse ItemId := do
  let operator := chosen.operator
  let info ← createInfo chosen
  let item ← create
    (.operator operator.id operator.kind operator.priority info operand right) chosen.written.start
  match operator.kind with
  | .prefixOp =>
      addRegular item info
      addChild item operand
  | .postfixOp =>
      addChild item operand
      addRegular item info
  | .binary =>
      addChild item operand
      addRegular item info
      right.forM (addChild item)
  return item

def applyUnary (slot : Slot) : Parse ItemId :=
  (unaryOrder slot.prefixes slot.postfixes).foldlM
    (fun node chosen => createOperator chosen node none) slot.operand

def combine (chosen : Chosen) (left right : ItemId) : Parse ItemId :=
  createOperator chosen left (some right)

/-- One node for each run of the slots. -/
def foldSlots (slots : List Slot) : Parse (List ItemId) := do
  let nodes ← slots.mapM fun slot => do return (slot.link, ← applyUnary slot)
  match nodes with
  | [] => return []
  | (_, first) :: rest =>
      let (run, runs) := Run.split first rest
      (run :: runs).mapM (Run.fold combine)

def createSeries (items : List ItemId) : Parse ItemId := do
  let forest ← forest
  let sorted := sortBy (fun a b => forest.start a ≤ forest.start b) items
  let series ← create .series ((sorted.head?.map forest.start).getD 0)
  sorted.forM (addChild series)
  return series

/-- The item of a segment, if there is anything in it. -/
def resolve (terms : List Term) : Parse (Option ItemId) := do
  let reading := Reading.ofTerms (← forest).start terms
  reading.faults.forM addFault
  if reading.isEmpty then return none
  let nodes ← foldSlots reading.slots.reverse
  match nodes, reading.isWhole with
  | [node], true => return some node
  | _, _ =>
      let infos ← reading.leftOperators.mapM createInfo
      return some (← createSeries (nodes ++ infos ++ reading.leftItems))

end ExprLang.Parse
