import ExprLang.Language.Written
import ExprLang.Order
import ExprLang.Fault
import ExprLang.Forest.Item

/-!
Reading a row of operands and operators. Between two operands stand postfix operators of the left
one, one binary operator and prefix operators of the right one, in this order; where several
readings are possible, the run of postfix operators is as long as it can be. A row without a reading
is cut, and the operators without a place in it are left over.
-/

namespace ExprLang

/-- What a segment is made of, in text order. -/
inductive Term where
  | operand (item : ItemId)
  | operators (written : OperatorMatch)
  /-- An item without a place in an expression. -/
  | stray (item : ItemId)
  deriving DecidableEq, Repr

/-- A written operator and what it is read as. -/
structure Chosen where
  written : OperatorMatch
  operator : Operator
  deriving DecidableEq, Repr

/-- The candidate of the given kind, if there is one. -/
def Chosen.ofKind (kind : OperatorKind) (written : OperatorMatch) : Chosen :=
  ⟨written, (written.candidate? kind).getD written.first⟩

def Chosen.ofFirst (written : OperatorMatch) : Chosen := ⟨written, written.first⟩

/-- An operand with the unary operators around it, in text order. -/
structure Slot where
  operand : ItemId
  prefixes : List Chosen := []
  postfixes : List Chosen := []
  /-- The binary operator between this slot and the one before; at a cut there is none. -/
  link : Option Chosen := none
  deriving DecidableEq, Repr

structure GapReading where
  postfixes : List Chosen
  binary : Chosen
  prefixes : List Chosen
  deriving DecidableEq, Repr

/-- Whether the operators of a gap can be read with the binary one at place `binary`. -/
def canSplitAt (gap : List OperatorMatch) (binary : Nat) : Bool :=
  (gap.take binary).all (·.canBe .postfixOp) &&
    gap[binary]?.any (·.canBe .binary) &&
    (gap.drop (binary + 1)).all (·.canBe .prefixOp)

/-- The reading of a gap with the most postfix operators. -/
def readGap? (gap : List OperatorMatch) : Option GapReading :=
  match (List.range gap.length).reverse.find? (canSplitAt gap) with
  | none => none
  | some place =>
      gap[place]?.map fun binary => {
        postfixes := (gap.take place).map (.ofKind .postfixOp)
        binary := .ofKind .binary binary
        prefixes := (gap.drop (place + 1)).map (.ofKind .prefixOp) }

/-- The longest run at the front of operators that can be postfix ones, and the rest. -/
def splitPostfixes (gap : List OperatorMatch) : List OperatorMatch × List OperatorMatch :=
  gap.span (·.canBe .postfixOp)

/-- The longest run at the end of operators that can be prefix ones, behind the rest. -/
def splitPrefixes (gap : List OperatorMatch) : List OperatorMatch × List OperatorMatch :=
  let count := (gap.reverse.takeWhile (·.canBe .prefixOp)).length
  gap.splitAt (gap.length - count)

/-- What has been read of a segment. -/
structure Reading where
  /-- The last slot comes first. -/
  slots : List Slot := []
  /-- The operators behind the last operand. -/
  gap : List OperatorMatch := []
  /-- Whether the last slot can still take postfix operators; behind a stray item it cannot. -/
  running : Bool := false
  leftOperators : List Chosen := []
  leftItems : List ItemId := []
  faults : List Fault := []
  deriving DecidableEq, Repr

namespace Reading

def report (reading : Reading) (start length : Nat) (cause : Fault.Cause) : Reading :=
  { reading with faults := reading.faults ++ [⟨start, length, cause, false⟩] }

def leaveOver (reading : Reading) (written : List OperatorMatch) : Reading :=
  { reading with leftOperators := reading.leftOperators ++ written.map .ofFirst }

/-- Reports and leaves over operators that have no operand. -/
def withoutOperand (reading : Reading) (written : List OperatorMatch) : Reading :=
  (written.foldl
    (fun reading w => reading.report w.start w.length (.operandMissing w.text))
    reading).leaveOver written

def addPostfixes (reading : Reading) (postfixes : List Chosen) : Reading :=
  match reading.slots with
  | [] => reading
  | slot :: before =>
      { reading with slots := { slot with postfixes := slot.postfixes ++ postfixes } :: before }

def addSlot (reading : Reading) (slot : Slot) : Reading :=
  { reading with slots := slot :: reading.slots, gap := [], running := true }

/-- The operators before the first operand of a run are prefix ones. -/
def startRun (reading : Reading) (operand : ItemId) : Reading :=
  let (before, prefixes) := splitPrefixes reading.gap
  (reading.withoutOperand before).addSlot
    { operand, prefixes := prefixes.map (.ofKind .prefixOp) }

/-- An operand behind another one. Without a reading of the gap between them the row is cut, and
whatever unary reading is still possible is kept. -/
def goOn (reading : Reading) (operand : ItemId) (start : Nat) : Reading :=
  match reading.gap.head?, reading.gap.getLast? with
  | some first, some last =>
      match readGap? reading.gap with
      | some gap =>
          (reading.addPostfixes gap.postfixes).addSlot
            { operand, prefixes := gap.prefixes, link := some gap.binary }
      | none =>
          let (postfixes, others) := splitPostfixes reading.gap
          let (between, prefixes) := splitPrefixes others
          let cut := reading.report first.start (last.stop - first.start) .binaryOperatorMissing
          ((cut.addPostfixes (postfixes.map (.ofKind .postfixOp))).leaveOver between).addSlot
            { operand, prefixes := prefixes.map (.ofKind .prefixOp) }
  | _, _ => (reading.report start 0 .noSeparationBetweenSymbols).addSlot { operand }

/-- The operators behind the last operand of a run are postfix ones. -/
def endRun (reading : Reading) : Reading :=
  let ended := { reading with gap := [], running := false }
  if reading.running then
    let (postfixes, others) := splitPostfixes reading.gap
    (ended.addPostfixes (postfixes.map (.ofKind .postfixOp))).withoutOperand others
  else ended.withoutOperand reading.gap

/-- `startOf` gives the position of an operand. -/
def add (startOf : ItemId → Nat) (reading : Reading) : Term → Reading
  | .operators written => { reading with gap := reading.gap ++ [written] }
  | .operand item =>
      if reading.running then reading.goOn item (startOf item) else reading.startRun item
  | .stray item =>
      let ended := reading.endRun
      { ended with leftItems := ended.leftItems ++ [item] }

def ofTerms (startOf : ItemId → Nat) (terms : List Term) : Reading :=
  (terms.foldl (add startOf) {}).endRun

def isEmpty (reading : Reading) : Bool :=
  reading.slots.isEmpty && reading.leftOperators.isEmpty && reading.leftItems.isEmpty

/-- Whether everything found its place. -/
def isWhole (reading : Reading) : Bool :=
  reading.leftOperators.isEmpty && reading.leftItems.isEmpty && reading.faults.isEmpty

end Reading

/-! Operator trees -/

/-- The unary operators around an operand, from the inside out. Of the next prefix and the next
postfix operator the one with the smaller priority number comes first, on a tie the postfix one. -/
def unaryOrder (prefixes postfixes : List Chosen) : List Chosen :=
  mergeBy (fun a b => a.operator.priority < b.operator.priority) prefixes.reverse postfixes

/-- Nodes with a binary operator between each two. -/
structure Run (Node : Type) where
  first : Node
  links : List (Chosen × Node) := []

namespace Run

variable {Node : Type} {m : Type → Type} [Monad m]

/-- Splits a row at its cuts; `node` is the first of the row. -/
def split (node : Node) : List (Option Chosen × Node) → Run Node × List (Run Node)
  | [] => (⟨node, []⟩, [])
  | (none, next) :: rest =>
      let (run, others) := split next rest
      (⟨node, []⟩, run :: others)
  | (some chosen, next) :: rest =>
      let (run, others) := split next rest
      (⟨node, (chosen, run.first) :: run.links⟩, others)

/-- Combines the neighbours of every operator of this priority, from the left. -/
def combineAt (combine : Chosen → Node → Node → m Node) (priority : Int) :
    Node → List (Chosen × Node) → m (Run Node)
  | left, [] => pure ⟨left, []⟩
  | left, (chosen, right) :: rest =>
      if chosen.operator.priority = priority then do
        combineAt combine priority (← combine chosen left right) rest
      else do
        let run ← combineAt combine priority right rest
        pure ⟨left, (chosen, run.first) :: run.links⟩

/-- The priorities of the operators, ascending, each once. -/
def priorities (run : Run Node) : List Int :=
  (sortBy (· ≤ ·) (run.links.map (·.1.operator.priority))).eraseDups

def foldAt (combine : Chosen → Node → Node → m Node) : List Int → Run Node → m Node
  | [], run => pure run.first
  | priority :: rest, run => do
      foldAt combine rest (← combineAt combine priority run.first run.links)

/-- Combines a run into one node, the operators with the smallest priority number first. -/
def fold (combine : Chosen → Node → Node → m Node) (run : Run Node) : m Node :=
  foldAt combine run.priorities run

end Run

end ExprLang
