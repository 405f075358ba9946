import ExprLang.Language.Grammar

/-!
What of a grammar is written at a position: markers, keywords, operators and numbers. A word that
ends in a character of names ends there only if no character of names follows.
-/

namespace ExprLang

/-- The words of an operator as written, and the operators that have just these words there. -/
structure OperatorMatch where
  /-- Start and text of each word. -/
  parts : List (Nat × String)
  first : Operator
  others : List Operator
  deriving DecidableEq, Repr

namespace OperatorMatch

def candidates (written : OperatorMatch) : List Operator := written.first :: written.others

def start (written : OperatorMatch) : Nat := (written.parts.head?.map (·.1)).getD 0

def stop (written : OperatorMatch) : Nat :=
  (written.parts.getLast?.map fun part => part.1 + part.2.length).getD 0

def length (written : OperatorMatch) : Nat := written.stop - written.start

def text (written : OperatorMatch) : String := joinWords (written.parts.map (·.2))

def candidate? (written : OperatorMatch) (kind : OperatorKind) : Option Operator :=
  written.candidates.find? (·.kind == kind)

def canBe (written : OperatorMatch) (kind : OperatorKind) : Bool :=
  (written.candidate? kind).isSome

end OperatorMatch

structure NumericMatch where
  type : NumericTypeId
  kind : NumericKind
  length : Nat
  deriving DecidableEq, Repr

namespace Grammar

def isSymbolAt (grammar : Grammar) (text : Text) (position : Nat) (symbol : String) : Bool :=
  text.isWritten grammar.caseSensitive position symbol &&
    match symbol.toList.getLast? with
    | none => false
    | some last =>
        !grammar.isLiteralChar last 1 ||
          !text[position + symbol.length]?.any (grammar.isLiteralChar · 1)

/-- Of two keywords that are written the longer one counts, of equal ones the later. -/
def longerKeyword (best : Option Keyword) (keyword : Keyword) : Option Keyword :=
  match best with
  | none => some keyword
  | some other => if other.text.length ≤ keyword.text.length then some keyword else some other

def keywordAt? (grammar : Grammar) (text : Text) (position : Nat) : Option Keyword :=
  (grammar.keywords.filter fun keyword => grammar.isSymbolAt text position keyword.text).foldl
    longerKeyword none

/-- Start and length of each word that follows the first; a gap stands before it. -/
def moreSpans? (grammar : Grammar) (text : Text) : Nat → List String → Option (List (Nat × Nat))
  | _, [] => some []
  | position, part :: rest =>
      let start := grammar.comments.gapEnd text position
      if start = position then none
      else if grammar.isSymbolAt text start part then
        (moreSpans? grammar text (start + part.length) rest).map ((start, part.length) :: ·)
      else none

/-- Start and length of each word of an operator written at `position`. -/
def spans? (grammar : Grammar) (text : Text) (position : Nat) :
    List String → Option (List (Nat × Nat))
  | [] => some []
  | part :: rest =>
      if grammar.isSymbolAt text position part then
        (grammar.moreSpans? text (position + part.length) rest).map ((position, part.length) :: ·)
      else none

structure Spelling where
  operator : Operator
  spans : List (Nat × Nat)
  deriving DecidableEq, Repr

namespace Spelling

/-- Behind an operand a binary or postfix operator fits, elsewhere a prefix one. -/
def fits (afterOperand : Bool) (spelling : Spelling) : Bool :=
  (spelling.operator.kind != .prefixOp) == afterOperand

def total (spelling : Spelling) : Nat :=
  (spelling.spans.map (·.2)).foldl (fun total length => total + length) 0

/-- A kind that fits comes first, then more words, then more characters. -/
def outranks (afterOperand : Bool) (a b : Spelling) : Bool :=
  let fitA := a.fits afterOperand
  let fitB := b.fits afterOperand
  (fitA && !fitB) ||
    (fitA == fitB &&
      (b.spans.length < a.spans.length ||
        (a.spans.length == b.spans.length && b.total < a.total)))

/-- The first spelling that no other one outranks. -/
def best? (afterOperand : Bool) (spellings : List Spelling) : Option Spelling :=
  spellings.foldl
    (fun best spelling => match best with
      | none => some spelling
      | some other => if spelling.outranks afterOperand other then some spelling else some other)
    none

end Spelling

def spellings (grammar : Grammar) (text : Text) (position : Nat) : List Spelling :=
  grammar.operators.filterMap fun operator =>
    (grammar.spans? text position operator.nameParts).map fun spans => ⟨operator, spans⟩

/-- The best spelling at `position` with every operator that is spelled the same way. -/
def operatorAt? (grammar : Grammar) (text : Text) (position : Nat) (afterOperand : Bool) :
    Option OperatorMatch :=
  let spellings := grammar.spellings text position
  match Spelling.best? afterOperand spellings with
  | none => none
  | some best =>
      match (spellings.filter (·.spans == best.spans)).map (·.operator) with
      | [] => none
      | first :: others =>
          let parts := best.spans.map fun (start, length) =>
            (start, text.slice start (start + length))
          some { parts, first, others }

/-- The first rule that matches something at `position`. -/
def numberAt? (grammar : Grammar) (text : Text) (position : Nat) : Option NumericMatch :=
  let rest := text.extract position text.size
  grammar.numericRules.findSome? fun rule =>
    match rule.pattern.find? rest with
    | none => none
    | some (start, stop) =>
        if start < stop then some ⟨rule.type, rule.kind, stop - start⟩ else none

def isOpeningBraceAt (text : Text) (position : Nat) : Bool :=
  text[position]?.any fun c => c == '(' || c == '['

def isBlockStartAt (grammar : Grammar) (text : Text) (position : Nat) : Bool :=
  grammar.codeBlock.any fun pair => grammar.isSymbolAt text position pair.start

def isBlockEndAt (grammar : Grammar) (text : Text) (position : Nat) : Bool :=
  grammar.codeBlock.any fun pair => grammar.isSymbolAt text position pair.stop

/-- Whether an expression ends here, whatever it stands in. -/
def isTerminatorAt (grammar : Grammar) (text : Text) (position : Nat) : Bool :=
  match text[position]? with
  | none => true
  | some c =>
      c == ',' || c == ')' || c == ']' || some c == grammar.separator ||
        grammar.isBlockEndAt text position

/-- The end of the name that starts at `start`; without one that is `start`. -/
def nameEnd (grammar : Grammar) (text : Text) (start : Nat) : Nat :=
  Text.seek (fun i => !text[i]?.any (grammar.isLiteralChar · (i - start))) (text.size - start) start

end Grammar

end ExprLang
