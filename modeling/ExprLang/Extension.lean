import ExprLang.Language.Config

/-!
Scripted extensions of the syntax. An extension is triggered by a keyword and runs its steps at the
cursor; each step may consume text, add a part or give up. The steps are data, so an extension can
do nothing but what a step does.
-/

namespace ExprLang

/-- Where a custom expression stands relative to the expression it belongs to. -/
inductive CustomCategory where
  | prefixed
  | regular
  | postfixed
  deriving DecidableEq, Repr

def CustomCategory.name : CustomCategory → String
  | prefixed => "prefix"
  | regular => "regular"
  | postfixed => "postfix"

namespace Extension

/-- What a step asks the parser for. -/
inductive Piece where
  | name
  | braces
  | codeBlock
  | expression
  deriving DecidableEq, Repr

/-- What becomes of a parsed piece. -/
inductive Keep where
  | child
  | token
  | dropped
  deriving DecidableEq, Repr

/-- What a step does when the parser stopped on a critical fault. -/
inductive OnStop where
  | pass
  | decline
  | carryOn
  | fail
  deriving DecidableEq, Repr

/-- One step of a script: what it does at the cursor. -/
inductive Step where
  | log
  | skip (count : Nat)
  | skipSpaces
  | expect (symbol : String)
  | branch (symbol : String) (yes no : List Step)
  | token (length : Nat)
  | word
  | parse (piece : Piece) (optional : Bool) (keep : Keep) (onStop : OnStop)
  | report (offset length code : Nat) (message : String) (critical : Bool)
  | fail (message : String)
  | decline
  | again
  | swap
  | trigger
  | child (id : Nat)
  | unknown (name : String)

instance : Inhabited Step := ⟨.log⟩

end Extension

structure Extension where
  name : String
  keywords : List KeywordId
  category : CustomCategory
  /-- Which postfixes its expressions take: all, none, or the items of one kind. -/
  accepts : String
  steps : List Extension.Step

end ExprLang
