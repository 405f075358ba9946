import ExprLang.Extension

/-!
The items of a parse. An item refers to others by number. Its parts stand in four sections, in the
order of the text:

    (attr)  public static  F(x, y)  body
    prefix  keywords       regular  postfix

The children are the regular parts that are expressions of their own and no tokens.
-/

namespace ExprLang

abbrev ItemId := Nat

inductive BraceKind where
  | round
  | square
  deriving DecidableEq, Repr

namespace BraceKind

def name : BraceKind → String
  | round => "round"
  | square => "square"

def opening : BraceKind → Char
  | round => '('
  | square => '['

def closing : BraceKind → Char
  | round => ')'
  | square => ']'

def ofOpening? : Char → Option BraceKind
  | '(' => some round
  | '[' => some square
  | _ => none

def ofClosing? : Char → Option BraceKind
  | ')' => some round
  | ']' => some square
  | _ => none

end BraceKind

inductive TokenKind where
  | name
  | keyword (id : KeywordId)
  | openingBrace (kind : BraceKind)
  | closingBrace (kind : BraceKind)
  | comma
  | separator
  | codeBlockStart
  | codeBlockEnd
  | operatorNamePart
  | numericValue
  | text
  | custom
  deriving DecidableEq, Repr

def TokenKind.label : TokenKind → String
  | name => "name"
  | keyword _ => "keyword"
  | openingBrace _ => "opening_brace"
  | closingBrace _ => "closing_brace"
  | comma => "comma"
  | separator => "separator"
  | codeBlockStart => "code_block_start"
  | codeBlockEnd => "code_block_end"
  | operatorNamePart => "operator_name_part"
  | numericValue => "numeric_value"
  | text => "text"
  | custom => "custom"

inductive ItemKind where
  | token (kind : TokenKind) (text : String)
  | literal (name : String)
  | numeric (value : String) (type : NumericTypeId) (kind : NumericKind)
  /-- `raw` is the constant as written, `text` what it stands for. -/
  | constantText (raw text : String) (quote : Char) (closed : Bool)
  /-- An absent parameter is an empty place between commas. -/
  | braces (kind : BraceKind) (name : Option ItemId) (opening : ItemId) (closing : Option ItemId)
      (parameters : List (Option ItemId))
  | codeBlock (start : ItemId) (stop : Option ItemId) (statements : List ItemId)
  | operator (id : Nat) (kind : OperatorKind) (priority : Int) (info operand : ItemId)
      (right : Option ItemId)
  /-- An operator as written, with its name part tokens. -/
  | operatorInfo (id : Nat) (kind : OperatorKind) (name : String)
  | custom (category : CustomCategory) (trigger : KeywordId) (name accepts : String)
  | root (statements separators : List ItemId)
  /-- What could not be combined into one expression, in text order. -/
  | series
  deriving DecidableEq, Repr

namespace ItemKind

def isToken : ItemKind → Bool
  | token .. => true
  | _ => false

def name : ItemKind → String
  | token .. => "token"
  | literal _ => "literal"
  | numeric .. => "numeric"
  | constantText .. => "constant_text"
  | braces .. => "braces"
  | codeBlock .. => "code_block"
  | operator .. => "operator"
  | operatorInfo .. => "operator_info"
  | custom .. => "custom"
  | root .. => "root"
  | series => "series_with_errors"

end ItemKind

inductive Section where
  | prefixes
  | keywords
  | regular
  | postfixes
  deriving DecidableEq, Repr

namespace Section

def name : Section → String
  | prefixes => "prefix"
  | keywords => "keyword"
  | regular => "regular item"
  | postfixes => "postfix"

end Section

structure Parts where
  prefixes : List ItemId := []
  keywords : List ItemId := []
  regular : List ItemId := []
  postfixes : List ItemId := []
  children : List ItemId := []
  deriving DecidableEq, Repr

namespace Parts

def get (parts : Parts) : Section → List ItemId
  | .prefixes => parts.prefixes
  | .keywords => parts.keywords
  | .regular => parts.regular
  | .postfixes => parts.postfixes

def push (parts : Parts) (part : ItemId) : Section → Parts
  | .prefixes => { parts with prefixes := parts.prefixes ++ [part] }
  | .keywords => { parts with keywords := parts.keywords ++ [part] }
  | .regular => { parts with regular := parts.regular ++ [part] }
  | .postfixes => { parts with postfixes := parts.postfixes ++ [part] }

def pushChild (parts : Parts) (child : ItemId) : Parts :=
  { parts with children := parts.children ++ [child] }

/-- All parts in text order. -/
def all (parts : Parts) : List ItemId :=
  parts.prefixes ++ parts.keywords ++ parts.regular ++ parts.postfixes

def filter (keep : ItemId → Bool) (parts : Parts) : Parts where
  prefixes := parts.prefixes.filter keep
  keywords := parts.keywords.filter keep
  regular := parts.regular.filter keep
  postfixes := parts.postfixes.filter keep
  children := parts.children.filter keep

end Parts

structure Item where
  parent : Option ItemId := none
  /-- The span of a token; the place of any other item as long as it has no parts. -/
  start : Nat
  length : Nat
  kind : ItemKind
  parts : Parts := {}
  deriving DecidableEq, Repr

namespace Item

def isToken (item : Item) : Bool := item.kind.isToken

def tokenKind? (item : Item) : Option TokenKind :=
  match item.kind with
  | .token kind _ => some kind
  | _ => none

/-- The first part of an item that is no token. -/
def firstPart? (item : Item) : Option ItemId :=
  if item.isToken then none else item.parts.all.head?

def lastPart? (item : Item) : Option ItemId :=
  if item.isToken then none else item.parts.all.getLast?

end Item

end ExprLang
