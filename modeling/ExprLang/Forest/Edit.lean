import ExprLang.Forest.Basic

/-!
Calls that change a forest, as they may come one after another. Each looks at nothing but the forest
that it finds, and a call that is refused leaves that forest to the next one.
-/

namespace ExprLang

inductive Edit where
  | createToken (kind : TokenKind) (text : String) (start : Nat)
  | create (kind : ItemKind) (start : Nat)
  | addPrefix (owner item : ItemId)
  | addKeyword (owner item : ItemId)
  | addPostfix (owner item : ItemId)
  | addRegular (owner item : ItemId)
  | addChild (owner item : ItemId)
  | truncate (size : Nat)
  /-- From here on order is watched, or it is not. -/
  | watch (ordered : Bool)
  deriving DecidableEq, Repr

namespace Edit

/-- The forest that a call gives, or why it is refused. -/
def apply (forest : Forest) : Edit → Except AttachError Forest
  | createToken kind text start => .ok (forest.createToken kind text start).2
  | create kind start => .ok (forest.create kind start).2
  | addPrefix owner item => forest.addPrefix owner item
  | addKeyword owner item => forest.addKeyword owner item
  | addPostfix owner item => forest.addPostfix owner item
  | addRegular owner item => forest.addRegular owner item
  | addChild owner item => forest.addChild owner item
  | truncate size => .ok (forest.truncate size)
  | watch ordered => .ok { forest with ordered }

/-- The forest behind a call, refused or not. -/
def run (forest : Forest) (edit : Edit) : Forest :=
  match edit.apply forest with
  | .ok next => next
  | .error _ => forest

end Edit

/-- The forest behind calls that come one after another. -/
def Forest.edit (forest : Forest) (edits : List Edit) : Forest := edits.foldl Edit.run forest

end ExprLang
