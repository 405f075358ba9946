import ExprLang.Forest.Item

/-!
A forest holds every item of one parse, attached or not, by number. An item's span reaches from its
first part to its last one, so it follows what is attached. Attaching refuses whatever would give an
item two owners, make a cycle or, while order is watched, put a part out of text order; cutting the
forest back to an earlier size drops the later items and every link to them.

No chain of first parts or of owners is longer than the forest, so its size bounds each walk.
-/

namespace ExprLang

inductive AttachError where
  | unknownItem (item : ItemId)
  | notComplex (item : ItemId)
  | alreadyAttached (item parent : ItemId)
  | circularParent (item parent : ItemId)
  | orderViolation (owner item : ItemId) (part : Section) (position : Nat)
  deriving DecidableEq, Repr

namespace AttachError

def message : AttachError → String
  | unknownItem item => s!"item #{item} does not exist"
  | notComplex item => s!"item #{item} is a token and cannot own other items"
  | alreadyAttached item parent => s!"item #{item} is already attached to #{parent}"
  | circularParent item parent => s!"making #{parent} the parent of #{item} would create a cycle"
  | orderViolation owner item part position =>
      s!"{part.name} #{item} at position {position} is out of order in #{owner}"

end AttachError

structure Forest where
  items : Array Item := #[]
  /-- Whether attaching watches the text order. -/
  ordered : Bool := true

namespace Forest

def size (forest : Forest) : Nat := forest.items.size

def get? (forest : Forest) (id : ItemId) : Option Item := forest.items[id]?

def kind? (forest : Forest) (id : ItemId) : Option ItemKind := (forest.get? id).map (·.kind)

def tokenKind? (forest : Forest) (id : ItemId) : Option TokenKind :=
  (forest.get? id).bind (·.tokenKind?)

def parts (forest : Forest) (id : ItemId) : Parts := ((forest.get? id).map (·.parts)).getD {}

/-! Spans -/

def startWithin (forest : Forest) : Nat → ItemId → Nat
  | 0, _ => 0
  | steps + 1, id =>
      match forest.get? id with
      | none => 0
      | some item =>
          match item.firstPart? with
          | some first => startWithin forest steps first
          | none => item.start

def stopWithin (forest : Forest) : Nat → ItemId → Nat
  | 0, _ => 0
  | steps + 1, id =>
      match forest.get? id with
      | none => 0
      | some item =>
          match item.lastPart? with
          | some last => stopWithin forest steps last
          | none => item.start + item.length

def start (forest : Forest) (id : ItemId) : Nat := forest.startWithin forest.size id

def stop (forest : Forest) (id : ItemId) : Nat := forest.stopWithin forest.size id

def length (forest : Forest) (id : ItemId) : Nat := forest.stop id - forest.start id

/-! Owners -/

def parent? (forest : Forest) (id : ItemId) : Option ItemId := (forest.get? id).bind (·.parent)

def topmostWithin (forest : Forest) : Nat → ItemId → ItemId
  | 0, id => id
  | steps + 1, id =>
      match forest.parent? id with
      | some parent => topmostWithin forest steps parent
      | none => id

/-- The last owner on the way up. -/
def topmost (forest : Forest) (id : ItemId) : ItemId := forest.topmostWithin (forest.size + 1) id

def isAncestorOrSelfWithin (forest : Forest) (ancestor : ItemId) : Nat → Option ItemId → Bool
  | 0, _ => true
  | _ + 1, none => false
  | steps + 1, some id =>
      id == ancestor || isAncestorOrSelfWithin forest ancestor steps (forest.parent? id)

/-- The walk takes one step more than there are items, the last one for the end of the chain. A
forest without items has no step to spare for that and says yes. -/
def isAncestorOrSelf (forest : Forest) (ancestor id : ItemId) : Bool :=
  forest.isAncestorOrSelfWithin ancestor (forest.size + 1) (some id)

/-! Changes -/

def push (forest : Forest) (item : Item) : ItemId × Forest :=
  (forest.size, { forest with items := forest.items.push item })

/-- A detached token. -/
def createToken (forest : Forest) (kind : TokenKind) (text : String) (start : Nat) :
    ItemId × Forest :=
  forest.push { start, length := text.length, kind := .token kind text }

/-- A detached item; only a token has a length of its own. -/
def create (forest : Forest) (kind : ItemKind) (start : Nat) : ItemId × Forest :=
  let length := match kind with
    | .token _ text => text.length
    | _ => 0
  forest.push { start, length, kind }

def modify (forest : Forest) (id : ItemId) (change : Item → Item) : Forest :=
  { forest with items := forest.items.modify id change }

def setKind (forest : Forest) (id : ItemId) (kind : ItemKind) : Forest :=
  forest.modify id fun item => { item with kind }

/-- The last part at or before a section, and the first part behind it. -/
def neighbours (parts : Parts) : Section → Option ItemId × Option ItemId
  | .prefixes =>
      (parts.prefixes.getLast?, (parts.keywords ++ parts.regular ++ parts.postfixes).head?)
  | .keywords =>
      ((parts.prefixes ++ parts.keywords).getLast?, (parts.regular ++ parts.postfixes).head?)
  | .regular =>
      ((parts.prefixes ++ parts.keywords ++ parts.regular).getLast?, parts.postfixes.head?)
  | .postfixes => (parts.all.getLast?, none)

/-- A new part starts behind all parts of its own and earlier sections and before all later ones. -/
def isInOrder (forest : Forest) (owner item : ItemId) (part : Section) : Bool :=
  let position := forest.start item
  let (previous, next) := neighbours (forest.parts owner) part
  previous.all (forest.start · < position) && next.all (position < forest.start ·)

def link (forest : Forest) (owner item : ItemId) (part : Section) (isChild : Bool) : Forest :=
  (forest.modify item fun attached => { attached with parent := some owner }).modify owner
    fun owning =>
      let parts := owning.parts.push item part
      { owning with parts := if isChild then parts.pushChild item else parts }

def attach (forest : Forest) (owner item : ItemId) (part : Section) (isChild : Bool) :
    Except AttachError Forest :=
  match forest.get? owner with
  | none => .error (.unknownItem owner)
  | some owning =>
      if owning.isToken then .error (.notComplex owner)
      else match forest.get? item with
      | none => .error (.unknownItem item)
      | some attached =>
          if forest.isAncestorOrSelf item owner then .error (.circularParent item owner)
          else match attached.parent with
          | some parent => .error (.alreadyAttached item parent)
          | none =>
              if forest.ordered && !forest.isInOrder owner item part then
                .error (.orderViolation owner item part (forest.start item))
              else .ok (forest.link owner item part isChild)

def addPrefix (forest : Forest) (owner item : ItemId) : Except AttachError Forest :=
  forest.attach owner item .prefixes false

def addKeyword (forest : Forest) (owner item : ItemId) : Except AttachError Forest :=
  forest.attach owner item .keywords false

def addPostfix (forest : Forest) (owner item : ItemId) : Except AttachError Forest :=
  forest.attach owner item .postfixes false

/-- Adds a token or another structural part. -/
def addRegular (forest : Forest) (owner item : ItemId) : Except AttachError Forest :=
  forest.attach owner item .regular false

/-- Adds an expression, which becomes a regular part and a child. -/
def addChild (forest : Forest) (owner item : ItemId) : Except AttachError Forest :=
  forest.attach owner item .regular true

/-- Drops the items from number `size` on and every link to them. -/
def truncate (forest : Forest) (size : Nat) : Forest :=
  if forest.size ≤ size then forest
  else { forest with
    items := (forest.items.extract 0 size).map fun item =>
      { item with
        parent := item.parent.filter (· < size)
        parts := item.parts.filter (· < size) } }

/-! Queries -/

/-- Tokens take no postfix, and a custom expression takes those that it accepts. -/
def acceptsPostfix (forest : Forest) (target postfixed : ItemId) : Bool :=
  match forest.kind? target with
  | none | some (.token ..) => false
  | some (.custom _ _ _ accepts) =>
      accepts == "" || accepts == "all" ||
        (accepts != "none" && (forest.kind? postfixed).any (·.name == accepts))
  | some _ => true

def covers (forest : Forest) (id : ItemId) (position : Nat) : Bool :=
  forest.start id ≤ position && position < forest.start id + forest.length id

def itemAtWithin (forest : Forest) (position : Nat) : Nat → ItemId → ItemId
  | 0, id => id
  | steps + 1, id =>
      match (forest.parts id).all.find? (forest.covers · position) with
      | some part => itemAtWithin forest position steps part
      | none => id

/-- The deepest item under `root` whose span holds `position`. -/
def itemAt? (forest : Forest) (root : ItemId) (position : Nat) : Option ItemId :=
  if forest.covers root position then some (forest.itemAtWithin position (forest.size + 1) root)
  else none

end Forest

end ExprLang
