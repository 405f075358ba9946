import ExprLang.Parse.Segment

/-!
Parsing a whole text. A parse always gives a result; what is wrong with the text stands in it.
-/

namespace ExprLang

structure Document where
  text : Text
  forest : Forest
  root : ItemId
  faults : Faults
  /-- In text order. -/
  comments : List Comment
  sightings : List Sighting

namespace Document

def start (document : Document) : Nat := document.forest.start document.root

def length (document : Document) : Nat := document.forest.length document.root

/-- The top-level statements. -/
def statements (document : Document) : List ItemId :=
  (document.forest.parts document.root).children

def itemAt? (document : Document) (position : Nat) : Option ItemId :=
  document.forest.itemAt? document.root position

/-- The text that an item covers. -/
def itemText (document : Document) (item : ItemId) : String :=
  document.text.slice (document.forest.start item)
    (document.forest.start item + document.forest.length item)

end Document

namespace Grammar

def rootItem : Item := { start := 0, length := 0, kind := .root [] [] }

def initialState (grammar : Grammar) (text : Text) : ParseState :=
  { cursor := { text, markers := grammar.comments }, forest := { items := #[rootItem] } }

/-- The state after the root and its statements. -/
def finalState (grammar : Grammar) (text : Text) : ParseState :=
  let statements :=
    Parse.rootStatements grammar (Parse.segment grammar (text.size + 1)) 0 (text.size + 1)
  match statements (grammar.initialState text) with
  | .ok _ state => state
  | .error _ state => state

def parse (grammar : Grammar) (text : String) : Document :=
  let text := Text.ofString text
  let state := grammar.finalState text
  { text
    forest := state.forest
    root := 0
    faults := state.faults
    comments := state.cursor.comments
    sightings := state.sightings }

end Grammar

end ExprLang
