import ExprLang.Parse.Document

/-!
Outlines: one line for each text, with operators in the form of calls. Prefixes, keywords and
postfixes of an item stand around it. A path down a forest meets each item at most twice, once with
and once without its modifiers, so the size of the forest bounds the depth.
-/

namespace ExprLang

def joinWith (separator : String) (pieces : List String) : String := separator.intercalate pieces

namespace Forest

mutual

def outlineWithin (forest : Forest) : Nat → ItemId → String
  | 0, _ => ""
  | steps + 1, id =>
      let outline := outlineWithin forest steps
      let parts := forest.parts id
      joinWith " " (parts.prefixes.map outline ++ parts.keywords.map outline ++
        coreWithin forest steps id :: parts.postfixes.map outline)

/-- The item without its modifiers. -/
def coreWithin (forest : Forest) : Nat → ItemId → String
  | 0, _ => ""
  | steps + 1, id =>
      let outline := outlineWithin forest steps
      let core := coreWithin forest steps
      let children := (forest.parts id).children
      match forest.kind? id with
      | none => ""
      | some (.token _ text) => text
      | some (.literal name) => name
      | some (.numeric value _ _) => value
      | some (.constantText raw _ _ _) => raw
      | some (.braces kind name _ _ parameters) =>
          (name.map outline).getD "" ++ String.singleton kind.opening ++
            joinWith ", " (parameters.map fun parameter => (parameter.map outline).getD "_") ++
            String.singleton kind.closing
      | some (.codeBlock start stop statements) =>
          core start ++ joinWith "; " (statements.map outline) ++ (stop.map core).getD ""
      | some (.operator _ kind _ info operand right) =>
          let name := core info
          match kind, right with
          | .binary, some right => s!"{name}({outline operand}, {outline right})"
          | .postfixOp, _ => s!"({outline operand}){name}"
          | _, _ => s!"{name}({outline operand})"
      | some (.operatorInfo _ _ name) => name
      | some (.custom _ _ name _) =>
          if children.isEmpty then "@" ++ name
          else "@" ++ name ++ "(" ++ joinWith ", " (children.map outline) ++ ")"
      | some (.root statements _) => joinWith "; " (statements.map outline)
      | some .series => "!series(" ++ joinWith ", " (children.map outline) ++ ")"

end

def outline (forest : Forest) (id : ItemId) : String :=
  forest.outlineWithin (2 * forest.size + 2) id

/-- The outline of an item without its modifiers. -/
def outlineCore (forest : Forest) (id : ItemId) : String :=
  forest.coreWithin (2 * forest.size + 2) id

end Forest

def Document.outline (document : Document) : String :=
  joinWith "; " (document.statements.map document.forest.outline)

end ExprLang
