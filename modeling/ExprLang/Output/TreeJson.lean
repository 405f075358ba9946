import ExprLang.Output.Outline
import ExprLang.Output.Diagnostic
import ExprLang.Json.Basic
import ExprLang.Decimal

/-!
The JSON form of a parse: every item with its kind, its span and its parts, the faults and the
comments. A number carries its text and, if that converts, its value.
-/

namespace ExprLang

/-- The value of a numeric literal, if its text converts. -/
def numericValue (text : String) : NumericKind → Option Decimal
  | .integer | .decimal => Decimal.read text.toList
  | .scientific => Decimal.readScientific text.toList
  | .other => none

namespace Forest

/-- The fields of an item besides those that all items have. -/
def kindFields (forest : Forest) : ItemKind → List (String × Json)
  | .token kind text =>
      [("token", .string kind.label), ("text", .string text)] ++
        match kind with
        | .keyword id => [("keyword", .nat id.toNat)]
        | _ => []
  | .literal name => [("name", .string name)]
  | .numeric value type kind =>
      [("value", .string value), ("numeric_type", .nat type.toNat),
       ("numeric_kind", .string kind.name),
       ("number", .ofOption (fun d => .string d.normalize.toText) (numericValue value kind))]
  | .constantText _ text quote closed =>
      [("text", .string text), ("quote", .string (String.singleton quote)),
       ("closed", .bool closed)]
  | .braces kind _ _ closing parameters =>
      [("brace", .string (String.singleton kind.opening)), ("closed", .bool closing.isSome),
       ("parameters", .array (parameters.map (.ofOption .nat)))]
  | .codeBlock _ stop _ => [("closed", .bool stop.isSome)]
  | .operator id kind priority info _ _ =>
      [("operator", .nat id), ("operator_kind", .string kind.name), ("priority", .int priority),
       ("name", .string (forest.outlineCore info))]
  | .operatorInfo id kind name =>
      [("operator", .nat id), ("operator_kind", .string kind.name), ("name", .string name)]
  | .custom category trigger name _ =>
      [("name", .string name), ("category", .string category.name),
       ("trigger", .nat trigger.toNat)]
  | .root _ _ | .series => []

/-- A section that is empty is left out. -/
def sectionField (name : String) (items : List Json) : List (String × Json) :=
  if items.isEmpty then [] else [(name, .array items)]

def itemJsonWithin (forest : Forest) : Nat → ItemId → Json
  | 0, _ => .null
  | steps + 1, id =>
      match forest.get? id with
      | none => .null
      | some item =>
          let nested := fun ids : List ItemId => ids.map (itemJsonWithin forest steps)
          let sections :=
            if item.isToken then []
            else sectionField "prefixes" (nested item.parts.prefixes) ++
              sectionField "keywords" (nested item.parts.keywords) ++
              sectionField "regular_items" (nested item.parts.regular) ++
              sectionField "postfixes" (nested item.parts.postfixes)
          .object ([("id", .nat id), ("kind", .string item.kind.name),
            ("index_in_text", .nat (forest.start id)), ("length", .nat (forest.length id))] ++
            forest.kindFields item.kind ++ sections)

/-- An item and everything below it; no path down a forest is longer than the forest. -/
def itemJson (forest : Forest) (id : ItemId) : Json := forest.itemJsonWithin (forest.size + 1) id

end Forest

def CommentKind.name : CommentKind → String
  | line => "line"
  | multiline => "multiline"

def Comment.toJson (comment : Comment) : Json :=
  .object [("index_in_text", .nat comment.start), ("length", .nat comment.length),
    ("kind", .string comment.kind.name), ("closed", .bool comment.closed)]

def Diagnostic.toJson (diagnostic : Diagnostic) : Json :=
  .object [("line", .nat diagnostic.line), ("column", .nat diagnostic.column),
    ("index_in_text", .nat diagnostic.start), ("length", .nat diagnostic.length),
    ("code", .nat diagnostic.code.number), ("message", .string diagnostic.message),
    ("is_critical", .bool diagnostic.critical)]

def Document.toJson (document : Document) : Json :=
  .object [("index_in_text", .nat document.start), ("length", .nat document.length),
    ("root", document.forest.itemJson document.root),
    ("errors", .array (document.diagnostics.map Diagnostic.toJson)),
    ("comments", .array (document.comments.map Comment.toJson))]

end ExprLang
