import ExprLang.Proofs.Tandem.Shifted

/-!
In a language without case two texts that differ in the case of ASCII letters have one parse. Both are
parsed like their text in small letters, which the parser cannot tell from either of them; so whatever
the two parses say they say of the same places and with the same words.
-/

namespace ExprLang

/-- The text in small letters, as far as they are ASCII. -/
def smallLetters (text : String) : String := String.ofList (text.toList.map Char.toLower)

/-- The same but for the case of ASCII letters. -/
def SameLetters (a b : String) : Prop := smallLetters a = smallLetters b

instance (a b : String) : Decidable (SameLetters a b) := inferInstanceAs (Decidable (_ = _))

theorem sameLetters_smallLetters (text : String) : SameLetters text (smallLetters text) := by
  have again : ∀ c : Char, c.toLower.toLower = c.toLower := Grammar.toLower_same (by decide +kernel)
  simp [SameLetters, smallLetters, Function.comp_def, again]

/-- Kinds that tell the same but for the case of what is written and what a constant stands for. -/
inductive ItemKind.SameLetters : ItemKind → ItemKind → Prop
  | token (kind : TokenKind) {a b : String} : ExprLang.SameLetters a b →
      SameLetters (.token kind a) (.token kind b)
  | literal {a b : String} : ExprLang.SameLetters a b → SameLetters (.literal a) (.literal b)
  | numeric {a b : String} (type : NumericTypeId) (kind : NumericKind) : ExprLang.SameLetters a b →
      SameLetters (.numeric a type kind) (.numeric b type kind)
  | constantText {a b : String} (text text' : String) (quote : Char) (closed : Bool) :
      ExprLang.SameLetters a b →
        SameLetters (.constantText a text quote closed) (.constantText b text' quote closed)
  | same (kind : ItemKind) : SameLetters kind kind

structure Item.SameLetters (a b : Item) : Prop where
  parent : a.parent = b.parent
  start : a.start = b.start
  length : a.length = b.length
  kind : a.kind.SameLetters b.kind
  /-- The sections and the children. -/
  parts : a.parts = b.parts

structure Fault.SameLetters (a b : Fault) : Prop where
  code : a.code = b.code
  start : a.start = b.start
  length : a.length = b.length
  critical : a.critical = b.critical

/-- Documents with the same items and faults at the same places. -/
structure Document.SameLetters (a b : Document) : Prop where
  size : a.forest.size = b.forest.size
  items : ∀ id item, a.forest.get? id = some item →
    ∃ other, b.forest.get? id = some other ∧ item.SameLetters other
  spans : ∀ id < a.forest.size,
    a.forest.start id = b.forest.start id ∧ a.forest.stop id = b.forest.stop id
  faults : List.Forall₂ Fault.SameLetters a.faults b.faults

/-! Sameness -/

theorem ItemKind.SameLetters.symm {a b : ItemKind} (same : a.SameLetters b) : b.SameLetters a := by
  cases same with
  | token kind words => exact .token kind words.symm
  | literal words => exact .literal words.symm
  | numeric type kind words => exact .numeric type kind words.symm
  | constantText text text' quote closed words => exact .constantText text' text quote closed words.symm
  | same => exact .same _

theorem ItemKind.SameLetters.trans {a b c : ItemKind} (first : a.SameLetters b)
    (second : b.SameLetters c) : a.SameLetters c := by
  cases first with
  | same => exact second
  | token kind words =>
      cases second with
      | token _ more => exact .token kind (words.trans more)
      | same => exact .token kind words
  | literal words =>
      cases second with
      | literal more => exact .literal (words.trans more)
      | same => exact .literal words
  | numeric type kind words =>
      cases second with
      | numeric _ _ more => exact .numeric type kind (words.trans more)
      | same => exact .numeric type kind words
  | constantText text text' quote closed words =>
      cases second with
      | constantText _ text' _ _ more => exact .constantText _ _ quote closed (words.trans more)
      | same => exact .constantText _ _ quote closed words

theorem Item.SameLetters.symm {a b : Item} (same : a.SameLetters b) : b.SameLetters a :=
  ⟨same.parent.symm, same.start.symm, same.length.symm, same.kind.symm, same.parts.symm⟩

theorem Item.SameLetters.trans {a b c : Item} (first : a.SameLetters b) (second : b.SameLetters c) :
    a.SameLetters c :=
  ⟨first.parent.trans second.parent, first.start.trans second.start,
    first.length.trans second.length, first.kind.trans second.kind, first.parts.trans second.parts⟩

theorem Fault.SameLetters.symm {a b : Fault} (same : a.SameLetters b) : b.SameLetters a :=
  ⟨same.code.symm, same.start.symm, same.length.symm, same.critical.symm⟩

theorem Fault.SameLetters.trans {a b c : Fault} (first : a.SameLetters b) (second : b.SameLetters c) :
    a.SameLetters c :=
  ⟨first.code.trans second.code, first.start.trans second.start, first.length.trans second.length,
    first.critical.trans second.critical⟩

namespace Document.SameLetters

variable {a b c : Document}

theorem symm (same : a.SameLetters b) : b.SameLetters a where
  size := same.size.symm
  items id other found := by
    obtain ⟨item, foundItem⟩ := Forest.get_of_lt (same.size ▸ Forest.get_lt_size found)
    obtain ⟨image, foundImage, alike⟩ := same.items id item foundItem
    cases found.symm.trans foundImage
    exact ⟨item, foundItem, alike.symm⟩
  spans id inside := by
    obtain ⟨start, stop⟩ := same.spans id (same.size ▸ inside)
    exact ⟨start.symm, stop.symm⟩
  faults := same.faults.flip.imp fun _ _ alike => alike.symm

theorem trans (first : a.SameLetters b) (second : b.SameLetters c) : a.SameLetters c where
  size := first.size.trans second.size
  items id item found := by
    obtain ⟨image, foundImage, alike⟩ := first.items id item found
    obtain ⟨other, foundOther, more⟩ := second.items id image foundImage
    exact ⟨other, foundOther, alike.trans more⟩
  spans id inside := by
    obtain ⟨start, stop⟩ := first.spans id inside
    obtain ⟨more, further⟩ := second.spans id (first.size ▸ inside)
    exact ⟨start.trans more, stop.trans further⟩
  faults := by
    have trans : ∀ as bs cs, List.Forall₂ Fault.SameLetters as bs → List.Forall₂ Fault.SameLetters bs cs →
        List.Forall₂ Fault.SameLetters as cs := by
      intro as bs cs first
      induction first generalizing cs with
      | nil => exact id
      | cons alike _ ih =>
          rintro (_ | ⟨more, later⟩)
          exact .cons (alike.trans more) (ih _ later)
    exact trans _ _ _ first.faults second.faults

end Document.SameLetters

/-! Small letters -/

namespace Tandem

/-- The parse of a text beside that of the text in small letters. -/
def lowered (grammar : Grammar) (text : Text) : Tandem :=
  shifted grammar Char.toLower #[] text { items := #[Grammar.rootItem] }

variable {grammar : Grammar} {text : Text}

theorem shift_lowered : (lowered grammar text).shift = 0 := rfl

@[simp]
theorem rename_lowered : (lowered grammar text).rename = id := by
  funext id
  unfold rename
  split
  · rename_i isRoot
    exact isRoot.symm
  · rfl

theorem map_id (parts : Parts) : parts.map id = parts := by
  simp [Parts.map]

theorem carryKind_same {kind : ItemKind} : kind.SameLetters ((lowered grammar text).carryKind kind) := by
  have small : ∀ word, SameLetters word ((lowered grammar text).word word) := sameLetters_smallLetters
  cases kind with
  | token kind word => exact .token kind (small word)
  | literal name => exact .literal (small name)
  | numeric value type kind => exact .numeric type kind (small value)
  | constantText raw text quote closed => exact .constantText _ _ quote closed (small raw)
  | _ => simpa [carryKind] using ItemKind.SameLetters.same _

theorem sameLetters_of_kind {kind other : ItemKind} (alike : (lowered grammar text).Kind kind other) :
    kind.SameLetters other := by
  cases kind with
  | constantText raw text quote closed =>
      obtain ⟨text', _, rfl⟩ := alike
      exact .constantText _ _ quote closed (sameLetters_smallLetters raw)
  | _ =>
      cases alike
      exact carryKind_same

theorem ItemAlike.sameLetters {item other : Item} (alike : (lowered grammar text).ItemAlike item other) :
    item.SameLetters other where
  parent := by simp [alike.parent]
  start := alike.start.symm
  length := alike.length.symm
  kind := sameLetters_of_kind alike.kind
  parts := by rw [alike.parts, rename_lowered, map_id]

theorem RootAlike.sameLetters {item other : Item} (alike : (lowered grammar text).RootAlike item other) :
    item.SameLetters other := by
  obtain ⟨isRoot, first, found, _, rfl⟩ := alike
  obtain rfl : Grammar.rootItem = first := Option.some.inj found
  obtain ⟨statements, separators, kind⟩ := isRoot.kind
  refine ⟨rfl, rfl, rfl, ?_, ?_⟩
  · simpa [carryRoot, kind, carryKind, Grammar.rootItem, ItemKind.append] using
      ItemKind.SameLetters.same (.root statements separators)
  · simp [carryRoot, Grammar.rootItem, Parts.append, map_id]

theorem sameLetters_of_fault {fault other : Fault} (alike : (lowered grammar text).FaultAlike fault other) :
    fault.SameLetters other := by
  obtain rfl := alike trivial
  obtain ⟨start, length, cause, critical⟩ := fault
  cases cause <;> exact ⟨rfl, rfl, rfl, rfl⟩

end Tandem

open Tandem

namespace Grammar

variable {grammar : Grammar} {config : Config}

theorem parse_smallLetters (stock : grammar.Stock) (refolds : grammar.Refolds Char.toLower)
    (text : String) : (grammar.parse text).SameLetters (grammar.parse (smallLetters text)) := by
  have small : Text.ofString (smallLetters text) = (Text.ofString text).map Char.toLower := by
    simp [Text.ofString, smallLetters]
  have near : (lowered grammar (Text.ofString text)).Near _ _ :=
    near_folded stock refolds (Text.ofString text)
  rw [← small] at near
  have mirror := near.forest
  have size := mirror.size
  rw [shift_lowered, Nat.add_zero, ← forest_parse, ← forest_parse] at size
  rw [← forest_parse, ← forest_parse] at mirror
  have items : ∀ id item, (grammar.parse text).forest.get? id = some item →
      ∃ other, (grammar.parse (smallLetters text)).forest.get? id = some other ∧
        item.SameLetters other := by
    intro id item found
    by_cases isRoot : id = 0
    · obtain ⟨root, image, foundRoot, foundImage, alike⟩ := mirror.root
      subst isRoot
      cases found.symm.trans foundRoot
      exact ⟨image, foundImage, RootAlike.sameLetters alike⟩
    · obtain ⟨image, foundImage, alike⟩ := mirror.items id item isRoot found
      rw [rename_lowered, id_eq] at foundImage
      exact ⟨image, foundImage, ItemAlike.sameLetters alike⟩
  refine ⟨size.symm, items, fun id inside => ?_, ?_⟩
  · have agree := Forest.spans_agree mirror.linked mirror.linkedOther
      (K := (· < (grammar.parse text).forest.size))
      (fun _ _ _ owns => mirror.linked.part_lt_size owns)
      (fun id inside => by
        obtain ⟨item, found⟩ := Forest.get_of_lt inside
        obtain ⟨other, foundOther, alike⟩ := items id item found
        exact ⟨item, other, found, foundOther,
          by rw [alike.parts], alike.start.symm, alike.length.symm⟩) inside
    exact ⟨agree.1.symm, agree.2.symm⟩
  · rw [faults_parse, faults_parse]
    exact near.faults.imp fun _ _ => sameLetters_of_fault

/-- Case does not matter: with default names and numbers, and no letters among separator, quotes and
comment markers, texts that differ in the case of ASCII letters have the same items and faults. -/
theorem parse_ignores_case (built : build config stockLiteralChar [] = .ok grammar)
    (numeric : config.numericTypes = NumericType.defaults)
    (insensitive : grammar.caseSensitive = false)
    (separator : ∀ c, grammar.separator = some c → c.isAlpha = false)
    (quotes : ∀ quote ∈ grammar.quotes, quote.isAlpha = false)
    (comments : ∀ marker ∈ grammar.comments.texts, ∀ c ∈ marker.toList, c.isAlpha = false)
    {a b : String} (same : ExprLang.SameLetters a b) :
    (grammar.parse a).SameLetters (grammar.parse b) := by
  have stock := stock_of_build built numeric
  have refolds := refolds_toLower insensitive quotes separator comments
  have left := parse_smallLetters stock refolds a
  have right := parse_smallLetters stock refolds b
  rw [same] at left
  exact left.trans right.symm

theorem keywords_and_names_in_capitals :
    build plainConfig stockLiteralChar [] = .ok (ofConfig plainConfig) ∧
      ((ofConfig plainConfig).parse "CONST x Is NULL + 1e3").faults = [] ∧
      ((ofConfig plainConfig).parse "CONST x Is NULL + 1e3").SameLetters
        ((ofConfig plainConfig).parse "const X is null + 1E3") := by
  have quotes : (ofConfig plainConfig).quotes.all (fun quote => !quote.isAlpha) = true := by decide
  have comments : (ofConfig plainConfig).comments.texts.all
      (fun marker => marker.toList.all fun c => !c.isAlpha) = true := by decide
  refine ⟨build_plain, by decide +kernel, parse_ignores_case build_plain rfl rfl ?_ ?_ ?_ (by decide +kernel)⟩
  · rintro _ ⟨⟩
    rfl
  · simpa using quotes
  · simpa using comments

end Grammar

end ExprLang
