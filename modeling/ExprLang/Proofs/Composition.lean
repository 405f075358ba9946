import ExprLang.Proofs.Fields
import ExprLang.Proofs.Outlines
import ExprLang.Proofs.Spacing
import ExprLang.Proofs.Tandem.Composed

/-!
Statements on both sides of a separator. A text without faults, a separator and any other text have
the statements of the first text and then those of the second one, and the faults of the second one
further on. Nothing that is looked for in the first text may be cut off by its end: a comment that runs
there would go on over the separator, even if it only is one for the search for an operator's name.
-/

namespace ExprLang

open Forest (Owns)
open Relation (ReflTransGen)

@[simp]
theorem ItemKind.rename_id (kind : ItemKind) : kind.rename id = kind := by
  cases kind <;> simp [ItemKind.rename]

@[simp]
theorem Parts.map_id (parts : Parts) : parts.map id = parts := by
  simp [Parts.map]

/-- The items below the first one. -/
def Forest.Below (forest : Forest) (id : ItemId) : Prop := id ≠ 0 ∧ ReflTransGen forest.Owns 0 id

namespace Grammar

variable (grammar : Grammar) {text : Text} {other : Forest} {f : ItemId → ItemId}

/-- Images of the items make a copy of what hangs on the root. -/
theorem copied_below (linked : (grammar.finalState text).forest.Linked)
    (free : (grammar.finalState text).forest.parent? 0 = none)
    (images : ∀ id item, id ≠ 0 → (grammar.finalState text).forest.get? id = some item →
      ∃ image, other.get? (f id) = some image ∧ image.kind = item.kind.rename f ∧
        image.parts = item.parts.map f) :
    Forest.Copied (grammar.finalState text).forest other f (grammar.finalState text).forest.Below := by
  obtain ⟨forest, consistent, spares⟩ := grammar.exists_consistent text
  obtain ⟨statements, separators, isRoot⟩ := consistent.root
  have rootInside := Forest.lt_size_of_kind isRoot
  have inside : ∀ id, (grammar.finalState text).forest.Below id → id < forest.size :=
    fun id here => spares.owns consistent.closed rootInside here.2
  have item : ∀ id, (grammar.finalState text).forest.Below id →
      ∃ item, (grammar.finalState text).forest.get? id = some item :=
    fun id here => Forest.get_of_lt (Nat.lt_of_lt_of_le (inside id here) spares.size)
  refine ⟨linked, fun id here => Nat.lt_of_lt_of_le (inside id here) spares.size, ?_, ?_, ?_, ?_⟩
  · intro id here
    obtain ⟨item, found⟩ := item id here
    obtain ⟨image, foundImage, kind, _⟩ := images id item here.1 found
    rw [Forest.kind_of_get found, Forest.kind_of_get foundImage, kind, Option.map_some]
  · intro id here
    obtain ⟨item, found⟩ := item id here
    obtain ⟨image, foundImage, _, parts⟩ := images id item here.1 found
    rw [Forest.parts_of_get found, Forest.parts_of_get foundImage, parts]
  · exact fun id here => spares.agrees consistent (inside id here)
  · intro id part here owns
    refine ⟨?_, here.2.tail owns⟩
    rintro rfl
    exact linked.not_owned free owns

end Grammar

namespace Tandem

variable {W : Tandem}

/-- Without other characters only the numbers of items differ. -/
theorem kind_renamed (words : ∀ word, W.word word = word) (decoded : ∀ a b, W.decoded a b → b = a)
    {kind other : ItemKind} (alike : W.Kind kind other) : other = kind.rename W.rename := by
  cases kind with
  | constantText raw text quote closed =>
      obtain ⟨text', same, rfl⟩ := alike
      rw [decoded text text' same, words]
      rfl
  | token kind text => exact Eq.trans alike (by rw [carryKind, words]; rfl)
  | literal name => exact Eq.trans alike (by rw [carryKind, words]; rfl)
  | numeric value type kind => exact Eq.trans alike (by rw [carryKind, words]; rfl)
  | _ => exact alike

section Shifted

variable {grammar : Grammar} {before text : Text} {earlier forest forest' : Forest}

@[simp]
theorem word_shifted (word : String) : (shifted grammar id before text earlier).word word = word := by
  simp [Tandem.word, shifted]

theorem carryFault_shifted (fault : Fault) :
    (shifted grammar id before text earlier).carryFault fault =
      { fault with start := fault.start + before.size } := by
  obtain ⟨start, length, cause, critical⟩ := fault
  cases cause <;> simp only [carryFault, carryCause, word_shifted] <;> rfl

/-- The statements found earlier come first. -/
theorem statements_shifted
    (mirror : (shifted grammar id before text earlier).Mirror forest forest') :
    (forest'.parts 0).children = (earlier.parts 0).children ++
      (forest.parts 0).children.map (shifted grammar id before text earlier).rename := by
  obtain ⟨root, image, found, foundImage, isRoot, first, foundFirst, _, rfl⟩ := mirror.root
  have foundFirst : earlier.get? 0 = some first := foundFirst
  rw [Forest.parts_of_get foundImage, Forest.parts_of_get found, Forest.parts_of_get foundFirst]
  rfl

end Shifted

variable {grammar : Grammar} {text behind : Text} {c : Char} {s u : ParseState} {forest : Forest}

theorem outlines_of_copied {other : Forest} {f : ItemId → ItemId}
    (copied : Forest.Copied forest other f forest.Below) (free : forest.parent? 0 = none)
    (smaller : forest.size ≤ other.size) :
    ((forest.parts 0).children.map f).map other.outline = (forest.parts 0).children.map forest.outline := by
  rw [List.map_map]
  refine List.map_congr_left fun statement member => copied.outline smaller ⟨?_, .single ?_⟩
  · rintro rfl
    exact copied.linked.not_owned free (copied.linked.named_of_child (List.mem_append_right _ member))
  · exact copied.linked.named_of_child (List.mem_append_right _ member)

/-- Below the root there are the items of the first text and those of the second one. -/
theorem outlines_composed (alone : (grammar.finalState text).forest.Linked)
    (isRootAlone : ∃ root, (grammar.finalState text).forest.get? 0 = some root ∧ root.IsRoot)
    (sameForest : s.forest = (grammar.finalState text).forest)
    (separated : Separated grammar text behind c s u)
    (mirror : (shifted grammar id (text ++ #[c]) behind u.forest).Mirror
      (grammar.finalState behind).forest forest) :
    (forest.parts 0).children.map forest.outline =
      ((grammar.finalState text).forest.parts 0).children.map (grammar.finalState text).forest.outline ++
        ((grammar.finalState behind).forest.parts 0).children.map
          (grammar.finalState behind).forest.outline := by
  obtain ⟨root, found, isRoot⟩ := isRootAlone
  obtain ⟨rootBehind, _, foundBehind, _, alike⟩ := mirror.root
  have free := (Forest.parent_of_get found).trans isRoot.free
  have freeBehind := (Forest.parent_of_get foundBehind).trans alike.isRoot.free
  have size := mirror.size
  have larger := mirror.earlier_pos
  change forest.size = (grammar.finalState behind).forest.size + (u.forest.size - 1) at size
  change 0 < u.forest.size at larger
  have before : (grammar.finalState text).forest.size ≤ u.forest.size := sameForest ▸ separated.size
  have positive := mirror.size_pos
  have copied : Forest.Copied (grammar.finalState text).forest forest id
      (grammar.finalState text).forest.Below := by
    refine grammar.copied_below alone free fun id item known found => ?_
    have inside := Forest.get_lt_size found
    have same := (mirror.earlier id known (Nat.lt_of_lt_of_le inside before)).trans
      (separated.earlier id known (sameForest ▸ inside))
    refine ⟨item, ?_, (ItemKind.rename_id _).symm, (Parts.map_id _).symm⟩
    rw [id_eq, same, sameForest, found]
  have copiedBehind : Forest.Copied (grammar.finalState behind).forest forest
      (shifted grammar id (text ++ #[c]) behind u.forest).rename
      (grammar.finalState behind).forest.Below := by
    refine grammar.copied_below mirror.linked freeBehind fun id item known found => ?_
    obtain ⟨image, foundImage, alike⟩ := mirror.items id item known found
    exact ⟨image, foundImage, kind_renamed word_shifted (fun _ _ same => same fun _ => rfl) alike.kind,
      alike.parts⟩
  have first := outlines_of_copied copied free (by omega)
  have second := outlines_of_copied copiedBehind freeBehind (by omega)
  rw [List.map_id] at first
  rw [statements_shifted mirror, separated.children, sameForest, List.map_append, first, second]

end Tandem

namespace Grammar

variable {grammar : Grammar} {config : Config}

/-- Statements compose at the separator: with default names and numbers, and a separator that is in no
word, number or comment marker, a text without faults and a separator may stand before any text, as long
as no comment runs to the end of the first text, neither one that it has nor one that an operator's
name is looked for across. -/
theorem parse_composes_at_separator (built : build config stockLiteralChar [] = .ok grammar)
    (numeric : config.numericTypes = NumericType.defaults) {separator : Char}
    (separates : grammar.Separates separator) {first : String}
    (clean : (grammar.parse first).faults = [])
    (ended : ∀ comment ∈ (grammar.parse first).comments, comment.kind = .line →
      comment.stop < first.length)
    (looks : grammar.LooksBefore (Text.ofString first)) (second : String) :
    let whole := grammar.parse (first ++ String.singleton separator ++ second)
    whole.statements.map whole.forest.outline =
        (grammar.parse first).statements.map (grammar.parse first).forest.outline ++
          (grammar.parse second).statements.map (grammar.parse second).forest.outline ∧
      whole.faults = (grammar.parse second).faults.map fun fault =>
        { fault with start := fault.start + (first.length + 1) } := by
  obtain ⟨row, tiled⟩ := exists_tiled built clean
  have stock := stock_of_build built numeric
  have size : (Text.ofString first).size = first.length := by
    rw [Text.ofString, List.size_toArray, String.length_toList]
  obtain ⟨s, u, sameForest, separated, near⟩ := @Tandem.near_composed grammar (Text.ofString first)
    (Text.ofString second) row separator stock separates tiled (size ▸ ended) looks clean
  have whole : Text.ofString (first ++ String.singleton separator ++ second) =
      Text.ofString first ++ (#[separator] ++ Text.ofString second) := by
    simp [Text.ofString]
  obtain ⟨root, found, isRoot, _⟩ := Tandem.root_finalState stock (Text.ofString first)
  have alone := (Tandem.near_folded stock (Grammar.refolds_id grammar) (Text.ofString first)).forest.linked
  constructor
  · have outlines := Tandem.outlines_composed alone ⟨root, found, isRoot⟩ sameForest separated near.forest
    rw [← whole] at outlines
    exact outlines
  · rw [faults_parse, whole, faults_parse]
    have faults : List.Forall₂ (fun fault other => fault = other)
        ((grammar.finalState (Text.ofString second)).faults.map fun fault =>
          { fault with start := fault.start + (first.length + 1) }) _ :=
      List.forall₂_map_left_iff.mpr <| near.faults.imp fun fault other alike => by
        rw [alike trivial, Tandem.carryFault_shifted, Array.size_append, size]
        rfl
    rw [List.forall₂_eq_eq_eq] at faults
    exact faults.symm

theorem faulty_text_behind_separator :
    build plainConfig stockLiteralChar [] = .ok (ofConfig plainConfig) ∧
      plainConfig.numericTypes = NumericType.defaults ∧
      (ofConfig plainConfig).Separates ';' ∧
      ((ofConfig plainConfig).parse "x is /* a */ null /* b */").faults = [] ∧
      (∀ comment ∈ ((ofConfig plainConfig).parse "x is /* a */ null /* b */").comments,
        comment.kind = .line → comment.stop < "x is /* a */ null /* b */".length) ∧
      (ofConfig plainConfig).LooksBefore (Text.ofString "x is /* a */ null /* b */") ∧
      let first := (ofConfig plainConfig).parse "x is /* a */ null /* b */"
      let second := (ofConfig plainConfig).parse "y +"
      let whole := (ofConfig plainConfig).parse ("x is /* a */ null /* b */" ++ String.singleton ';' ++ "y +")
      whole.statements.map whole.forest.outline =
          first.statements.map first.forest.outline ++ second.statements.map second.forest.outline ∧
        whole.faults = second.faults.map fun fault =>
          { fault with start := fault.start + ("x is /* a */ null /* b */".length + 1) } := by
  have separates : (ofConfig plainConfig).Separates ';' := by
    have unwritten : (ofConfig plainConfig).symbols.all (fun symbol => !symbol.toList.contains ';') =
        true := by decide +kernel
    have unmarked : (ofConfig plainConfig).comments.texts.all
        (fun marker => !marker.toList.contains ';') = true := by decide +kernel
    exact ⟨⟨by decide +kernel, by decide, by simpa using unwritten⟩, rfl, by simpa using unmarked⟩
  have clean : ((ofConfig plainConfig).parse "x is /* a */ null /* b */").faults = [] := by decide +kernel
  have ended : ((ofConfig plainConfig).parse "x is /* a */ null /* b */").comments =
      [⟨18, 7, .multiline, true⟩] := by decide +kernel
  have ended : ∀ comment ∈ ((ofConfig plainConfig).parse "x is /* a */ null /* b */").comments,
      comment.kind = .line → comment.stop < "x is /* a */ null /* b */".length := by
    rw [ended]
    decide
  have looks : (ofConfig plainConfig).LooksBefore (Text.ofString "x is /* a */ null /* b */") := by
    intro span _ stop _ comment member
    by_cases inside : stop < 25
    · have each : (List.range 25).all (fun place =>
          ((ofConfig plainConfig).comments.commentsFrom (Text.ofString "x is /* a */ null /* b */") place).all
            fun comment => comment.closed && comment.kind != .line) = true := by decide +kernel
      have fine := List.all_eq_true.mp
        (List.all_eq_true.mp each stop (List.mem_range.mpr inside)) comment member
      simp only [Bool.and_eq_true, bne_iff_ne] at fine
      exact ⟨fine.1, fun isLine => absurd isLine fine.2⟩
    · have size : (Text.ofString "x is /* a */ null /* b */").size = 25 := by decide +kernel
      rw [CommentMarkers.commentsFrom_of_settled (CommentMarkers.gapEnd_of_settled
        (CommentMarkers.settled_of_size_le (size ▸ Nat.le_of_not_lt inside)))] at member
      cases member
  exact ⟨build_plain, rfl, separates, clean, ended, looks,
    parse_composes_at_separator build_plain rfl separates clean ended looks "y +"⟩

/-- What looks like a comment in the first text goes on over the separator. -/
theorem masked_comment_over_separator :
    build maskedConfig stockLiteralChar [] = .ok (ofConfig maskedConfig) ∧
      maskedConfig.numericTypes = NumericType.defaults ∧
      (ofConfig maskedConfig).Separates ';' ∧
      ((ofConfig maskedConfig).parse "a *// c").faults = [] ∧
      ((ofConfig maskedConfig).parse "a *// c").comments = [] ∧
      let first := (ofConfig maskedConfig).parse "a *// c"
      let second := (ofConfig maskedConfig).parse "\nb"
      let whole := (ofConfig maskedConfig).parse ("a *// c" ++ String.singleton ';' ++ "\nb")
      whole.statements.map whole.forest.outline ≠
          first.statements.map first.forest.outline ++ second.statements.map second.forest.outline ∧
        second.faults = [] ∧ whole.faults ≠ [] := by
  have separates : (ofConfig maskedConfig).Separates ';' := by
    have unwritten : (ofConfig maskedConfig).symbols.all (fun symbol => !symbol.toList.contains ';') =
        true := by decide +kernel
    have unmarked : (ofConfig maskedConfig).comments.texts.all
        (fun marker => !marker.toList.contains ';') = true := by decide +kernel
    exact ⟨⟨by decide +kernel, by decide, by simpa using unwritten⟩, rfl, by simpa using unmarked⟩
  have numbers : readNumericRules maskedConfig.numericTypes = .ok NumericRule.defaults :=
    readNumericRules_defaults
  refine ⟨?_, rfl, separates, by decide +kernel, by decide +kernel, by decide +kernel, by decide +kernel,
    by decide +kernel⟩
  unfold build
  rw [numbers]
  rfl

end Grammar

end ExprLang
