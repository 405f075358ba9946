import ExprLang.Output.Outline
import ExprLang.Proofs.Tandem.Respaced

/-!
How much space is between tokens does not matter. A text without faults may be written with other blanks
in its gaps and has the same items then. The one thing that blanks can do is to end a line comment, and
an operator's name of several words is looked for across comments even where the comment marker is made
of what will be read as other operators; so such a marker may make a line feed matter.
-/

namespace ExprLang

/-- Only the places differ. -/
structure Document.SameItems (a b : Document) : Prop where
  root : b.root = a.root
  items : ∀ id, ∃ start, b.forest.get? id = (a.forest.get? id).map fun item => { item with start }

namespace Document.SameItems

variable {a b : Document} (same : a.SameItems b)

include same

theorem kind (id : ItemId) : b.forest.kind? id = a.forest.kind? id := by
  obtain ⟨start, image⟩ := same.items id
  rw [Forest.kind?, Forest.kind?, image, Option.map_map]
  rfl

theorem parts (id : ItemId) : b.forest.parts id = a.forest.parts id := by
  obtain ⟨start, image⟩ := same.items id
  rw [Forest.parts, Forest.parts, image, Option.map_map]
  rfl

theorem size : b.forest.size = a.forest.size := by
  have within : ∀ id, id < b.forest.size ↔ id < a.forest.size := by
    intro id
    obtain ⟨start, image⟩ := same.items id
    have outside : b.forest.get? id = none ↔ a.forest.get? id = none := by
      rw [image, Option.map_eq_none_iff]
    simpa [Forest.get?, Forest.size, Array.getElem?_eq_none_iff] using not_congr outside
  have less := within a.forest.size
  have less' := within b.forest.size
  omega

/-- Outlines tell nothing of places. -/
theorem outlineWithin (steps : Nat) (id : ItemId) :
    b.forest.outlineWithin steps id = a.forest.outlineWithin steps id ∧
      b.forest.coreWithin steps id = a.forest.coreWithin steps id := by
  induction steps generalizing id with
  | zero => exact ⟨rfl, rfl⟩
  | succ steps ih =>
      have outlines : b.forest.outlineWithin steps = a.forest.outlineWithin steps :=
        funext fun id => (ih id).1
      have cores : b.forest.coreWithin steps = a.forest.coreWithin steps := funext fun id => (ih id).2
      constructor
      · simp only [Forest.outlineWithin, outlines, cores, same.parts]
      · simp only [Forest.coreWithin, outlines, cores, same.parts, same.kind]

theorem outline : b.outline = a.outline := by
  have outlines : b.forest.outline = a.forest.outline := funext fun id => by
    rw [Forest.outline, Forest.outline, same.size]
    exact (same.outlineWithin _ id).1
  rw [Document.outline, Document.outline, Document.statements, Document.statements, same.root,
    same.parts, outlines]

end Document.SameItems

namespace Grammar

variable {grammar : Grammar} {config : Config}

theorem parse_respaced (stock : grammar.Stock)
    (keywords : ∀ keyword ∈ grammar.keywords, Solid keyword.text)
    {text other : String} {row : List (Nat × Nat)} (tiled : grammar.Tiled (Text.ofString text) row)
    (clean : (grammar.parse text).faults = [])
    (respaced : Respaced (grammar.Respaces (Text.ofString text)) 0 text.toList other.toList) :
    (grammar.parse other).faults = [] ∧ (grammar.parse text).SameItems (grammar.parse other) := by
  obtain ⟨move, whole, start, tracks⟩ := @Respaced.exists_tracks _ _ _ _ respaced
    (fun _ _ _ respaces => respaces.spacing.filled) (Text.ofString text) (Text.ofString other) 0
    (by rw [Text.ofString, List.drop_zero]) (by rw [Text.ofString, List.drop_zero]) (Nat.zero_le _)
    (Nat.zero_le _)
  obtain ⟨t', origin, closedByBlock, passes, landed, run⟩ :=
    Tandem.landed_moved stock (Tandem.course_respaced stock keywords tracks tiled) start clean
  have place : t'.cursor.position = (Text.ofString other).size := by
    have atEnd := Array.getElem?_eq_none_iff.mp landed.atEnd
    have inside := (tracks.inside _ (Tandem.whole_of_rests tracks tiled landed.rest)).2.1
    have text : (grammar.finalState (Text.ofString text)).cursor.text = Text.ofString text := landed.text
    rw [text] at atEnd
    rw [landed.position, Nat.le_antisymm inside atEnd]
    exact tracks.last.2
  have ends : t'.cursor.text[t'.cursor.position]? = none := by
    rw [place]
    exact Array.getElem?_eq_none (Nat.le_of_eq (congrArg Array.size landed.other))
  have final : grammar.finalState (Text.ofString other) = t' := by
    refine finalState_of_ok ?_
    rw [run, Tandem.behindRoot_run, ends]
  refine ⟨?_, ⟨rfl, fun id => ?_⟩⟩
  · have faults := landed.faults
    have none : (grammar.finalState (Text.ofString text)).faults = [] := clean
    rw [none] at faults
    rw [faults_parse, final]
    exact List.forall₂_nil_left_iff.mp faults
  · rw [forest_parse, forest_parse, final]
    have image := Tandem.get_moved landed.forest id
    cases found : (grammar.finalState (Text.ofString text)).forest.get? id with
    | none => exact ⟨0, by rw [image, found]; rfl⟩
    | some item => exact ⟨_, by rw [image, found]; rfl⟩

/-- Blanks between tokens do not matter: with default names and numbers, and no blanks in keywords, a
text without faults can be written with other blanks in its gaps, as long as no line comment that an
operator's name is looked for across reaches a gap that wins or loses its line feeds. -/
theorem parse_ignores_spacing (built : build config stockLiteralChar [] = .ok grammar)
    (numeric : config.numericTypes = NumericType.defaults)
    (keywords : ∀ keyword ∈ grammar.keywords, Solid keyword.text) {text other : String}
    (clean : (grammar.parse text).faults = [])
    (respaced : Respaced (grammar.Respaces (Text.ofString text)) 0 text.toList other.toList) :
    (grammar.parse other).faults = [] ∧ (grammar.parse text).SameItems (grammar.parse other) ∧
      (grammar.parse other).outline = (grammar.parse text).outline := by
  obtain ⟨row, tiled⟩ := exists_tiled built clean
  obtain ⟨faults, same⟩ := parse_respaced (stock_of_build built numeric) keywords tiled clean respaced
  exact ⟨faults, same, same.outline⟩

theorem operator_over_two_lines :
    build plainConfig stockLiteralChar [] = .ok (ofConfig plainConfig) ∧
      ((ofConfig plainConfig).parse "x is null + y").faults = [] ∧
      ((ofConfig plainConfig).parse "x  is\nnull + y").faults = [] ∧
      ((ofConfig plainConfig).parse "x is null + y").SameItems
        ((ofConfig plainConfig).parse "x  is\nnull + y") ∧
      ((ofConfig plainConfig).parse "x  is\nnull + y").outline =
        ((ofConfig plainConfig).parse "x is null + y").outline := by
  have clean : ((ofConfig plainConfig).parse "x is null + y").faults = [] := by decide +kernel
  have keywords : (ofConfig plainConfig).keywords.all
      (fun keyword => keyword.text.toList.all fun c => !Unicode.isBlank c) = true := by decide +kernel
  have keywords : ∀ keyword ∈ (ofConfig plainConfig).keywords, Solid keyword.text := by
    simpa [Solid] using keywords
  have tokens : ((ofConfig plainConfig).finalState (Text.ofString "x is null + y")).forest.tokenSpans =
      [(0, 1), (12, 13), (2, 4), (5, 9), (10, 11)] := by decide +kernel
  have chars : "x is null + y".toList =
      ['x', ' ', 'i', 's', ' ', 'n', 'u', 'l', 'l', ' ', '+', ' ', 'y'] := by decide +kernel
  have others : "x  is\nnull + y".toList =
      ['x', ' ', ' ', 'i', 's', '\n', 'n', 'u', 'l', 'l', ' ', '+', ' ', 'y'] := by decide +kernel
  have noComment : ∀ place,
      (ofConfig plainConfig).comments.commentsFrom (Text.ofString "x is null + y") place = [] := by
    intro place
    by_cases inside : place < 13
    · have each : ∀ place < 13,
          (ofConfig plainConfig).comments.commentsFrom (Text.ofString "x is null + y") place = [] := by
        decide +kernel
      exact each place inside
    · have size : (Text.ofString "x is null + y").size = 13 := by decide +kernel
      exact CommentMarkers.commentsFrom_of_settled (CommentMarkers.gapEnd_of_settled
        (CommentMarkers.settled_of_size_le (size ▸ Nat.le_of_not_lt inside)))
  have unreached : ∀ place, (ofConfig plainConfig).Unreached (Text.ofString "x is null + y") place := by
    intro place span _ stop _ comment member
    rw [noComment stop] at member
    cases member
  have first : (ofConfig plainConfig).Respaces (Text.ofString "x is null + y") 1 [' '] [' ', ' '] := by
    refine ⟨⟨by decide, List.all_eq_true.mp (by decide), ⟨0, ?_⟩, ⟨4, ?_⟩⟩, Or.inr (unreached 1)⟩
    · rw [tokens]
      decide
    · rw [tokens]
      decide
  have second : (ofConfig plainConfig).Respaces (Text.ofString "x is null + y") 4 [' '] ['\n'] := by
    refine ⟨⟨by decide, List.all_eq_true.mp (by decide), ⟨2, ?_⟩, ⟨9, ?_⟩⟩, Or.inr (unreached 4)⟩
    · rw [tokens]
      decide
    · rw [tokens]
      decide
  have respaced : Respaced ((ofConfig plainConfig).Respaces (Text.ofString "x is null + y")) 0
      "x is null + y".toList "x  is\nnull + y".toList := by
    rw [chars, others]
    exact .keep 'x' (.replace first (.keep 'i' (.keep 's' (.replace second (.refl 5 _)))))
  obtain ⟨faults, same⟩ := parse_ignores_spacing build_plain rfl keywords clean respaced
  exact ⟨build_plain, clean, faults, same⟩

/-- Two operators begin with the same sign, and what follows the longer one looks like a comment. -/
def maskedConfig : Config where
  operators := [.ofName "*/" .binary 30, .ofName "* b" .binary 30, .ofName "/" .prefixOp 0]

/-- Here the line feed ends the comment behind which the name's second word is found. -/
theorem line_feed_shows_word :
    build maskedConfig stockLiteralChar [] = .ok (ofConfig maskedConfig) ∧
      maskedConfig.numericTypes = NumericType.defaults ∧
      (∀ keyword ∈ (ofConfig maskedConfig).keywords, Solid keyword.text) ∧
      ((ofConfig maskedConfig).parse "a *// b").faults = [] ∧
      Respaced ((ofConfig maskedConfig).finalState (Text.ofString "a *// b")).forest.Spacing 0
        "a *// b".toList "a *//\nb".toList ∧
      ((ofConfig maskedConfig).parse "a *//\nb").faults ≠ [] := by
  have numbers : readNumericRules maskedConfig.numericTypes = .ok NumericRule.defaults :=
    readNumericRules_defaults
  have chars : "a *// b".toList = ['a', ' ', '*', '/', '/', ' ', 'b'] := by decide +kernel
  have others : "a *//\nb".toList = ['a', ' ', '*', '/', '/', '\n', 'b'] := by decide +kernel
  have spacing : ((ofConfig maskedConfig).finalState (Text.ofString "a *// b")).forest.Spacing 5
      [' '] ['\n'] := by
    refine ⟨by decide, List.all_eq_true.mp (by decide), ⟨4, ?_⟩, ⟨7, ?_⟩⟩
    · decide +kernel
    · decide +kernel
  refine ⟨?_, rfl, nofun, by decide +kernel, ?_, by decide +kernel⟩
  · unfold build
    rw [numbers]
    rfl
  · rw [chars, others]
    exact .keep 'a' (.keep ' ' (.keep '*' (.keep '/' (.keep '/' (.replace spacing (.keep 'b' (.done 7)))))))

end Grammar

end ExprLang
