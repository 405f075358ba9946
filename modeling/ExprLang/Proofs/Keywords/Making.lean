import ExprLang.Proofs.Keywords.Attaching
import ExprLang.Proofs.Modifiers.Resolving

/-!
Items without keywords. An operand that is no custom expression has just been made when it is found, and
what a segment is resolved to has just been made as well, unless the segment is nothing but an operand.
-/

namespace ExprLang

open Forest (Closed Varied Waiting Wordless)

variable {grammar : Grammar} {inner : Inner}

/-- What a piece of a reading stands for in the text. -/
def Piece.term : Piece → Term
  | .operand item => .operand item
  | .operator chosen => .operators chosen.written

namespace Parse

/-! Operands without keywords -/

/-- What is made first is bare. -/
theorem attains_made {α : Type} {after : α → Forest → Prop} {kind : ItemKind} {start : Nat}
    {next : ItemId → Parse α}
    (rest : ∀ item, Attains (fun forest => Varied forest ∧ Wordless item forest) after (next item)) :
    Attains Varied after (create kind start >>= next) := by
  exact attains_bind ((attains_create (P := Closed) kind start).imp
    (fun _ varied => ⟨varied, varied.closed⟩) fun _ _ made => ⟨made.1.1, made.2⟩) rest

theorem attains_createLeaf (kind : ItemKind) (token : TokenKind) (word : String) (start : Nat) :
    Attains Varied (fun item forest => Varied forest ∧ Wordless item forest)
      (createLeaf kind token word start) :=
  attains_made fun _ => attains_behind fun _ => attains_behind fun _ => attains_pure fun _ made => made

theorem attains_textConstant (quote : Char) :
    Attains Varied (fun item forest => Varied forest ∧ Wordless item forest) (textConstant grammar quote) := by
  unfold textConstant
  refine attains_behind fun start => attains_behind fun text => attains_behind fun raw => ?_
  refine attains_bind (attains_createLeaf _ _ _ _) fun item => ?_
  dsimp only
  split
  · exact attains_behind fun _ => attains_behind fun _ => attains_pure fun _ made => made
  · exact attains_behind fun _ => attains_pure fun _ made => made

theorem attains_number (written : NumericMatch) :
    Attains Varied (fun item forest => Varied forest ∧ Wordless item forest) (number written) := by
  refine attains_behind fun start => attains_behind fun value => ?_
  refine attains_bind (attains_createLeaf _ _ _ _) fun item => ?_
  exact attains_behind fun _ => attains_pure fun _ made => made

theorem attains_name : Attains Varied
    (fun found forest => Varied forest ∧ ∀ item ∈ found, Wordless item forest) (name? grammar) := by
  refine attains_behind fun start => attains_behind fun text => ?_
  dsimp only
  split
  · exact attains_pure fun _ varied => ⟨varied, nofun⟩
  · refine attains_behind fun word => attains_bind (attains_createLeaf _ _ _ _) fun item => ?_
    refine attains_behind fun _ => attains_pure fun _ made => ⟨made.1, ?_⟩
    rintro _ ⟨⟩
    exact made.2

section Enclosed

variable [∀ context, Preserves Varied (inner context)]

theorem attains_braces (inside : InnerContained inner) (name : Option ItemId) :
    Attains Varied (fun item forest => Varied forest ∧ Wordless item forest) (braces inner name) := by
  have bound (item : ItemId) : ∀ context, Preserves (Wordless item) (inner context) := inside.preserves
  unfold braces
  refine attains_behind fun start => attains_behind fun c => ?_
  split
  · exact attains_stop
  · refine attains_behind fun opening => attains_made fun item => ?_
    refine attains_behind fun _ => attains_behind fun _ => attains_behind fun _ => attains_behind fun _ => ?_
    refine attains_behind fun read => ?_
    exact attains_bind (attains_of_preserves (preserves_setKind ⟨rfl, rfl⟩)) fun _ =>
      attains_pure fun _ made => made

theorem attains_codeBlock (inside : InnerContained inner) :
    Attains Varied (fun item forest => Varied forest ∧ Wordless item forest) (codeBlock grammar inner) := by
  have bound (item : ItemId) : ∀ context, Preserves (Wordless item) (inner context) := inside.preserves
  unfold codeBlock
  refine attains_behind fun start => ?_
  split
  · exact attains_stop
  · refine attains_behind fun _ => attains_behind fun _ => attains_made fun block => ?_
    refine attains_behind fun _ => attains_behind fun _ => attains_behind fun _ => attains_behind fun _ => ?_
    exact attains_pure fun _ made => made

theorem attains_literal (inside : InnerContained inner) :
    Attains Varied (fun found forest => Varied forest ∧ ∀ item ∈ found, Wordless item forest)
      (literal? grammar inner) := by
  unfold literal?
  refine attains_bind attains_name fun found => ?_
  split
  · exact attains_pure fun _ known => known
  · refine attains_behind fun s => ?_
    dsimp only
    split
    · refine attains_behind fun _ => ?_
      refine attains_bind ((attains_braces inside _).given fun _ known => known.1) fun item => ?_
      refine attains_pure fun _ made => ⟨made.1, ?_⟩
      rintro _ ⟨⟩
      exact made.2
    · exact attains_pure fun _ known => known

/-- A plain operand has just been made. -/
theorem attains_plainOperand (inside : InnerContained inner) (terms : List Term) :
    Attains Varied
      (fun found forest => Varied forest ∧ ∀ item, found = Found.operand item → Wordless item forest)
      (plainOperand grammar inner terms) := by
  have asOperand {step : Parse ItemId}
      (made : Attains Varied (fun item forest => Varied forest ∧ Wordless item forest) step) :
      Attains Varied
        (fun found forest => Varied forest ∧ ∀ item, found = Found.operand item → Wordless item forest)
        (do return Found.operand (← step)) := by
    refine attains_bind made fun item => attains_pure fun _ made => ⟨made.1, ?_⟩
    rintro _ ⟨⟩
    exact made.2
  refine attains_behind fun place => attains_behind fun text => ?_
  split
  · exact attains_pure fun _ varied => ⟨varied, nofun⟩
  · split
    · exact attains_pure fun _ varied => ⟨varied, nofun⟩
    · rename_i c _
      split
      · exact asOperand (attains_textConstant c)
      · split
        · exact asOperand (attains_number _)
        · split
          · exact asOperand (attains_braces inside none)
          · split
            · exact asOperand (attains_codeBlock inside)
            · split
              · exact attains_behind fun _ => attains_pure fun _ varied => ⟨varied, nofun⟩
              · refine attains_bind (attains_literal inside) fun found => ?_
                split
                · refine attains_pure fun _ known => ⟨known.1, ?_⟩
                  rintro _ ⟨⟩
                  exact known.2 _ rfl
                · exact attains_stop

end Enclosed

/-! What segments are resolved to -/

theorem wordless_of_shown {forest : Forest} {chosen : Chosen} {operand node : ItemId}
    {right : Option ItemId} (closed : Closed forest)
    (shows : forest.ShowsOperator chosen operand right node) : Wordless node forest := by
  obtain ⟨info, _, kind, parts⟩ := shows.shown
  refine ⟨closed, Forest.lt_size_of_kind kind, ?_⟩
  rw [parts, Chosen.parts]
  split <;> rfl

/-- A reading of nothing but an operand is one of that operand alone. -/
theorem terms_of_pieces {slots : List Slot} {item : ItemId}
    (pieces : slots.flatMap Slot.pieces = [.operand item]) : slots.flatMap Slot.terms = [.operand item] := by
  have terms (slot : Slot) : slot.terms = slot.pieces.map Piece.term := by
    simp [Slot.terms, Slot.pieces, Function.comp_def, Piece.term]
  have all : slots.flatMap Slot.terms = (slots.flatMap Slot.pieces).map Piece.term := by
    rw [List.map_flatMap]
    exact congrArg slots.flatMap (funext terms)
  rw [all, pieces]
  rfl

/-- A whole reading is one tree, and an operand alone only if it is all there is. -/
theorem tree_of_whole {terms : List Term} (startOf : ItemId → Nat) (filled : terms ≠ [])
    (whole : (Reading.ofTerms startOf terms).isWhole = true) :
    ∃ tree, Slot.trees (Reading.ofTerms startOf terms).slots.reverse = [tree] ∧
      ∀ leaf, tree = .operand leaf → terms = [.operand leaf] := by
  simp only [Reading.isWhole, Bool.and_eq_true, List.isEmpty_iff] at whole
  obtain ⟨⟨_, noItems⟩, faultless⟩ := whole
  have plain : ∀ item, .stray item ∉ terms := fun item member => by
    have left := Reading.stray_mem_leftItems startOf member
    rw [noItems] at left
    cases left
  have longest := Reading.longest_of_faultless startOf plain filled faultless
  obtain ⟨tree, isTree, _, reading⟩ := Slot.trees_spec
    (fun slot member => (longest.picks slot member).fits) longest.unbroken
  refine ⟨tree, isTree, ?_⟩
  rintro leaf rfl
  exact longest.spelled.symm.trans (terms_of_pieces reading.symm)

/-- A tree is shown by its operand if it is one, and else by an operator. -/
theorem operand_or_wordless {forest : Forest} {tree : OperatorTree} {node : ItemId}
    (closed : Closed forest) (shows : forest.Shows tree node) :
    tree = .operand node ∨ Wordless node forest := by
  cases tree with
  | operand leaf => exact Or.inl (congrArg OperatorTree.operand (Eq.symm shows))
  | unary chosen inner =>
      obtain ⟨operand, top, _⟩ := shows
      exact Or.inr (wordless_of_shown closed top)
  | binary chosen left right =>
      obtain ⟨first, second, top, _⟩ := shows
      exact Or.inr (wordless_of_shown closed top)

theorem attains_createSeries (items : List ItemId) :
    Attains Varied (fun series forest => Varied forest ∧ Wordless series forest) (createSeries items) :=
  attains_behind fun _ => attains_made fun _ => attains_behind fun _ => attains_pure fun _ made => made

/-- A segment is resolved to its one operand or to what has just been made. -/
theorem attains_resolve (terms : List Term) : Attains Varied
    (fun found forest => Varied forest ∧ ∀ item ∈ found, terms = [.operand item] ∨ Wordless item forest)
    (resolve terms) := by
  refine attains_behind fun forest => attains_behind fun _ => ?_
  split
  · exact attains_pure fun _ varied => ⟨varied, nofun⟩
  · rename_i notEmpty
    intro s varied
    have folded : Attains Varied (fun _ forest => Varied forest)
        (foldSlots (Reading.ofTerms forest.start terms).slots.reverse) := attains_of_preserves inferInstance
    refine ((folded s varied).and (ends_foldSlotsShown s _)).bind ?_ fun _ _ stopped => stopped.1
    rintro nodes t ⟨variedNow, _, shown⟩
    split
    · rename_i node whole
      have filled : terms ≠ [] := fun none => notEmpty (by rw [none]; rfl)
      obtain ⟨tree, isTree, alone⟩ := tree_of_whole forest.start filled whole
      rw [isTree] at shown
      rcases shown with _ | ⟨here, _⟩
      refine ends_pure ⟨variedNow, ?_⟩
      rintro _ ⟨⟩
      exact (operand_or_wordless variedNow.closed here).imp_left (alone node)
    · have series (infos : List ItemId) : Attains Varied
          (fun found forest => Varied forest ∧ ∀ item ∈ found, terms = [.operand item] ∨ Wordless item forest)
          (do return some (← createSeries infos)) := by
        refine attains_bind (attains_createSeries _) fun series => attains_pure fun _ made => ⟨made.1, ?_⟩
        rintro _ ⟨⟩
        exact Or.inr made.2
      exact attains_behind (fun infos => series _) t variedNow

end Parse

end ExprLang
