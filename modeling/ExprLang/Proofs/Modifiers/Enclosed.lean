import ExprLang.Proofs.Modifiers.Steps

/-!
Operands and what encloses expressions. While a construct is being made, the segments that have been
found for it so far are routed trees already; nothing else is done to them than that they get an owner.
-/

namespace ExprLang.Parse

open Forest

variable {grammar : Grammar} {inner : Inner} {s : ParseState}

/-- What stands inside of a construct becomes a routed tree of new items. -/
def InnerGuides (inner : Inner) : Prop := ∀ context s, s.forest.Neat →
  Ends (inner context) s
    (fun segment t => Guided [] [] s.forest t.forest ∧
      ∀ item ∈ segment.item, t.forest.RoutedFrom s.forest.size [] item) fun _ _ => True

/-! Plain operands -/

theorem gives_createLeaf {kind : ItemKind} {token : TokenKind} {word : String} {start : Nat}
    (neat : s.forest.Neat) (plain : kind.segments = []) (isOperand : kind.isOperand = true)
    (other : ∀ keyword, token ≠ .keyword keyword) :
    Ends (createLeaf kind token word start) s (fun item t => Gives s.forest t.forest item)
      fun _ _ => True := by
  refine ends_create_begun fun t begun => ?_
  refine ends_takesToken_bind (P := fun _ => False) (begun.neat neat) begun.inside other
    fun _ u takes => ends_pure ?_
  exact takes.gives (Guided.refl neat []) begun plain isOperand

theorem gives_textConstant (neat : s.forest.Neat) (quote : Char) :
    Ends (textConstant grammar quote) s (fun item t => Gives s.forest t.forest item)
      fun _ _ => True := by
  unfold textConstant
  simp only [ends_position_bind, ends_text_bind, ends_slice_bind]
  refine (gives_createLeaf neat rfl rfl (by rintro _ ⟨⟩)).bind ?_ fun _ _ _ => trivial
  intro item t gives
  split
  · exact ends_bind (ends_ok rfl (ends_bind (ends_ok rfl (ends_pure gives))))
  · exact ends_bind (ends_ok rfl (ends_pure gives))

theorem gives_number (neat : s.forest.Neat) (written : NumericMatch) :
    Ends (number written) s (fun item t => Gives s.forest t.forest item) fun _ _ => True := by
  unfold number
  simp only [ends_position_bind, ends_slice_bind]
  refine (gives_createLeaf neat rfl rfl (by rintro _ ⟨⟩)).bind ?_ fun _ _ _ => trivial
  exact fun item t gives => ends_bind (ends_ok rfl (ends_pure gives))

/-- What may be found, if it is found. -/
def GivesSome (before after : Forest) (found : Option ItemId) : Prop :=
  found.elim (Guided [] [] before after) (Gives before after)

theorem gives_name (neat : s.forest.Neat) :
    Ends (name? grammar) s (fun found t => GivesSome s.forest t.forest found) fun _ _ => True := by
  unfold name?
  simp only [ends_position_bind, ends_text_bind]
  split
  · exact ends_pure (Guided.refl neat [])
  · simp only [ends_slice_bind]
    refine (gives_createLeaf neat rfl rfl (by rintro _ ⟨⟩)).bind ?_ fun _ _ _ => trivial
    exact fun item t gives => ends_bind (ends_ok rfl (ends_pure gives))

/-! Braces -/

/-- The places of a list of parameters that are not empty hold routed trees. -/
def RoutedPlaces (forest : Forest) (braces : ItemId) (parameters : List (Option ItemId)) : Prop :=
  ∀ item ∈ parameters.filterMap id, forest.RoutedFrom (braces + 1) [] item

theorem RoutedPlaces.receives {before after : Forest} {braces : ItemId} {parameters : List (Option ItemId)}
    {P : ItemId → Prop} (routed : RoutedPlaces before braces parameters)
    (takes : Receives braces P before after) : RoutedPlaces after braces parameters :=
  fun item member => (routed item member).beside takes.guided

theorem ends_addChild_routed {owner : ItemId} {part : Option ItemId} (neat : s.forest.Neat) {low : Nat}
    (routed : ∀ item ∈ part, s.forest.RoutedFrom low [] item) :
    Ends (part.forM (addChild owner)) s (fun _ t => Receives owner (· ∈ part) s.forest t.forest)
      fun _ _ => True := by
  cases part with
  | none => exact ends_pure (Receives.refl neat owner)
  | some item =>
      refine (ends_attach_receives neat (Or.inl rfl) fun _ => (routed item rfl).not_keyword).imp ?_
        fun _ _ _ => trivial
      exact fun _ _ receives => receives.imp fun _ isItem => Or.inl (isItem ▸ rfl)

/-- What the braces get is set aside, but for the parameters. -/
structure Lists (braces : ItemId) (parameters : List (Option ItemId)) (before after : Forest) : Prop where
  receives : Receives braces (some · ∈ parameters) before after
  routed : RoutedPlaces after braces parameters

theorem ends_parameters_lists (guides : InnerGuides inner) {braces : ItemId} {kind : BraceKind}
    (passes : Nat) : ∀ {s : ParseState} (before : List (Option ItemId)) (seenComma : Bool),
      s.forest.Neat → braces < s.forest.size → RoutedPlaces s.forest braces before →
      Ends (parameters inner braces kind passes before seenComma) s
        (fun read t => Lists braces read.1 s.forest t.forest ∧ before ⊆ read.1) fun _ _ => True := by
  induction passes with
  | zero => intros; exact ends_error rfl trivial
  | succ passes ih =>
      intro s before seenComma neat inside routed
      unfold parameters
      refine (guides .braces s neat).bind ?_ fun _ _ _ => trivial
      rintro segment t ⟨guided, routedItem⟩
      have started : Receives braces (· ∈ segment.item) s.forest t.forest := .of_guided guided inside
      have routedHere : ∀ item ∈ segment.item, t.forest.RoutedFrom (braces + 1) [] item :=
        fun item isItem => (routedItem item isItem).loosen inside (by simp)
      refine (ends_addChild_routed guided.neat routedHere).bind ?_ fun _ _ _ => trivial
      intro _ u takes
      have added := started.trans inside takes
      have routedAll : RoutedPlaces u.forest braces (before ++ [segment.item]) := by
        intro item member
        rw [List.filterMap_append, List.mem_append] at member
        rcases member with old | new
        · exact (routed.receives added) item old
        · obtain ⟨place, inPlace, isItem⟩ := List.mem_filterMap.mp new
          obtain rfl := List.mem_singleton.mp inPlace
          exact (routedHere item isItem).beside takes.guided
      refine Ends.bind ends_skipGap ?_ fun _ _ never => never.elim
      rintro _ v ⟨same, _⟩
      rw [← same] at added routedAll
      have inHere := Nat.lt_of_lt_of_le inside added.guided.size
      -- The item is in its place as soon as there is one.
      have placed : ∀ {places : List (Option ItemId)}, before ++ [segment.item] ⊆ places →
          ∀ part, part ∈ segment.item → some part ∈ places := fun subset part isItem =>
        subset (List.mem_append_right _ (List.mem_singleton.mpr (Option.mem_def.mp isItem).symm))
      simp only [ends_position_bind, ends_current_bind]
      have last : Lists braces (if segment.item.isSome || seenComma then before ++ [segment.item] else before)
            s.forest v.forest ∧
          before ⊆ if segment.item.isSome || seenComma then before ++ [segment.item] else before := by
        split
        · exact ⟨⟨added.imp fun part isItem => Or.inl (placed (List.Subset.refl _) part isItem),
            routedAll⟩, List.subset_append_left _ _⟩
        · rename_i noItem
          refine ⟨⟨added.imp fun part isItem => absurd ?_ noItem, fun item member => routedAll item ?_⟩,
            List.Subset.refl _⟩
          · rw [Option.mem_def.mp isItem]
            rfl
          · rw [List.filterMap_append]
            exact List.mem_append_left _ member
      split
      · split
        · refine ends_takesToken_bind (P := (· ∈ segment.item)) added.guided.neat inHere (by rintro _ ⟨⟩)
            fun _ w comma => ?_
          refine ends_bind (ends_ok rfl ?_)
          have soFar := added.trans inside comma
          refine (ih (s := { w with cursor := w.cursor.skip 1 }) _ true soFar.guided.neat
            (Nat.lt_of_lt_of_le inside soFar.guided.size) (routedAll.receives comma)).imp ?_
            fun _ _ _ => trivial
          rintro read x ⟨lists, subset⟩
          exact ⟨⟨(soFar.imp fun part isItem => Or.inl (placed subset part isItem)).trans inside
            lists.receives, lists.routed⟩, List.Subset.trans (List.subset_append_left _ _) subset⟩
        · split
          · refine ends_takesToken_bind (P := fun _ => False) added.guided.neat inHere (by rintro _ ⟨⟩)
              fun token w closing => ?_
            exact ends_bind (ends_ok rfl (ends_pure ⟨⟨last.1.receives.trans inside
              (closing.imp fun _ never => never.elim), last.1.routed.receives closing⟩, last.2⟩))
          · exact ends_bind (ends_ok rfl (ends_pure last))
      · exact ends_bind (ends_ok rfl (ends_pure last))

/-- A name has to be new since `first`, so that it is not modified before the braces get it. -/
theorem gives_braces {first : Forest} {loose : List ItemId} (guides : InnerGuides inner)
    (guidedFirst : Guided [] loose first s.forest) (name : Option ItemId)
    (named : ∀ id ∈ name, s.forest.IsOperand id ∧ s.forest.SetAside first.size [] id) :
    Ends (braces inner name) s
      (fun item t => Gives first t.forest item ∧ (name = none → t.forest.IsNameless item))
      fun _ _ => True := by
  unfold braces
  simp only [ends_position_bind, ends_current_bind]
  split
  · exact ends_error rfl trivial
  · rename_i brace _
    refine (ends_createToken_guided guidedFirst.neat).bind ?_ fun _ _ _ => trivial
    rintro opening t ⟨guided, isOpening, bareOpening⟩
    refine ends_create_begun fun u begun => ?_
    have openingInside : opening < t.forest.size := lt_size_of_kind isOpening
    have nameTaken : Ends (name.forM (addChild t.forest.size)) u
        (fun _ v => Receives t.forest.size (· ∈ name) u.forest v.forest) fun _ _ => True := by
      cases name with
      | none => exact ends_pure (Receives.refl (begun.neat guided.neat) _)
      | some id =>
          have isOperand := guided.operand (named id rfl).1 List.not_mem_nil
          refine (ends_attach_receives (begun.neat guided.neat) (Or.inl rfl) fun _ =>
            (isOperand.of_kind (begun.kind_old isOperand.lt_size)).not_keyword).imp ?_ fun _ _ _ => trivial
          exact fun _ _ receives => receives.imp fun _ isName => Or.inl (isName ▸ rfl)
    refine nameTaken.bind ?_ fun _ _ _ => trivial
    intro _ v takesName
    have stillOpening : v.forest.kind? opening = t.forest.kind? opening :=
      (takesName.guided.same opening (Nat.lt_trans openingInside begun.inside)
        (by simpa using Nat.ne_of_lt openingInside)).kind.trans (begun.kind_old openingInside)
    refine (ends_attach_receives takesName.guided.neat (Or.inl rfl) fun _ =>
      not_keyword_of_token (stillOpening.trans isOpening) (by rintro _ ⟨⟩)).bind ?_ fun _ _ _ => trivial
    intro _ w takesOpening
    refine ends_bind (ends_ok rfl ?_)
    simp only [ends_remaining_bind]
    refine (ends_parameters_lists guides _ (s := { w with cursor := w.cursor.skip 1 }) [] false
      takesOpening.guided.neat ?_ (by rintro _ ⟨⟩)).bind ?_
      fun _ _ _ => trivial
    · exact Nat.lt_of_lt_of_le begun.inside
        (Nat.le_trans takesName.guided.size takesOpening.guided.size)
    rintro ⟨parameters, closing⟩ x ⟨⟨takesParameters, routed⟩, _⟩
    have takes : Receives t.forest.size
        (fun part => part ∈ name ∨ part = opening ∨ some part ∈ parameters) u.forest x.forest :=
      ((takesName.imp fun _ isName => Or.inl (Or.inl isName)).trans begun.inside
        (takesOpening.imp fun _ isOpening => Or.inl (Or.inr (Or.inl isOpening)))).trans begun.inside
          (takesParameters.imp fun _ isParameter => Or.inl (Or.inr (Or.inr isParameter)))
    -- The fields are filled in at last, and nothing else of the braces is changed by that.
    have stillInside := Nat.lt_of_lt_of_le begun.inside takes.guided.size
    have isStage : (ItemKind.braces brace name opening none []).isStageOf
        (.braces brace name opening closing parameters) = true := beq_self_eq_true name
    have finished := guided_setKind takes.guided.neat (takes.kind.trans begun.kind_new) isStage
    have isBraces : (x.forest.setKind t.forest.size (.braces brace name opening closing parameters)).kind?
        t.forest.size = some (.braces brace name opening closing parameters) := kind_setKind stillInside
    have whole := takes.guided.again finished (by simpa using begun.inside)
    have made := guidedFirst.next guided
    -- The name and the opening brace were there before, and are not modified.
    have older : ∀ part, t.forest.SetAside first.size [] part →
        (x.forest.setKind t.forest.size (.braces brace name opening closing parameters)).SetAside
          first.size [t.forest.size] part := fun part aside => by
      have same := whole.modifiers (Nat.lt_trans aside.inside begun.inside)
        (by simpa using Nat.ne_of_lt aside.inside)
      exact aside.stays (Nat.le_refl _) (Nat.le_trans (Nat.le_of_lt begun.inside) whole.size)
        (same.trans (begun.same aside.inside).modifiers)
        fun id isItem => Or.inr (Or.inr (List.mem_singleton.mp isItem ▸ Nat.le_refl _))
    refine ends_bind (ends_ok rfl (ends_pure ⟨⟨made.made begun rfl rfl whole ⟨_, isBraces, rfl⟩ ?_ ?_,
      ⟨_, isBraces, rfl⟩, modifiers_setKind.trans (takes.modifiers.trans begun.bare)⟩, ?_⟩))
    · rintro item ⟨other, isOther, member⟩
      obtain rfl := Option.some.inj (isBraces.symm.trans isOther)
      exact (routed item member).beside finished
    · intro part member
      rw [parts_setKind] at member
      rcases takes.grows part member with old | (isName | rfl | isParameter) | aside
      · rw [begun.noParts] at old
        cases old
      · obtain ⟨_, aside⟩ := named part isName
        exact Or.inr (older part (aside.stays (Nat.le_refl _) guided.size
          (guided.modifiers aside.inside List.not_mem_nil) (by simp)))
      · have new := guided.new part (List.mem_singleton_self part)
        exact Or.inr (older part
          ⟨Nat.le_trans guidedFirst.size new.1, new.2, List.not_mem_nil, bareOpening⟩)
      · exact Or.inl ⟨_, isBraces, List.mem_filterMap.mpr ⟨_, isParameter, rfl⟩⟩
      · exact Or.inr ((aside.stays (Nat.le_refl _) finished.size modifiers_setKind (by simp)).beside begun
          made.size)
    · rintro rfl
      exact ⟨_, _, _, _, isBraces⟩

theorem gives_literal (guides : InnerGuides inner) (neat : s.forest.Neat) :
    Ends (literal? grammar inner) s (fun found t => GivesSome s.forest t.forest found)
      fun _ _ => True := by
  unfold literal?
  refine (gives_name neat).bind ?_ fun _ _ _ => trivial
  intro found t given
  cases found with
  | none => exact ends_pure given
  | some name =>
      have named : Gives s.forest t.forest name := given
      simp only [ends_get_bind]
      split
      · refine Ends.bind ends_skipGap ?_ fun _ _ never => never.elim
        rintro _ u ⟨same, _⟩
        rw [← same] at named
        refine (gives_braces guides named.guided (some name) ?_).bind ?_ fun _ _ _ => trivial
        · rintro _ ⟨⟩
          obtain ⟨above, inside⟩ := named.guided.new name (List.mem_singleton_self name)
          exact ⟨named.operand, above, inside, List.not_mem_nil, named.bare⟩
        · rintro item v ⟨gives, _⟩
          exact ends_pure gives
      · exact ends_pure named

/-! Lists of statements -/

/-- The kinds of items that collect statements. -/
def isStatementList : ItemKind → Bool
  | .codeBlock .. | .root .. => true
  | _ => false

/-- The statements that have been collected are routed trees of newer items. -/
def Collecting (forest : Forest) (owner : ItemId) : Prop :=
  ∃ kind, forest.kind? owner = some kind ∧ isStatementList kind = true ∧
    ∀ item ∈ kind.segments, forest.RoutedFrom (owner + 1) [] item

/-- The owner collects more statements, and nothing else is changed. -/
structure Collects (owner : ItemId) (before after : Forest) : Prop where
  guided : Guided [owner] [] before after
  modifiers : after.modifiers owner = before.modifiers owner
  operand : before.IsOperand owner → after.IsOperand owner
  collecting : Collecting after owner
  keeps : ∀ part, before.IsSegment owner part → after.IsSegment owner part
  grows : Grows owner (after.IsSegment owner) before after

section Collecting

variable {before mid after forest : Forest} {owner : ItemId} {P : ItemId → Prop}

theorem Collecting.inside (collecting : Collecting forest owner) : owner < forest.size := by
  obtain ⟨kind, isKind, _⟩ := collecting
  exact lt_size_of_kind isKind

theorem Collecting.receives (collecting : Collecting before owner) (takes : Receives owner P before after) :
    Collecting after owner := by
  obtain ⟨kind, isKind, isList, routed⟩ := collecting
  exact ⟨kind, takes.kind.trans isKind, isList, fun item member => (routed item member).beside takes.guided⟩

/-- What the owner gets first has to be a segment of it in the end. -/
theorem Collects.behind (collects : Collects owner mid after) (inside : owner < before.size)
    (takes : Receives owner P before mid) (segments : ∀ part, P part → after.IsSegment owner part) :
    Collects owner before after where
  guided := takes.guided.again collects.guided (by simpa using inside)
  modifiers := collects.modifiers.trans takes.modifiers
  operand isOperand := collects.operand (isOperand.of_kind takes.kind)
  collecting := collects.collecting
  keeps part isSegment := collects.keeps part ((isSegment_of_kind takes.kind).mpr isSegment)
  grows := (takes.grows.imp fun part holds => Or.inl (segments part holds)).trans takes.guided.size inside
    collects.guided collects.grows

theorem Collects.trans (first : Collects owner before mid) (inside : owner < before.size)
    (second : Collects owner mid after) : Collects owner before after where
  guided := first.guided.again second.guided (by simpa using inside)
  modifiers := second.modifiers.trans first.modifiers
  operand isOperand := second.operand (first.operand isOperand)
  collecting := second.collecting
  keeps part isSegment := second.keeps part (first.keeps part isSegment)
  grows := (first.grows.imp fun part isSegment => Or.inl (second.keeps part isSegment)).trans
    first.guided.size inside second.guided second.grows

theorem Collecting.refl (collecting : Collecting forest owner) (neat : forest.Neat) :
    Collects owner forest forest :=
  ⟨.refl neat _, rfl, fun isOperand => isOperand, collecting, fun _ isSegment => isSegment, grows_of_parts rfl⟩

theorem Collecting.collects (collecting : Collecting before owner)
    (takes : Receives owner (fun _ => False) before after) : Collects owner before after :=
  ((collecting.receives takes).refl takes.guided.neat).behind collecting.inside takes
    fun _ never => never.elim

/-- What is noted of a statement or a token, with the statements that are new by that. -/
structure Noting (change : ItemKind → ItemKind) (statements : List ItemId) : Prop where
  isStage : ∀ kind, isStatementList kind = true → kind.isStageOf (change kind) = true
  isList : ∀ kind, isStatementList kind = true → isStatementList (change kind) = true
  isOperand : ∀ kind, isStatementList kind = true → (change kind).isOperand = kind.isOperand
  segments : ∀ kind, isStatementList kind = true →
    (change kind).segments = kind.segments ++ statements

theorem noting_statement (item : ItemId) : Noting (noteStatement item) [item] := by
  constructor <;> intro kind isList <;> cases kind <;> first | rfl | cases isList

theorem noting_separator (token : ItemId) : Noting (noteSeparator token) [] := by
  constructor <;> intro kind isList <;> cases kind <;>
    first | rfl | exact (List.append_nil _).symm | cases isList

theorem noting_blockEnd (token : ItemId) : Noting (noteBlockEnd token) [] := by
  constructor <;> intro kind isList <;> cases kind <;>
    first | rfl | exact (List.append_nil _).symm | cases isList

theorem ends_changeKind_collects {change : ItemKind → ItemKind} {statements : List ItemId}
    (notes : Noting change statements) (neat : s.forest.Neat) (collecting : Collecting s.forest owner)
    (routed : ∀ item ∈ statements, s.forest.RoutedFrom (owner + 1) [] item) :
    Ends (changeKind owner change) s
      (fun _ t => Collects owner s.forest t.forest ∧ ∀ item ∈ statements, t.forest.IsSegment owner item)
      fun _ _ => True := by
  obtain ⟨kind, isKind, isList, before⟩ := collecting
  have guided := guided_changeKind neat isKind (notes.isStage kind isList)
  have changed : (s.forest.modify owner fun item => { item with kind := change item.kind }).kind? owner =
      some (change kind) := by rw [kind_changeKind, if_pos rfl, isKind, Option.map_some]
  have segments := notes.segments kind isList
  refine ends_ok rfl ⟨⟨guided, modifiers_changeKind, ?_, ⟨_, changed, notes.isList kind isList, ?_⟩, ?_,
    grows_of_parts parts_changeKind⟩, fun item member => ⟨_, changed, ?_⟩⟩
  · rintro ⟨other, isOther, isOperand⟩
    obtain rfl := Option.some.inj (isKind.symm.trans isOther)
    exact ⟨_, changed, (notes.isOperand kind isList).trans isOperand⟩
  · intro item member
    rw [segments, List.mem_append] at member
    exact (member.elim (before item) (routed item)).beside guided
  · rintro part ⟨other, isOther, member⟩
    obtain rfl := Option.some.inj (isKind.symm.trans isOther)
    exact ⟨_, changed, segments ▸ List.mem_append_left _ member⟩
  · exact segments ▸ List.mem_append_right _ member

theorem ends_addStatement_collects {item : ItemId} (neat : s.forest.Neat)
    (collecting : Collecting s.forest owner) (routed : s.forest.RoutedFrom (owner + 1) [] item) :
    Ends (addStatement owner item) s (fun _ t => Collects owner s.forest t.forest)
      fun _ _ => True := by
  refine (ends_attach_receives neat (Or.inl rfl) fun _ => routed.not_keyword).bind ?_ fun _ _ _ => trivial
  intro _ t takes
  refine (ends_changeKind_collects (noting_statement item) takes.guided.neat (collecting.receives takes)
    ?_).imp ?_ fun _ _ _ => trivial
  · intro other isItem
    obtain rfl := List.mem_singleton.mp isItem
    exact routed.beside takes.guided
  · rintro _ u ⟨noted, isSegment⟩
    exact noted.behind collecting.inside takes fun part isItem => isSegment part (isItem ▸ List.mem_singleton_self _)

/-- A token is taken, and noted. -/
theorem ends_noteToken_bind {β : Type} {kind : TokenKind} {word : String} {start : Nat}
    {change : ItemId → ItemKind → ItemKind} {next : Parse β} {ok : β → ParseState → Prop}
    (neat : s.forest.Neat) (collecting : Collecting s.forest owner)
    (other : ∀ keyword, kind ≠ .keyword keyword) (notes : ∀ token, Noting (change token) [])
    (rest : ∀ t, Collects owner s.forest t.forest → Ends next t ok fun _ _ => True) :
    Ends (createToken kind word start >>= fun token => addRegular owner token >>= fun _ =>
      changeKind owner (change token) >>= fun _ => next) s ok fun _ _ => True := by
  refine ends_takesToken_bind (P := fun _ => False) neat collecting.inside other fun token t takes => ?_
  refine (ends_changeKind_collects (notes token) takes.guided.neat (collecting.receives takes)
    (by rintro _ ⟨⟩)).bind ?_ fun _ _ _ => trivial
  exact fun _ u noted => rest u (noted.1.behind collecting.inside takes fun _ never => never.elim)

theorem ends_addSeparator_collects {place : Nat} (neat : s.forest.Neat)
    (collecting : Collecting s.forest owner) :
    Ends (addSeparator owner place) s (fun _ t => Collects owner s.forest t.forest)
      fun _ _ => True := by
  unfold addSeparator
  simp only [ends_slice_bind]
  exact ends_noteToken_bind neat collecting (by rintro _ ⟨⟩) noting_separator fun t collects =>
    ends_ok rfl collects

/-- A statement that is parsed inside of a list, and added to it. -/
theorem ends_collectsInner {context : Context} (guides : InnerGuides inner) (neat : s.forest.Neat)
    (collecting : Collecting s.forest owner) :
    Ends (inner context) s (fun segment t =>
        Ends (segment.item.forM (addStatement owner)) t (fun _ u => Collects owner s.forest u.forest)
          fun _ _ => True) fun _ _ => True := by
  refine (guides context s neat).imp ?_ fun _ _ _ => trivial
  rintro segment t ⟨guided, routed⟩
  have started := collecting.collects (.of_guided guided collecting.inside)
  cases isItem : segment.item with
  | none => exact ends_pure started
  | some item =>
      have routedHere : t.forest.RoutedFrom (owner + 1) [] item :=
        (routed item isItem).loosen collecting.inside (by simp)
      refine (ends_addStatement_collects guided.neat started.collecting routedHere).imp ?_
        fun _ _ _ => trivial
      exact fun _ u added => started.trans collecting.inside added

end Collecting

theorem ends_blockStatements_collects (guides : InnerGuides inner) {block : ItemId} {markers : MarkerPair}
    {blockStart : Nat} (passes : Nat) : ∀ {s : ParseState}, s.forest.Neat → Collecting s.forest block →
      Ends (blockStatements grammar inner block markers blockStart passes) s
        (fun _ t => Collects block s.forest t.forest) fun _ _ => True := by
  induction passes with
  | zero => intros; exact ends_error rfl trivial
  | succ passes ih =>
      intro s neat collecting
      unfold blockStatements
      simp only [ends_position_bind]
      refine (ends_collectsInner guides neat collecting).bind ?_ fun _ _ _ => trivial
      intro segment t added
      refine added.bind ?_ fun _ _ _ => trivial
      intro _ u added
      refine Ends.bind ends_skipGap ?_ fun _ _ never => never.elim
      rintro _ v ⟨same, _⟩
      rw [← same] at added
      have again : ∀ {w : ParseState}, Collects block s.forest w.forest →
          Ends (blockStatements grammar inner block markers blockStart passes) w
            (fun _ t => Collects block s.forest t.forest) fun _ _ => True := fun collects =>
        (ih collects.guided.neat collects.collecting).imp
          (fun _ _ more => collects.trans collecting.inside more) fun _ _ _ => trivial
      simp only [ends_position_bind, ends_current_bind]
      split
      · exact ends_ok rfl added
      · simp only [ends_text_bind]
        split
        · simp only [ends_slice_bind]
          refine ends_noteToken_bind added.guided.neat added.collecting (by rintro _ ⟨⟩) noting_blockEnd
            fun w collects => ?_
          exact ends_ok rfl (added.trans collecting.inside collects)
        · split
          · refine (ends_addSeparator_collects added.guided.neat added.collecting).bind ?_
              fun _ _ _ => trivial
            exact fun _ w collects => again (added.trans collecting.inside collects)
          · split
            · exact again added
            · split
              · exact ends_bind (ends_ok rfl (again added))
              · split
                · exact ends_error rfl trivial
                · exact again added

theorem gives_codeBlock (guides : InnerGuides inner) (neat : s.forest.Neat) :
    Ends (codeBlock grammar inner) s (fun item t => Gives s.forest t.forest item) fun _ _ => True := by
  unfold codeBlock
  simp only [ends_position_bind]
  split
  · exact ends_error rfl trivial
  · rename_i markers _
    simp only [ends_slice_bind]
    refine (ends_createToken_guided neat).bind ?_ fun _ _ _ => trivial
    rintro token t ⟨guided, isToken, bareToken⟩
    refine ends_create_begun fun u begun => ?_
    have tokenInside : token < t.forest.size := lt_size_of_kind isToken
    have stillToken := (begun.kind_old tokenInside).trans isToken
    refine (ends_attach_receives (begun.neat guided.neat) (Or.inl rfl) fun _ =>
      not_keyword_of_token stillToken (by rintro _ ⟨⟩)).bind ?_ fun _ _ _ => trivial
    intro _ v takes
    refine ends_bind (ends_ok rfl ?_)
    simp only [ends_remaining_bind]
    have fresh : Collecting u.forest t.forest.size := ⟨_, begun.kind_new, rfl, by rintro _ ⟨⟩⟩
    refine (ends_blockStatements_collects guides _ (s := { v with
      cursor := v.cursor.skip markers.start.length }) takes.guided.neat
      (fresh.receives takes)).bind ?_ fun _ _ _ => trivial
    intro _ w collects
    have whole := takes.guided.again collects.guided (by simpa using begun.inside)
    have operand := collects.operand ⟨_, takes.kind.trans begun.kind_new, rfl⟩
    have grows : Grows t.forest.size (fun part => part = token ∨ w.forest.IsSegment t.forest.size part)
        u.forest w.forest :=
      (takes.grows.imp fun _ isToken => Or.inl (Or.inl isToken)).trans takes.guided.size begun.inside
        collects.guided (collects.grows.imp fun _ isSegment => Or.inl (Or.inr isSegment))
    refine ends_pure ⟨guided.made begun rfl rfl whole operand ?_ fun part member => ?_, operand,
      collects.modifiers.trans (takes.modifiers.trans begun.bare)⟩
    · obtain ⟨kind, isKind, _, routed⟩ := collects.collecting
      rintro item ⟨other, isOther, member⟩
      obtain rfl := Option.some.inj (isKind.symm.trans isOther)
      exact routed item member
    · rcases grows part member with old | (rfl | isSegment) | aside
      · rw [begun.noParts] at old
        cases old
      · have new := guided.new part (List.mem_singleton_self part)
        have same := (whole.modifiers (Nat.lt_trans new.2 begun.inside) (by simpa using Nat.ne_of_lt new.2)).trans
          (begun.same new.2).modifiers
        exact Or.inr ⟨new.1, Nat.lt_of_lt_of_le (Nat.lt_trans new.2 begun.inside) whole.size,
          by simpa using Nat.ne_of_lt new.2, same.trans bareToken⟩
      · exact Or.inl isSegment
      · exact Or.inr (aside.beside begun guided.size)

end ExprLang.Parse
