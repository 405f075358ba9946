import ExprLang.Proofs.Parse.Extensions

/-!
Segments keep to the rules of the steps they are made of. The one step that takes something back is
the attempt at a postfix: it goes back to the state it began in, and since it has not stopped it has
no critical fault to drop.
-/

namespace ExprLang

open Forest (Floor Untouched)

/-- What is found as an operand lies above the floor. -/
def Found.OperandAbove (floor : Nat) (found : Found) : Prop :=
  ∀ item, found = .operand item → floor ≤ item

/-- The operands of a draft lie above the floor. -/
def Draft.Above (floor : Nat) (draft : Draft) : Prop :=
  ∀ item, Term.operand item ∈ draft.terms → floor ≤ item

theorem Draft.above_addTerm {floor : Nat} (draft : Draft) {term : Term} (above : draft.Above floor)
    (new : ∀ item, term = .operand item → floor ≤ item) : (draft.addTerm term).Above floor := by
  intro item member
  rcases List.mem_append.mp member with old | added
  · exact above item old
  · exact new item (List.mem_singleton.mp added).symm

namespace Parse

variable {floor : Nat} {grammar : Grammar} {inner : Inner}

theorem contained_keywordRun (reportRepeats : Bool) (passes : Nat) : ∀ keywords,
    Contained floor (fun _ => True) (keywordRun grammar reportRepeats passes keywords) := by
  induction passes with
  | zero => exact fun _ => contained_pure trivial
  | succ passes ih =>
      intro keywords
      unfold keywordRun
      refine contained_bind contained_skipGap fun _ _ => ?_
      refine contained_bind contained_position fun start _ => ?_
      refine contained_bind contained_text fun text _ => ?_
      split
      · exact contained_pure trivial
      · refine contained_bind contained_slice fun written _ => ?_
        refine contained_bind contained_skip fun _ _ => ?_
        refine contained_bind contained_forest fun forest _ => ?_
        split
        · cases reportRepeats with
          | true => exact contained_bind contained_report fun _ _ => contained_pure trivial
          | false => exact contained_pure trivial
        · exact contained_bind contained_createToken fun token _ => ih _

theorem contained_attachModifiers {owner : Nat} (above : floor ≤ owner) (modifiers : Modifiers) :
    Contained floor (fun _ => True) (attachModifiers owner modifiers) := by
  refine contained_bind (P := fun _ => True) ?_ fun _ _ => ?_
  · exact contained_forM fun _ _ => contained_addPrefix above
  · exact contained_forM fun _ _ => contained_addKeyword above

theorem contained_misplaced (modifiers : Modifiers) :
    Contained floor (fun id => floor ≤ id) (misplaced modifiers) := by
  refine contained_bind contained_forest fun _ _ => ?_
  refine contained_bind contained_report fun _ _ => ?_
  refine contained_bind contained_create fun series above => ?_
  exact contained_bind (contained_attachModifiers above modifiers) fun _ _ => contained_pure above

theorem contained_operandFollows : Contained floor (fun _ => True) (operandFollows grammar) :=
  contained_bind contained_get fun _ _ => contained_pure trivial

theorem contained_modifiers (inside : InnerContained inner) (passes : Nat) : ∀ pending,
    Contained floor (fun read => ∀ item ∈ read.2, floor ≤ item)
      (modifiers grammar inner passes pending) := by
  induction passes with
  | zero => exact fun _ => contained_pure (by simp)
  | succ passes ih =>
      intro pending
      unfold modifiers
      refine contained_bind contained_skipGap fun _ _ => ?_
      refine contained_bind contained_text fun text _ => ?_
      refine contained_bind contained_position fun place _ => ?_
      split
      · refine contained_bind (contained_braces inside none) fun item above => ?_
        refine contained_bind contained_operandFollows fun follows _ => ?_
        cases follows with
        | true => exact ih _
        | false => exact contained_pure (by simpa using above)
      · split
        · refine contained_bind contained_remaining fun _ _ => ?_
          refine contained_bind (contained_keywordRun _ _ _) fun keywords _ => ?_
          split
          · exact ih _
          · exact contained_pure (by simp)
        · exact contained_pure (by simp)

theorem contained_placeCustom {item : Nat} (above : floor ≤ item) :
    Contained floor (Found.OperandAbove floor) (placeCustom grammar item) := by
  refine contained_bind contained_forest fun forest _ => ?_
  dsimp only
  split
  · exact contained_pure (by rintro _ ⟨⟩; exact above)
  · split
    · exact contained_pure (by simp [Found.OperandAbove])
    · refine contained_bind contained_report fun _ _ => ?_
      exact contained_pure (by simp [Found.OperandAbove])
  · refine contained_bind contained_report fun _ _ => ?_
    exact contained_pure (by simp [Found.OperandAbove])

theorem contained_asOperand {step : Parse ItemId} (contained : Contained floor (fun id => floor ≤ id) step) :
    Contained floor (Found.OperandAbove floor) (do return .operand (← step)) :=
  contained_bind contained fun item above => contained_pure (by rintro _ ⟨⟩; exact above)

theorem contained_plainOperand (inside : InnerContained inner) (terms : List Term) :
    Contained floor (Found.OperandAbove floor) (plainOperand grammar inner terms) := by
  refine contained_bind contained_position fun place _ => ?_
  refine contained_bind contained_text fun text _ => ?_
  split
  · exact contained_pure (by simp [Found.OperandAbove])
  · split
    · exact contained_pure (by simp [Found.OperandAbove])
    · rename_i c _
      split
      · exact contained_asOperand (contained_textConstant grammar c)
      · split
        · exact contained_asOperand (contained_number _)
        · split
          · exact contained_asOperand (contained_braces inside none)
          · split
            · exact contained_asOperand (contained_codeBlock inside)
            · split
              · refine contained_bind contained_moveTo fun _ _ => ?_
                exact contained_pure (by simp [Found.OperandAbove])
              · refine contained_bind (contained_literal inside) fun found above => ?_
                split
                · exact contained_pure (by rintro _ ⟨⟩; exact above _ rfl)
                · exact contained_stop

theorem contained_operand (inside : InnerContained inner) (draft : Draft) :
    Contained floor (fun read => read.1.OperandAbove floor) (operand grammar inner draft) := by
  refine contained_bind contained_skipGap fun _ _ => ?_
  refine contained_bind (contained_custom inside _ _) fun found above => ?_
  split
  · refine contained_bind (contained_placeCustom (above _ rfl)) fun found known => ?_
    exact contained_pure known
  · refine contained_bind (contained_plainOperand inside _) fun found known => ?_
    exact contained_pure known

/-! Postfixes -/

theorem contained_triggeredBehind (inside : InnerContained inner) :
    Contained floor (fun found => ∀ item ∈ found, floor ≤ item)
      (triggeredBehind? grammar inner) := by
  refine contained_bind contained_remaining fun _ _ => ?_
  refine contained_bind (contained_keywordRun _ _ _) fun keywords _ => ?_
  split
  · exact contained_pure (by simp)
  · refine contained_bind (contained_keywordId _) fun found _ => ?_
    split
    · exact contained_pure (by simp)
    · split
      · exact contained_pure (by simp)
      · exact contained_custom inside _ _

/-- Going back takes back what was added since, and none of that is critical. -/
theorem ends_rollBack {s t : ParseState} (holds : Floor floor s.forest) (above : Above floor s t)
    (calm : Calm s t) : Ends (rollBack s) t (fun _ u => Above floor s u ∧ Calm s u)
      (fun _ _ => False) := by
  obtain ⟨added, eq, _⟩ := calm
  refine ends_ok rfl ⟨⟨?_, ?_, ?_, above.text, above.markers, fun _ => Nat.min_le_right _ _, ?_⟩,
    calm_of_eq ?_⟩
  · exact Forest.floor_truncate holds.size above.holds
  · exact above.untouched.trans (Forest.untouched_truncate holds.size above.holds)
  · exact fun closed => Forest.closed_truncate (above.closed closed)
  · exact above.heard.trans (Cursor.hears_of_same rfl rfl rfl)
  · simp [eq]

theorem contained_customPostfix (inside : InnerContained inner) :
    Contained floor (fun found => ∀ item ∈ found, floor ≤ item)
      (customPostfix? grammar inner) := by
  unfold customPostfix?
  split
  · exact contained_pure (by simp)
  · intro s holds
    simp only [ends_get_bind]
    refine Ends.bind (contained_triggeredBehind inside s holds) ?_ (fun _ _ stopped => stopped)
    rintro found t ⟨aboveItem, above, calm⟩
    have undone : Ends (rollBack s >>= fun _ => pure none) t
        (fun found u => (∀ item ∈ found, floor ≤ item) ∧ Above floor s u ∧ Calm s u)
        (fun _ u => Above floor s u ∧ Alarmed s u) := by
      refine Ends.bind (ends_rollBack holds above calm) ?_ (fun _ _ never => never.elim)
      exact fun _ u back => ends_pure ⟨by simp, back⟩
    cases found with
    | none => exact undone
    | some item =>
        simp only [ends_forest_bind]
        split
        · exact ends_pure ⟨aboveItem, above, calm⟩
        · exact undone

theorem contained_attachPostfix {target postfixed : Nat} (above : floor ≤ target) :
    Contained floor (fun _ => True) (attachPostfix target postfixed) := by
  refine contained_bind contained_forest fun forest _ => ?_
  split
  · exact contained_bind (contained_addPostfix above) fun _ _ => contained_pure trivial
  · exact contained_bind contained_report fun _ _ => contained_pure trivial

theorem contained_postfixes (inside : InnerContained inner) (context : Context) {target : Nat}
    (above : floor ≤ target) (passes : Nat) :
    Contained floor (fun _ => True) (postfixes grammar inner context target passes) := by
  induction passes with
  | zero => exact contained_pure trivial
  | succ passes ih =>
      unfold postfixes
      refine contained_bind contained_skipGap fun _ _ => ?_
      refine contained_bind contained_text fun text _ => ?_
      refine contained_bind contained_position fun place _ => ?_
      split
      · refine contained_bind (contained_codeBlock inside) fun block _ => ?_
        refine contained_bind (contained_attachPostfix above) fun accepted _ => ?_
        split
        · exact contained_pure trivial
        · split
          · exact contained_pure trivial
          · exact ih
      · refine contained_bind (contained_customPostfix inside) fun found _ => ?_
        split
        · exact contained_pure trivial
        · refine contained_bind (contained_attachPostfix above) fun accepted _ => ?_
          split
          · exact ih
          · exact contained_pure trivial

/-! Passes -/

theorem contained_settlePending {draft : Draft} (above : draft.Above floor) :
    Contained floor (Draft.Above floor) (settlePending draft) := by
  unfold settlePending
  split
  · exact contained_pure above
  · split
    · exact contained_pure above
    · refine contained_bind (contained_misplaced _) fun stray _ => contained_pure ?_
      exact Draft.above_addTerm { draft with pending := {} } above (by simp)

theorem contained_modifyOperand {draft : Draft} {item : Nat} (above : draft.Above floor)
    (aboveItem : floor ≤ item) : Contained floor (Draft.Above floor) (modifyOperand draft item) := by
  unfold modifyOperand
  split
  · exact contained_pure above
  · exact contained_bind (contained_attachModifiers aboveItem _) fun _ _ => contained_pure above

/-- The operand is a term now, and a postfix that it refused is another one. -/
def withOperand (draft : Draft) (id : ItemId) (rejected : Option ItemId) : Draft :=
  match rejected with
  | none => draft.addTerm (.operand id)
  | some rejected => (draft.addTerm (.operand id)).addTerm (.stray rejected)

/-- What `afterOperand` does behind the postfixes. -/
def behindPostfixes (grammar : Grammar) (draft : Draft) (closedByBlock : Bool) :
    Parse (Draft × Progress) := do
  if closedByBlock then return (draft, .done true)
  skipGap
  let place ← position
  let text ← Parse.text
  if grammar.isTerminatorAt text place then return (draft, .done false)
  match grammar.operatorAt? text place true with
  | none => return (draft, .again)
  | some written =>
      moveTo written.stop
      return (draft.addTerm (.operators written), .again)

theorem afterOperand_eq (context : Context) (draft : Draft) (item : ItemId) :
    afterOperand grammar inner context draft item = (do
      let draft ← modifyOperand draft item
      let run ← postfixes grammar inner context item ((← remaining) + 1)
      behindPostfixes grammar (withOperand draft item run.rejected) run.closedByBlock) := rfl

theorem contained_behindPostfixes {draft : Draft} (above : draft.Above floor) (closedByBlock : Bool) :
    Contained floor (fun read => read.1.Above floor) (behindPostfixes grammar draft closedByBlock) := by
  unfold behindPostfixes
  split
  · exact contained_pure above
  · refine contained_bind contained_skipGap fun _ _ => ?_
    refine contained_bind contained_position fun place _ => ?_
    refine contained_bind contained_text fun text _ => ?_
    split
    · exact contained_pure above
    · split
      · exact contained_pure above
      · refine contained_bind contained_moveTo fun _ _ => contained_pure ?_
        exact Draft.above_addTerm _ above (by simp)

theorem contained_afterOperand (inside : InnerContained inner) (context : Context) (draft : Draft)
    {item : Nat} (above : draft.Above floor) (aboveItem : floor ≤ item) :
    Contained floor (fun read => read.1.Above floor)
      (afterOperand grammar inner context draft item) := by
  rw [afterOperand_eq]
  refine contained_bind (contained_modifyOperand above aboveItem) fun draft above => ?_
  refine contained_bind contained_remaining fun _ _ => ?_
  refine contained_bind (contained_postfixes inside context aboveItem _) fun run _ => ?_
  have taken : (draft.addTerm (.operand item)).Above floor :=
    Draft.above_addTerm _ above (by rintro _ ⟨⟩; exact aboveItem)
  refine contained_behindPostfixes ?_ _
  cases run.rejected with
  | none => exact taken
  | some rejected => exact Draft.above_addTerm _ taken (by simp)

theorem contained_pass (inside : InnerContained inner) (context : Context) {draft : Draft}
    (above : draft.Above floor) :
    Contained floor (fun read => read.1.Above floor) (pass grammar inner context draft) := by
  refine contained_bind contained_remaining fun _ _ => ?_
  refine contained_bind (contained_modifiers inside _ _) fun read aboveItem => ?_
  obtain ⟨pending, item⟩ := read
  cases item with
  | some item =>
      exact contained_afterOperand inside context { draft with pending } above
        (aboveItem item rfl)
  | none =>
      refine contained_bind (contained_operand inside _) fun read known => ?_
      obtain ⟨found, pending⟩ := read
      have same : ({ draft with pending } : Draft).Above floor := above
      cases found with
      | operand item => exact contained_afterOperand inside context _ same (known item rfl)
      | operators written =>
          refine contained_bind (contained_settlePending same) fun draft above => ?_
          exact contained_pure (Draft.above_addTerm _ above (by simp))
      | stray item =>
          dsimp only
          split
          · exact contained_pure (Draft.above_addTerm _ same (by simp))
          · refine contained_bind (contained_misplaced _) fun stray _ => contained_pure ?_
            refine Draft.above_addTerm _ (Draft.above_addTerm _ ?_ (by simp)) (by simp)
            exact above
      | prefixed item => exact contained_pure above
      | nothing => exact contained_pure same

theorem contained_passes (inside : InnerContained inner) (context : Context) (count : Nat) :
    ∀ draft : Draft, draft.Above floor →
      Contained floor (fun read => read.1.Above floor) (passes grammar inner context count draft) := by
  induction count with
  | zero => exact fun _ _ => contained_stuckHere
  | succ count ih =>
      intro draft above
      refine contained_bind (contained_pass inside context above) fun read above => ?_
      obtain ⟨draft, progress⟩ := read
      cases progress with
      | again => exact ih draft above
      | done closedByBlock => exact contained_pure above

theorem contained_segmentWith (inside : InnerContained inner) (context : Context) :
    Contained floor (fun segment => ∀ item ∈ segment.item, floor ≤ item)
      (segmentWith grammar inner context) := by
  refine contained_bind contained_remaining fun _ _ => ?_
  refine contained_bind (contained_passes inside context _ {} (by simp [Draft.Above])) ?_
  rintro ⟨draft, closedByBlock⟩ above
  refine contained_bind (contained_settlePending above) fun draft above => ?_
  refine contained_bind (contained_resolve above) fun found aboveItem => ?_
  split
  · refine contained_bind (contained_attachModifiers (aboveItem _ rfl) _) fun _ _ => ?_
    exact contained_pure aboveItem
  · split
    · exact contained_pure (by simp)
    · refine contained_bind (contained_misplaced _) fun series above => ?_
      exact contained_pure (by simpa using above)

/-- A segment stops if and only if it records a critical fault, at every depth. -/
theorem contained_segment (grammar : Grammar) (depth : Nat) :
    InnerContained (segment grammar depth) := by
  induction depth with
  | zero => exact fun _ _ => contained_stuckHere
  | succ depth ih => exact fun _ context => contained_segmentWith ih context

end Parse

end ExprLang
