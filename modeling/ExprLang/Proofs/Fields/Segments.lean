import ExprLang.Proofs.Fields.Extensions
import ExprLang.Proofs.Fields.Operators
import ExprLang.Proofs.Parse.Segments

/-!
Segments fill the forest, at every depth. Prefixes, keywords and postfixes go to sections that no
field tells of, so what takes them need not be looked at again. The operands of a segment are no
tokens, which is what its operators, and the construct around it, rely on.
-/

namespace ExprLang

open Forest (Filled)

/-- The items of a draft that are read as operands. -/
def Draft.operands (draft : Draft) : List ItemId := draft.terms.filterMap Term.operand?

/-- The item that is found as an operand. -/
def Found.operands : Found → List ItemId
  | .operand item => [item]
  | _ => []

theorem Draft.operands_addTerm (draft : Draft) (term : Term) :
    (draft.addTerm term).operands = draft.operands ++ term.operand?.toList := by
  simp only [operands, addTerm, List.filterMap_append]
  cases found : term.operand? <;> simp [found]

/-- A term that is no operand. -/
theorem Draft.operands_addOther {draft : Draft} {term : Term} {known : List ItemId}
    (other : term.operand? = none) (operands : draft.operands ⊆ known) :
    (draft.addTerm term).operands ⊆ known := by
  rw [operands_addTerm, other]
  exact List.append_subset.mpr ⟨operands, List.nil_subset _⟩

namespace Parse

variable {grammar : Grammar} {inner : Inner} {known : List ItemId}

theorem fills_keywordRun (reportRepeats : Bool) (passes : Nat) : ∀ keywords,
    Fills known (fun _ => []) (keywordRun grammar reportRepeats passes keywords) := by
  induction passes with
  | zero => exact fun _ => fills_pure (List.nil_subset _)
  | succ passes ih =>
      intro keywords
      unfold keywordRun
      refine fills_bind fills_skipGap fun _ => ?_
      refine fills_bind fills_position fun start => ?_
      refine fills_bind fills_text fun text => ?_
      split
      · exact fills_pure (List.nil_subset _)
      · refine fills_bind fills_slice fun written => ?_
        refine fills_bind fills_skip fun _ => ?_
        refine fills_bind fills_forest fun forest => ?_
        split
        · cases reportRepeats with
          | true => exact fills_bind fills_report fun _ => fills_pure (List.nil_subset _)
          | false => exact fills_pure (List.nil_subset _)
        · exact fills_bind fills_createToken fun token => ih _

theorem fills_attachModifiers (owner : ItemId) (modifiers : Modifiers) :
    Fills known (fun _ => []) (attachModifiers owner modifiers) :=
  fills_bind (fills_forM fun _ _ => fills_addPrefix) fun _ => fills_forM fun _ _ => fills_addKeyword

theorem fills_misplaced (modifiers : Modifiers) :
    Fills known (fun id => [id]) (misplaced modifiers) := by
  refine fills_bind fills_forest fun _ => ?_
  refine fills_bind fills_report fun _ => ?_
  refine fills_made (fun _ _ _ => trivial) rfl fun series => ?_
  exact adds_bind (adds_of_fills (fills_attachModifiers series modifiers)) fun _ _ => adds_pure rfl

theorem fills_operandFollows : Fills known (fun _ => []) (operandFollows grammar) :=
  fills_bind fills_get fun _ => fills_pure (List.nil_subset _)

theorem fills_modifiers (fills : InnerFills inner) (passes : Nat) : ∀ pending,
    Fills known (fun read => read.2.toList) (modifiers grammar inner passes pending) := by
  induction passes generalizing known with
  | zero => exact fun _ => fills_pure (List.nil_subset _)
  | succ passes ih =>
      intro pending
      unfold modifiers
      refine fills_bind fills_skipGap fun _ => ?_
      refine fills_bind fills_text fun text => ?_
      refine fills_bind fills_position fun place => ?_
      split
      · refine fills_bind (fills_braces fills none) fun item => ?_
        refine fills_bind fills_operandFollows fun follows => ?_
        cases follows with
        | true => exact ih _
        | false => exact fills_pure (by simp)
      · split
        · refine fills_bind fills_remaining fun _ => ?_
          refine fills_bind (fills_keywordRun _ _ _) fun keywords => ?_
          split
          · exact ih _
          · exact fills_pure (List.nil_subset _)
        · exact fills_pure (List.nil_subset _)

theorem fills_placeCustom {item : ItemId} (isKnown : item ∈ known) :
    Fills known Found.operands (placeCustom grammar item) := by
  refine fills_bind fills_forest fun forest => ?_
  dsimp only
  split
  · exact fills_pure (by simpa [Found.operands] using isKnown)
  · split
    · exact fills_pure (List.nil_subset _)
    · exact fills_bind fills_report fun _ => fills_pure (List.nil_subset _)
  · exact fills_bind fills_report fun _ => fills_pure (List.nil_subset _)

theorem fills_asOperand {step : Parse ItemId} (fills : Fills known (fun id => [id]) step) :
    Fills known Found.operands (do return .operand (← step)) :=
  fills_bind fills fun item => fills_pure (by simp [Found.operands])

theorem fills_plainOperand (fills : InnerFills inner) (terms : List Term) :
    Fills known Found.operands (plainOperand grammar inner terms) := by
  refine fills_bind fills_position fun place => ?_
  refine fills_bind fills_text fun text => ?_
  split
  · exact fills_pure (List.nil_subset _)
  · split
    · exact fills_pure (List.nil_subset _)
    · rename_i c _
      split
      · exact fills_asOperand (fills_textConstant c)
      · split
        · exact fills_asOperand (fills_number _)
        · split
          · exact fills_asOperand (fills_braces fills none)
          · split
            · exact fills_asOperand (fills_codeBlock fills)
            · split
              · exact fills_bind fills_moveTo fun _ => fills_pure (List.nil_subset _)
              · refine fills_bind (fills_literal fills) fun found => ?_
                split
                · exact fills_pure (by simp [Found.operands])
                · exact fills_stop

section

variable (contained : InnerContained inner) (fills : InnerFills inner)

include contained fills

theorem fills_operand (draft : Draft) :
    Fills known (fun read => read.1.operands) (operand grammar inner draft) := by
  refine fills_bind fills_skipGap fun _ => ?_
  refine fills_bind (fills_custom contained fills _ _) fun found => ?_
  split
  · refine fills_bind (fills_placeCustom (by simp)) fun found => ?_
    exact fills_pure (List.subset_append_left _ _)
  · refine fills_bind (fills_plainOperand fills _) fun found => ?_
    exact fills_pure (List.subset_append_left _ _)

/-! Postfixes -/

theorem fills_triggeredBehind :
    Fills known (fun found => found.toList) (triggeredBehind? grammar inner) := by
  refine fills_bind fills_remaining fun _ => ?_
  refine fills_bind (fills_keywordRun _ _ _) fun keywords => ?_
  split
  · exact fills_pure (List.nil_subset _)
  · refine fills_bind (fills_keywordId _) fun found => ?_
    split
    · exact fills_pure (List.nil_subset _)
    · split
      · exact fills_pure (List.nil_subset _)
      · exact fills_custom contained fills _ _

/-- Going back gives back the forest of before. -/
theorem fills_customPostfix :
    Fills known (fun found => found.toList) (customPostfix? grammar inner) := by
  unfold customPostfix?
  split
  · exact fills_pure (List.nil_subset _)
  · intro s closed complex
    simp only [ends_get_bind]
    have tried := (@contained_triggeredBehind _ grammar _ contained s closed.at_size).and
      (fills_triggeredBehind contained fills s closed complex)
    refine Ends.bind tried ?_ fun _ _ _ => trivial
    intro found t reached
    obtain ⟨⟨_, above, _⟩, complexFound, filled⟩ := reached
    have undone : Ends (rollBack s >>= fun _ => pure none) t
        (fun found u => (∀ id ∈ found.toList, u.forest.IsComplex id) ∧
          Filled [] s.forest u.forest) fun _ _ => True := by
      refine ends_bind (ends_ok rfl (ends_pure ⟨by simp, ?_⟩))
      change Filled [] s.forest (t.forest.truncate s.forest.size)
      rw [above.untouched.truncate above.holds closed (above.closed closed)]
      exact Forest.filled_refl closed (by simp)
    cases found with
    | none => exact undone
    | some item =>
        simp only [ends_forest_bind]
        split
        · exact ends_pure ⟨complexFound, filled⟩
        · exact undone

omit contained fills in
theorem fills_attachPostfix {target postfixed : ItemId} :
    Fills known (fun _ => []) (attachPostfix target postfixed) := by
  refine fills_bind fills_forest fun forest => ?_
  split
  · exact fills_bind fills_addPostfix fun _ => fills_pure (List.nil_subset _)
  · exact fills_bind fills_report fun _ => fills_pure (List.nil_subset _)

theorem fills_postfixes (context : Context) (target : ItemId) (passes : Nat) :
    Fills known (fun _ => []) (postfixes grammar inner context target passes) := by
  induction passes generalizing known with
  | zero => exact fills_pure (List.nil_subset _)
  | succ passes ih =>
      unfold postfixes
      refine fills_bind fills_skipGap fun _ => ?_
      refine fills_bind fills_text fun text => ?_
      refine fills_bind fills_position fun place => ?_
      split
      · refine fills_bind (fills_codeBlock fills) fun block => ?_
        refine fills_bind fills_attachPostfix fun accepted => ?_
        split
        · exact fills_pure (List.nil_subset _)
        · split
          · exact fills_pure (List.nil_subset _)
          · exact ih
      · refine fills_bind (fills_customPostfix contained fills) fun found => ?_
        split
        · exact fills_pure (List.nil_subset _)
        · refine fills_bind fills_attachPostfix fun accepted => ?_
          split
          · exact ih
          · exact fills_pure (List.nil_subset _)

/-! Passes -/

omit contained fills in
theorem fills_settlePending {draft : Draft} (operands : draft.operands ⊆ known) :
    Fills known Draft.operands (settlePending draft) := by
  unfold settlePending
  split
  · exact fills_pure operands
  · split
    · exact fills_pure operands
    · refine fills_bind (fills_misplaced _) fun stray => fills_pure ?_
      exact Draft.operands_addOther rfl fun id member => List.mem_cons_of_mem stray (operands member)

omit contained fills in
theorem fills_modifyOperand {draft : Draft} {item : ItemId} (operands : draft.operands ⊆ known) :
    Fills known Draft.operands (modifyOperand draft item) := by
  unfold modifyOperand
  split
  · exact fills_pure operands
  · exact fills_bind (fills_attachModifiers item _) fun _ => fills_pure operands

omit contained fills in
theorem fills_behindPostfixes {draft : Draft} (operands : draft.operands ⊆ known) (closedByBlock : Bool) :
    Fills known (fun read => read.1.operands) (behindPostfixes grammar draft closedByBlock) := by
  unfold behindPostfixes
  split
  · exact fills_pure operands
  · refine fills_bind fills_skipGap fun _ => ?_
    refine fills_bind fills_position fun place => ?_
    refine fills_bind fills_text fun text => ?_
    split
    · exact fills_pure operands
    · split
      · exact fills_pure operands
      · refine fills_bind fills_moveTo fun _ => fills_pure ?_
        exact Draft.operands_addOther rfl operands

theorem fills_afterOperand (context : Context) {draft : Draft} {item : ItemId}
    (operands : draft.operands ⊆ known) (isKnown : item ∈ known) :
    Fills known (fun read => read.1.operands) (afterOperand grammar inner context draft item) := by
  rw [afterOperand_eq]
  refine fills_bind (fills_modifyOperand operands) fun draft => ?_
  refine fills_bind fills_remaining fun _ => ?_
  refine fills_bind (fills_postfixes contained fills context item _) fun run => ?_
  have taken : (draft.addTerm (.operand item)).operands ⊆ draft.operands ++ known := by
    rw [Draft.operands_addTerm]
    refine List.append_subset.mpr ⟨List.subset_append_left _ _, ?_⟩
    simpa [Term.operand?] using Or.inr isKnown
  refine fills_behindPostfixes ?_ _
  cases run.rejected with
  | none => exact taken
  | some rejected => exact Draft.operands_addOther rfl taken

theorem fills_pass (context : Context) {draft : Draft} (operands : draft.operands ⊆ known) :
    Fills known (fun read => read.1.operands) (pass grammar inner context draft) := by
  refine fills_bind fills_remaining fun _ => ?_
  refine fills_bind (fills_modifiers fills _ _) fun read => ?_
  obtain ⟨pending, item⟩ := read
  have still : ∀ {more : List ItemId}, draft.operands ⊆ more ++ known := fun {_} =>
    fun _ member => List.mem_append_right _ (operands member)
  cases item with
  | some item => exact fills_afterOperand contained fills context still (by simp)
  | none =>
      refine fills_bind (fills_operand contained fills _) fun read => ?_
      obtain ⟨found, pending⟩ := read
      cases found with
      | operand item => exact fills_afterOperand contained fills context still (by simp [Found.operands])
      | operators written =>
          refine fills_bind (fills_settlePending still) fun draft => fills_pure ?_
          exact Draft.operands_addOther rfl (List.subset_append_left _ _)
      | stray item =>
          dsimp only
          split
          · exact fills_pure (Draft.operands_addOther rfl still)
          · refine fills_bind (fills_misplaced _) fun stray => fills_pure ?_
            refine Draft.operands_addOther rfl (Draft.operands_addOther rfl ?_)
            exact fun id member => List.mem_cons_of_mem stray (still member)
      | prefixed item => exact fills_pure still
      | nothing => exact fills_pure still

theorem fills_passes (context : Context) (count : Nat) : ∀ {known : List ItemId} {draft : Draft},
    draft.operands ⊆ known →
      Fills known (fun read => read.1.operands) (passes grammar inner context count draft) := by
  induction count with
  | zero => intros; exact fills_stuckHere
  | succ count ih =>
      intro known draft operands
      refine fills_bind (fills_pass contained fills context operands) fun read => ?_
      obtain ⟨draft, progress⟩ := read
      cases progress with
      | again => exact ih (List.subset_append_left _ _)
      | done closedByBlock => exact fills_pure (List.subset_append_left _ _)

theorem fills_segmentWith (context : Context) :
    Fills [] (·.item.toList) (segmentWith grammar inner context) := by
  refine fills_bind fills_remaining fun _ => ?_
  refine fills_bind (fills_passes contained fills context _ (by simp [Draft.operands])) fun read => ?_
  obtain ⟨draft, closedByBlock⟩ := read
  refine fills_bind (fills_settlePending (List.subset_append_left _ _)) fun draft => ?_
  refine fills_bind (fills_resolve (List.subset_append_left _ _)) fun found => ?_
  split
  · refine fills_bind (fills_attachModifiers _ _) fun _ => fills_pure ?_
    exact List.subset_append_left _ _
  · split
    · exact fills_pure (List.nil_subset _)
    · exact fills_bind (fills_misplaced _) fun series => fills_pure (by simp)

end

theorem fills_segment (grammar : Grammar) (depth : Nat) : InnerFills (segment grammar depth) := by
  induction depth with
  | zero => exact fun _ => fills_stuckHere
  | succ depth ih => exact fun context => fills_segmentWith (contained_segment grammar depth) ih context

end Parse

end ExprLang
