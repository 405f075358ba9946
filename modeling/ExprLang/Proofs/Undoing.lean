import ExprLang.Proofs.Stopping
import ExprLang.Proofs.WellFormed

/-!
Attempts at a postfix. Whatever keywords, segments and custom expressions such an attempt has read, and
whatever items its extensions name, it works above the floor that it starts from. So if it comes to
nothing, a cut at that floor gives back the whole forest. All that this asks of a state is that no item
names one that does not exist and that the cursor stands in the text, and every state of a parse is like
that.
-/

namespace ExprLang

open Forest (Closed)

/-- No item names one that does not exist, and the cursor stands in the text. -/
structure ParseState.Proper (s : ParseState) : Prop where
  closed : Closed s.forest
  inside : s.cursor.position ≤ s.cursor.text.size

/-- A step that leads from proper states to proper states, whether it gives a value or stops. -/
def KeepsProper {ε α : Type} (step : EStateM ε ParseState α) : Prop :=
  ∀ s : ParseState, s.Proper → Ends step s (fun _ t => t.Proper) (fun _ t => t.Proper)

theorem Above.proper {floor : Nat} {s t : ParseState} (above : Above floor s t) (proper : s.Proper) :
    t.Proper :=
  ⟨above.closed proper.closed, above.inside proper.inside⟩

theorem Contained.keepsProper {α : Type} {result : α → Prop} {step : Parse α}
    (contained : Contained 0 result step) : KeepsProper step := by
  intro s proper
  refine (contained s (Forest.floor_zero s.forest)).imp ?_ ?_
  · rintro value t ⟨_, above, _⟩
    exact above.proper proper
  · rintro _ t ⟨above, _⟩
    exact above.proper proper

theorem Wild.keepsProper {ε α : Type} {step : EStateM ε ParseState α} (wild : Wild 0 step) :
    KeepsProper step := by
  intro s proper
  refine (wild s (Forest.floor_zero s.forest)).imp ?_ ?_
  · rintro value t ⟨above, _⟩
    exact above.proper proper
  · rintro _ t ⟨above, _⟩
    exact above.proper proper

namespace Parse

variable {grammar : Grammar} {inner : Inner} {s t u : ParseState}

/-- Going back from where a step has worked above the items of `s`. -/
theorem undone_of_rollBack (proper : s.Proper) (above : Above s.forest.size s t)
    (logged : s.faults <+: t.faults) (back : rollBack s t = .ok () u) :
    u.cursor.position = s.cursor.position ∧ u.faults = s.faults ∧ u.forest = s.forest := by
  cases back
  refine ⟨?_, ?_, ?_⟩
  · change min s.cursor.position t.cursor.text.size = s.cursor.position
    rw [above.text]
    exact Nat.min_eq_left proper.inside
  · exact (List.prefix_iff_eq_take.mp logged).symm
  · exact above.untouched.truncate above.holds proper.closed (above.closed proper.closed)

theorem ends_customPostfix_undone (inside : InnerContained inner) (proper : s.Proper) :
    Ends (customPostfix? grammar inner) s
      (fun found t => found = none →
        t.cursor.position = s.cursor.position ∧ t.faults = s.faults ∧ t.forest = s.forest)
      (fun _ _ => True) := by
  unfold customPostfix?
  split
  · exact ends_pure fun _ => ⟨rfl, rfl, rfl⟩
  · simp only [ends_get_bind]
    have attempt := (contained_triggeredBehind inside : Contained s.forest.size _ (triggeredBehind? grammar _))
      s proper.closed.at_size
    refine Ends.bind attempt ?_ (fun _ _ _ => trivial)
    rintro found t ⟨_, above, calm⟩
    have undone : Ends (rollBack s >>= fun _ => pure (none : Option ItemId)) t
        (fun found u => found = none →
          u.cursor.position = s.cursor.position ∧ u.faults = s.faults ∧ u.forest = s.forest)
        (fun _ _ => True) := by
      refine ends_bind (ends_ok rfl (ends_pure fun _ => ?_))
      exact undone_of_rollBack proper above calm.logged rfl
    cases found with
    | none => exact undone
    | some item =>
        simp only [ends_forest_bind]
        split
        · exact ends_pure fun isNone => absurd isNone (Option.some_ne_none item)
        · exact undone

end Parse

namespace Grammar

/-- What a parse does on its way to an attempt at a postfix leads from proper states to proper ones. -/
structure StaysProper (grammar : Grammar) (inner : Inner) : Prop where
  root : ∀ passes, KeepsProper (Parse.rootStatements grammar inner 0 passes)
  segment : ∀ context, KeepsProper (inner context)
  pass : ∀ context draft, KeepsProper (Parse.pass grammar inner context draft)
  modifiers : ∀ passes pending, KeepsProper (Parse.modifiers grammar inner passes pending)
  operand : ∀ draft, KeepsProper (Parse.operand grammar inner draft)
  modifyOperand : ∀ draft item, KeepsProper (Parse.modifyOperand draft item)
  gap : KeepsProper Parse.skipGap
  codeBlock : KeepsProper (Parse.codeBlock grammar inner)
  attempt : KeepsProper (Parse.customPostfix? grammar inner)
  attachPostfix : ∀ target postfixed, KeepsProper (Parse.attachPostfix target postfixed)
  script : ∀ extension trigger parts steps,
    KeepsProper (Script.steps grammar inner extension trigger parts steps)

theorem proper_initialState (grammar : Grammar) (text : Text) : (grammar.initialState text).Proper :=
  ⟨grammar.closed_initialState text, Nat.zero_le _⟩

theorem staysProper (grammar : Grammar) {inner : Inner} (inside : Parse.InnerContained inner) :
    grammar.StaysProper inner where
  root passes := (Parse.contained_rootStatements inside (Nat.zero_le 0) passes).keepsProper
  segment context := (inside 0 context).keepsProper
  pass context _ := (Parse.contained_pass inside context fun item _ => Nat.zero_le item).keepsProper
  modifiers passes pending := (Parse.contained_modifiers inside passes pending).keepsProper
  operand draft := (Parse.contained_operand inside draft).keepsProper
  modifyOperand _ item :=
    (Parse.contained_modifyOperand (fun item _ => Nat.zero_le item) (Nat.zero_le item)).keepsProper
  gap := Parse.contained_skipGap.keepsProper
  codeBlock := (Parse.contained_codeBlock inside).keepsProper
  attempt := (Parse.contained_customPostfix inside).keepsProper
  attachPostfix target _ := (Parse.contained_attachPostfix (Nat.zero_le target)).keepsProper
  script extension trigger parts steps :=
    (Script.wild_steps extension trigger inside parts steps).keepsProper

/-- An attempt at a postfix that comes to nothing leaves the cursor where it was, and the faults and the
whole forest as they were, whatever has been read and built in between. It does so in every proper state;
a parse begins in one and stays in them, whatever it does and at whatever depth. -/
theorem failed_postfix_leaves_no_trace (grammar : Grammar) :
    (∀ depth s, s.Proper → Ends (Parse.customPostfix? grammar (Parse.segment grammar depth)) s
      (fun found t => found = none →
        t.cursor.position = s.cursor.position ∧ t.faults = s.faults ∧ t.forest = s.forest)
      (fun _ _ => True)) ∧
    (∀ text, (grammar.initialState text).Proper) ∧
    ∀ depth, grammar.StaysProper (Parse.segment grammar depth) := by
  have inside := Parse.contained_segment grammar
  refine ⟨?_, grammar.proper_initialState, fun depth => grammar.staysProper (inside depth)⟩
  exact fun depth s proper => Parse.ends_customPostfix_undone (inside depth) proper

/-- Behind `x`, where a keyword triggers a custom expression that is no postfix. -/
def behindOperand : ParseState :=
  let s := (sampleGrammar [wordExtension]).initialState (Text.ofString "x word y")
  { s with cursor := s.cursor.moveTo 1 }

/-- The custom expression is complete, with its keyword and its word, and it is taken back. -/
theorem custom_expression_taken_back :
    behindOperand.Proper ∧
      (∃ item t, Parse.triggeredBehind? (sampleGrammar [wordExtension])
        (Parse.segment (sampleGrammar [wordExtension]) 8) behindOperand = .ok (some item) t ∧
        t.forest.size = 4) ∧
      ∃ t, Parse.customPostfix? (sampleGrammar [wordExtension])
        (Parse.segment (sampleGrammar [wordExtension]) 8) behindOperand = .ok none t ∧
        t.cursor.position = 1 ∧ t.faults = [] ∧ t.forest = behindOperand.forest := by
  have proper : behindOperand.Proper :=
    ⟨(sampleGrammar [wordExtension]).closed_initialState (Text.ofString "x word y"),
      by decide +kernel⟩
  have undone := (failed_postfix_leaves_no_trace (sampleGrammar [wordExtension])).1 8 behindOperand proper
  refine ⟨proper, ?_, ?_⟩
  · obtain ⟨found, t, run, isSome, size⟩ : ∃ found t, Parse.triggeredBehind? (sampleGrammar [wordExtension])
        (Parse.segment (sampleGrammar [wordExtension]) 8) behindOperand = .ok found t ∧
          found.isSome = true ∧ t.forest.size = 4 := Ends.exists_ok (by decide +kernel)
    obtain ⟨item, rfl⟩ := Option.isSome_iff_exists.mp isSome
    exact ⟨item, t, run, size⟩
  · obtain ⟨_, t, run, rfl⟩ : ∃ found t, Parse.customPostfix? (sampleGrammar [wordExtension])
        (Parse.segment (sampleGrammar [wordExtension]) 8) behindOperand = .ok found t ∧ found = none :=
      Ends.exists_ok (by decide +kernel)
    exact ⟨t, run, undone.of_ok run rfl⟩

end Grammar

end ExprLang
