import ExprLang.Proofs.Parse.Segments

/-!
When a parse stops. The loop over the statements of the root is divided into its stages, so that
every state in which the root may get a part can be spoken of. No critical fault has been recorded
where a stage begins; a stage that records one stops, the loop ends with it, and the root has the
parts it had when the stage began. Extensions make no difference to that, since a parse with
extensions also stops if and only if a critical fault is recorded.
-/

namespace ExprLang

open Forest (Floor Closed)

/-- The stages of the loop over the statements of the root, with the passes that are left and the
position where the statement began. -/
inductive RootStage where
  | statement (passes : Nat)
  | attach (passes start : Nat) (segment : Segment)
  | separate (passes start : Nat) (closedByBlock : Bool)

namespace RootStage

variable {grammar : Grammar} {inner : Inner}

/-- Runs one stage and tells which one comes next, if the loop goes on. -/
def run (grammar : Grammar) (inner : Inner) : RootStage → Parse (Option RootStage)
  | statement 0 => do Parse.stuck (← Parse.position)
  | statement (passes + 1) => do
      let start ← Parse.position
      let segment ← inner .root
      return some (attach passes start segment)
  | attach passes start segment => do
      segment.item.forM (Parse.addStatement 0)
      return some (separate passes start segment.closedByBlock)
  | separate passes start closedByBlock => do
      let again ← Parse.afterStatement grammar 0 start closedByBlock
      return if again then some (statement passes) else none

/-- The loop from a stage on. -/
def rest (grammar : Grammar) (inner : Inner) : RootStage → Parse Unit
  | statement passes => Parse.rootStatements grammar inner 0 passes
  | attach passes start segment => do
      segment.item.forM (Parse.addStatement 0)
      if ← Parse.afterStatement grammar 0 start segment.closedByBlock then
        Parse.rootStatements grammar inner 0 passes
  | separate passes start closedByBlock => do
      if ← Parse.afterStatement grammar 0 start closedByBlock then
        Parse.rootStatements grammar inner 0 passes

/-- The loop is its stages, one after another. -/
theorem rest_eq (stage : RootStage) :
    stage.rest grammar inner =
      stage.run grammar inner >>= fun next => next.elim (pure ()) (rest grammar inner) := by
  cases stage with
  | statement passes =>
      cases passes with
      | zero => rfl
      | succ passes =>
          simp only [run, bind_assoc, pure_bind, Option.elim_some]
          rfl
  | attach passes start segment =>
      simp only [run, bind_assoc, pure_bind, Option.elim_some]
      rfl
  | separate passes start closedByBlock =>
      simp only [run, bind_assoc, pure_bind]
      refine bind_congr fun again => ?_
      cases again <;> rfl

/-- The stages that a loop comes to, each with the state it begins in. -/
inductive Reached (grammar : Grammar) (inner : Inner) (first : RootStage) (s : ParseState) :
    RootStage → ParseState → Prop where
  | first : Reached grammar inner first s first s
  | next {stage following : RootStage} {t u : ParseState} :
      Reached grammar inner first s stage t →
      stage.run grammar inner t = .ok (some following) u →
      Reached grammar inner first s following u

variable {first stage : RootStage} {s t u : ParseState}

/-- What is left of the loop gives what the whole loop gives. -/
theorem Reached.rest_eq (reached : Reached grammar inner first s stage t) :
    first.rest grammar inner s = stage.rest grammar inner t := by
  induction reached with
  | first => rfl
  | next _ step ih =>
      rw [ih, RootStage.rest_eq, bind_run, step]
      rfl

theorem contained_run (inside : Parse.InnerContained inner) (stage : RootStage) :
    Contained 0 (fun _ => True) (stage.run grammar inner) := by
  cases stage with
  | statement passes =>
      cases passes with
      | zero => exact Parse.contained_stuckHere
      | succ passes =>
          refine contained_bind Parse.contained_position fun start _ => ?_
          exact contained_bind (inside 0 .root) fun segment _ => contained_pure trivial
  | attach passes start segment =>
      refine contained_bind (P := fun _ => True) ?_ fun _ _ => contained_pure trivial
      exact contained_optionForM fun _ => Parse.contained_addStatement (Nat.le_refl 0)
  | separate passes start closedByBlock =>
      refine contained_bind (Parse.contained_afterStatement (Nat.le_refl 0)) fun again _ => ?_
      exact contained_pure trivial

/-! What a stage that stops does to the root -/

/-- The root has the same parts and the same lists of statements and separators. -/
def SameRoot (s t : ParseState) : Prop :=
  t.forest.parts 0 = s.forest.parts 0 ∧ t.forest.kind? 0 = s.forest.kind? 0

theorem sameRoot_of_eq (same : t.forest = s.forest) : SameRoot s t := by
  rw [SameRoot, same]
  exact ⟨rfl, rfl⟩

/-- A part that is refused changes nothing, and no attached part is a new item. -/
theorem ends_attach (isChild : Bool) {owner item : ItemId} {place : Section} :
    Ends (Parse.attach (·.attach owner item place isChild)) s
      (fun _ t => t.forest.size = s.forest.size) (fun _ t => t.forest = s.forest) := by
  unfold Parse.attach Parse.attachOr
  simp only [Parse.ends_forest_bind]
  cases attached : s.forest.attach owner item place isChild with
  | error error => exact ends_error rfl rfl
  | ok next =>
      obtain ⟨rfl, _, _⟩ := Forest.attach_ok attached
      exact ends_ok rfl Forest.size_link

theorem ends_addStatement (item : ItemId) :
    Ends (Parse.addStatement 0 item) s (fun _ t => t.forest.size = s.forest.size)
      (fun _ t => SameRoot s t) := by
  refine Ends.bind (ends_attach true) ?_ ?_
  · intro _ t same
    simpa only [Parse.changeKind, Parse.changeForest, ends_modify, Forest.size_modify] using same
  · exact fun _ _ same => sameRoot_of_eq same

theorem ends_addSeparator (place : Nat) (closed : Closed s.forest) (filled : 0 < s.forest.size) :
    Ends (Parse.addSeparator 0 place) s (fun _ t => 0 < t.forest.size)
      (fun _ t => SameRoot s t) := by
  unfold Parse.addSeparator
  simp only [Parse.ends_slice_bind]
  refine ends_bind (ends_ok rfl ?_)
  refine Ends.bind (ends_attach false) ?_ ?_
  · intro _ t same
    simp only [Parse.changeKind, Parse.changeForest, Parse.skip, ends_modify_bind, ends_modify,
      Forest.size_modify, same]
    exact (Forest.size_push _).symm ▸ Nat.succ_pos _
  · intro _ t same
    rw [SameRoot, same]
    exact (Forest.untouched_push closed.at_size).same filled

theorem ends_afterStatement (start : Nat) (closedByBlock : Bool) (closed : Closed s.forest)
    (filled : 0 < s.forest.size) :
    Ends (Parse.afterStatement grammar 0 start closedByBlock) s (fun _ t => 0 < t.forest.size)
      (fun _ t => SameRoot s t) := by
  unfold Parse.afterStatement
  refine Ends.bind Parse.ends_skipGap ?_ (fun _ _ never => never.elim)
  rintro _ t ⟨same, _⟩
  have kept : 0 < t.forest.size := same ▸ filled
  simp only [Parse.ends_position_bind, Parse.ends_current_bind]
  split
  · exact ends_pure kept
  · split
    · refine Ends.bind (ends_addSeparator _ (same ▸ closed) kept) ?_ ?_
      · exact fun _ _ still => ends_pure still
      · intro _ u sameRoot
        rwa [SameRoot, same] at sameRoot
    · split
      · exact ends_pure kept
      · simp only [Parse.ends_text_bind]
        split
        · exact ends_ok rfl kept
        · split
          · exact ends_ok rfl kept
          · split
            · exact ends_error rfl (sameRoot_of_eq same)
            · exact ends_pure kept

/-- A stage that stops leaves the root as it was. -/
theorem run_spares_root (inside : Parse.InnerContained inner) (closed : Closed s.forest)
    (filled : 0 < s.forest.size) (stage : RootStage) :
    Ends (stage.run grammar inner) s (fun _ t => 0 < t.forest.size) (fun _ t => SameRoot s t) := by
  cases stage with
  | statement passes =>
      have above : Contained s.forest.size (fun _ => True)
          ((statement passes).run grammar inner) := by
        cases passes with
        | zero => exact Parse.contained_stuckHere
        | succ passes =>
            refine contained_bind Parse.contained_position fun start _ => ?_
            exact contained_bind (inside _ .root) fun segment _ => contained_pure trivial
      refine (above s closed.at_size).imp ?_ ?_
      · exact fun _ t reached => Nat.lt_of_lt_of_le filled reached.2.1.holds.size
      · exact fun _ t stopped => stopped.1.untouched.same filled
  | attach passes start segment =>
      refine ends_bind ?_
      cases segment.item with
      | none => exact ends_pure (ends_pure filled)
      | some item =>
          refine (ends_addStatement item).imp ?_ (fun _ _ same => same)
          exact fun _ t same => ends_pure (same ▸ filled)
  | separate passes start closedByBlock =>
      refine Ends.bind (ends_afterStatement start closedByBlock closed filled) ?_ ?_
      · exact fun _ _ still => ends_pure still
      · exact fun _ _ same => same

/-- Where a stage begins, nothing critical has been recorded since the loop began. -/
theorem Reached.calm (inside : Parse.InnerContained inner) (closed : Closed s.forest)
    (filled : 0 < s.forest.size) (reached : Reached grammar inner first s stage t) :
    Closed t.forest ∧ 0 < t.forest.size ∧ Calm s t := by
  induction reached with
  | first => exact ⟨closed, filled, calm_of_eq rfl⟩
  | @next stage following t u _ step ih =>
      obtain ⟨closedHere, filledHere, calm⟩ := ih
      obtain ⟨_, above, calmStep⟩ :=
        (contained_run inside stage t (Forest.floor_zero t.forest)).of_ok step
      have still := (run_spares_root inside closedHere filledHere stage).of_ok step
      exact ⟨above.closed closedHere, still, calm.trans calmStep⟩

end RootStage

namespace Grammar

variable (grammar : Grammar)

/-- The loop over the statements of the root, for a text of this size. -/
def rootLoop (size : Nat) : Parse Unit :=
  Parse.rootStatements grammar (Parse.segment grammar (size + 1)) 0 (size + 1)

/-- The loop ends before it has come to the end of the text. -/
def StopsEarly (text : Text) : Prop :=
  ∃ stopped t, grammar.rootLoop text.size (grammar.initialState text) = .error stopped t

/-- The stages that the loop over the statements of the root comes to. -/
def ReachesStage (text : Text) : RootStage → ParseState → Prop :=
  RootStage.Reached grammar (Parse.segment grammar (text.size + 1)) (.statement (text.size + 1))
    (grammar.initialState text)

theorem closed_initialState (text : Text) : Closed (grammar.initialState text).forest := by
  refine ⟨fun id part member => ?_, fun id owner owned => ?_⟩
  · have bare : (grammar.initialState text).forest.parts id = {} := by
      cases id with
      | zero => rfl
      | succ id => rfl
    rw [bare] at member
    cases member
  · have free : (grammar.initialState text).forest.parent? id = none := by
      cases id with
      | zero => rfl
      | succ id => rfl
    rw [free] at owned
    cases owned

theorem hasCritical_of_calm {text : Text} {t : ParseState}
    (calm : Calm (grammar.initialState text) t) : t.faults.hasCritical = false := by
  obtain ⟨added, eq, recovered⟩ := calm
  have only : t.faults = added := eq
  rw [Faults.hasCritical, only, List.any_eq_false]
  exact fun fault member => by simp [recovered fault member]

theorem hasCritical_of_alarmed {s t : ParseState} (alarmed : Alarmed s t) :
    t.faults.hasCritical = true := by
  obtain ⟨added, eq, fault, member, critical⟩ := alarmed
  rw [Faults.hasCritical, eq, List.any_eq_true]
  exact ⟨fault, List.mem_append_right _ member, critical⟩

variable {grammar}

theorem finalState_of_ok {text : Text} {t : ParseState}
    (run : grammar.rootLoop text.size (grammar.initialState text) = .ok () t) :
    grammar.finalState text = t := by
  simp only [rootLoop] at run
  simp only [finalState, run]

theorem finalState_of_error {text : Text} {stopped : Stopped} {t : ParseState}
    (run : grammar.rootLoop text.size (grammar.initialState text) = .error stopped t) :
    grammar.finalState text = t := by
  simp only [rootLoop] at run
  simp only [finalState, run]

theorem hasCritical_iff_stopsEarly (text : Text) :
    (grammar.finalState text).faults.hasCritical = true ↔ grammar.StopsEarly text := by
  have inside := Parse.contained_segment grammar (text.size + 1)
  have contained : Contained 0 (fun _ => True) (grammar.rootLoop text.size) :=
    Parse.contained_rootStatements inside (Nat.le_refl 0) (text.size + 1)
  have ends := contained (grammar.initialState text) (Forest.floor_zero _)
  cases run : grammar.rootLoop text.size (grammar.initialState text) with
  | ok value t =>
      have calm : Calm (grammar.initialState text) t := (ends.of_ok run).2.2
      rw [finalState_of_ok run]
      refine iff_of_false (Bool.eq_false_iff.mp (hasCritical_of_calm grammar calm)) ?_
      rintro ⟨stopped, u, other⟩
      cases run.symm.trans other
  | error stopped t =>
      have alarmed : Alarmed (grammar.initialState text) t := (ends.of_error run).2
      rw [finalState_of_error run]
      exact iff_of_true (hasCritical_of_alarmed alarmed) ⟨stopped, t, run⟩

/-- A stage that stops ends the loop. -/
theorem finalState_of_stage {text : Text} {stage : RootStage} {s t : ParseState}
    {stopped : Stopped} (reached : grammar.ReachesStage text stage s)
    (run : stage.run grammar (Parse.segment grammar (text.size + 1)) s = .error stopped t) :
    grammar.finalState text = t := by
  have rest := RootStage.Reached.rest_eq reached
  rw [RootStage.rest_eq stage, bind_run, run] at rest
  exact finalState_of_error rest

/-- Going back to where an attempt at a postfix began drops no critical fault. -/
theorem criticals_of_rollBack {depth : Nat} {before t u : ParseState} {found : Option ItemId}
    (attempt : Parse.triggeredBehind? grammar (Parse.segment grammar depth) before = .ok found t)
    (back : Parse.rollBack before t = .ok () u) :
    u.faults.filter (·.critical) = t.faults.filter (·.critical) := by
  have inside := Parse.contained_segment grammar depth
  obtain ⟨_, _, added, eq, recovered⟩ :=
    (Parse.contained_triggeredBehind inside before (Forest.floor_zero before.forest)).of_ok attempt
  have noneAdded : added.filter (·.critical) = [] :=
    List.filter_eq_nil_iff.mpr fun fault member => by simp [recovered fault member]
  cases back
  simp [eq, noneAdded]

/-- Critical faults and stopping agree, whatever the extensions do. A critical fault is in the result
if and only if the loop over the statements of the root stopped early. Where a stage of that loop
begins none has been recorded; a stage that stops has recorded one, is the last one and leaves the
root with the parts, statements and separators it had. Going back from an attempt at a postfix drops
no critical fault, and a segment takes none back, at whatever depth and from whatever state. -/
theorem critical_faults_agree_with_stopping (grammar : Grammar) (text : String) :
    ((grammar.parse text).faults.hasCritical = true ↔ grammar.StopsEarly (Text.ofString text)) ∧
    (∀ stage s, grammar.ReachesStage (Text.ofString text) stage s →
      s.faults.hasCritical = false ∧
      ∀ stopped t,
        stage.run grammar (Parse.segment grammar ((Text.ofString text).size + 1)) s =
            .error stopped t →
          t.faults.hasCritical = true ∧ grammar.finalState (Text.ofString text) = t ∧
          t.forest.parts 0 = s.forest.parts 0 ∧ t.forest.kind? 0 = s.forest.kind? 0) ∧
    (∀ depth before found t u,
      Parse.triggeredBehind? grammar (Parse.segment grammar depth) before = .ok found t →
      Parse.rollBack before t = .ok () u →
        u.faults.filter (·.critical) = t.faults.filter (·.critical)) ∧
    (∀ depth context s,
      Ends (Parse.segment grammar depth context) s (fun _ t => s.faults <+: t.faults)
        (fun _ t => s.faults <+: t.faults)) := by
  refine ⟨hasCritical_iff_stopsEarly (Text.ofString text), ?_, ?_, ?_⟩
  · intro stage s reached
    have inside := Parse.contained_segment grammar ((Text.ofString text).size + 1)
    obtain ⟨closed, filled, calm⟩ := RootStage.Reached.calm inside
      (grammar.closed_initialState (Text.ofString text)) Nat.zero_lt_one reached
    refine ⟨hasCritical_of_calm grammar calm, ?_⟩
    intro stopped t run
    have alarmed : Alarmed s t :=
      ((RootStage.contained_run inside stage s (Forest.floor_zero _)).of_error run).2
    have same := (RootStage.run_spares_root inside closed filled stage).of_error run
    exact ⟨hasCritical_of_alarmed alarmed, finalState_of_stage reached run, same⟩
  · exact fun _ _ _ _ _ => criticals_of_rollBack
  · intro depth context s
    refine (Parse.contained_segment grammar depth 0 context s (Forest.floor_zero s.forest)).imp ?_ ?_
    · exact fun _ _ reached => reached.2.2.logged
    · exact fun _ _ reached => reached.2.logged

end Grammar

end ExprLang
