import ExprLang.Proofs.Parse.Contained

/-!
Extensions. While an extension runs it may record critical faults and go on, pass over a stop or
make one of its own, so of its steps only two things are known: they work above the floor, and they
take no fault back. The parser compares the critical faults before and after, and so its own step
around the extension again stops if and only if a critical fault was recorded.
-/

namespace ExprLang

open Forest (Floor Untouched)

variable {floor : Nat} {α β : Type}

namespace Script

theorem wild_pure {value : α} : Wild floor (pure value : Script α) :=
  fun _ holds => ⟨above_of_eq holds rfl rfl, List.prefix_refl _⟩

theorem wild_throw {exit : ScriptExit} : Wild floor (throw exit : Script α) :=
  fun _ holds => ⟨above_of_eq holds rfl rfl, List.prefix_refl _⟩

theorem wild_bind {step : Script α} {next : α → Script β} (first : Wild floor step)
    (rest : ∀ value, Wild floor (next value)) : Wild floor (step >>= next) := by
  intro s holds
  refine Ends.bind (first s holds) ?_ (fun _ _ stopped => stopped)
  rintro value t ⟨above, logged⟩
  refine (rest value t above.holds).imp ?_ ?_ <;>
    exact fun _ u reached => ⟨above.trans reached.1, logged.trans reached.2⟩

theorem wild_get : Wild floor (get : Script ParseState) :=
  fun _ holds => ⟨above_of_eq holds rfl rfl, List.prefix_refl _⟩

theorem wild_attempt {P : α → Prop} {step : Parse α} (contained : Contained floor P step) :
    Wild floor (attempt step) := by
  intro s holds
  have ends := contained s holds
  unfold Ends attempt at *
  cases run : step s with
  | ok value t =>
      rw [run] at ends
      exact ⟨ends.2.1, ends.2.2.logged⟩
  | error stopped t =>
      rw [run] at ends
      exact ⟨ends.1, ends.2.logged⟩

theorem wild_run {P : α → Prop} {step : Parse α} (contained : Contained floor P step) :
    Wild floor (run step) := by
  refine wild_bind (wild_attempt contained) fun outcome => ?_
  cases outcome with
  | ok value => exact wild_pure
  | error stopped => exact wild_throw

theorem wild_isHere (grammar : Grammar) (symbol : String) : Wild floor (isHere grammar symbol) :=
  wild_bind wild_get fun _ => wild_pure

theorem wild_token (length : Nat) : Wild floor (token length) := by
  refine wild_bind wild_get fun _ => ?_
  refine wild_bind (wild_run Parse.contained_skip) fun _ => ?_
  exact wild_run Parse.contained_createToken

theorem wild_observe (extension : Extension) (trigger : Trigger) :
    Wild floor (observe extension trigger) :=
  fun _ holds => ⟨above_of_eq holds rfl rfl, List.prefix_refl _⟩

theorem wild_addFault (fault : Fault) : Wild floor (run (Parse.addFault fault)) :=
  fun _ holds => ⟨above_of_eq holds rfl rfl, List.prefix_append _ _⟩

variable {grammar : Grammar} {inner : Inner}

theorem contained_piece (inside : Parse.InnerContained inner) (piece : Extension.Piece) :
    Contained floor (fun _ => True) (piece? grammar inner piece) := by
  cases piece with
  | name =>
      refine contained_bind Parse.contained_skipGap fun _ _ => ?_
      exact (Parse.contained_name grammar).imp fun _ _ => trivial
  | braces =>
      refine contained_bind Parse.contained_skipGap fun _ _ => ?_
      refine contained_bind Parse.contained_text fun _ _ => ?_
      refine contained_bind Parse.contained_position fun _ _ => ?_
      split
      · exact contained_bind (Parse.contained_braces inside none) fun _ _ => contained_pure trivial
      · exact contained_pure trivial
  | codeBlock =>
      refine contained_bind Parse.contained_skipGap fun _ _ => ?_
      refine contained_bind Parse.contained_text fun _ _ => ?_
      refine contained_bind Parse.contained_position fun _ _ => ?_
      split
      · exact contained_bind (Parse.contained_codeBlock inside) fun _ _ => contained_pure trivial
      · exact contained_pure trivial
  | expression =>
      exact contained_bind (inside floor .custom) fun _ _ => contained_pure trivial

variable (extension : Extension) (trigger : Trigger)

/-- Handing a piece on, or doing without it. -/
theorem wild_parse (inside : Parse.InnerContained inner) (parts : List CustomPart)
    (piece : Extension.Piece) (optional : Bool) (keep : Extension.Keep)
    (onStop : Extension.OnStop) : Wild floor
      (step grammar inner extension trigger parts (.parse piece optional keep onStop)) := by
  unfold step
  refine wild_bind (wild_attempt (contained_piece inside piece)) fun outcome => ?_
  rcases outcome with stopped | found
  · cases onStop with
    | carryOn => exact wild_pure
    | pass => exact wild_throw
    | decline => exact wild_throw
    | fail => exact wild_throw
  · cases found with
    | none => cases optional <;> first | exact wild_pure | exact wild_throw
    | some item => cases keep <;> exact wild_pure

mutual

theorem wild_step (inside : Parse.InnerContained inner) (parts : List CustomPart) :
    ∀ next, Wild floor (step grammar inner extension trigger parts next)
  | .log => wild_bind (wild_observe extension trigger) fun _ => wild_pure
  | .skip _ => wild_bind (wild_run Parse.contained_skip) fun _ => wild_pure
  | .skipSpaces => wild_bind (wild_run Parse.contained_skipGap) fun _ => wild_pure
  | .expect symbol => by
      refine wild_bind (wild_isHere grammar symbol) fun here => ?_
      cases here with
      | true => exact wild_pure
      | false => exact wild_throw
  | .branch symbol yes no => by
      refine wild_bind (wild_isHere grammar symbol) fun here => ?_
      cases here with
      | true => exact wild_steps inside parts yes
      | false => exact wild_steps inside parts no
  | .token length => wild_bind (wild_token length) fun _ => wild_pure
  | .word => by
      refine wild_bind wild_get fun s => ?_
      dsimp only
      split
      · exact wild_throw
      · exact wild_bind (wild_token _) fun _ => wild_pure
  | .parse piece optional keep onStop =>
      wild_parse extension trigger inside parts piece optional keep onStop
  | .report offset length code message critical => by
      unfold step
      split
      · exact wild_throw
      · refine wild_bind wild_get fun s => ?_
        exact wild_bind (wild_addFault _) fun _ => wild_pure
  | .fail _ => wild_throw
  | .decline => wild_throw
  | .again => wild_pure
  | .swap => wild_pure
  | .trigger => wild_pure
  | .child _ => wild_pure
  | .unknown _ => wild_throw

theorem wild_steps (inside : Parse.InnerContained inner) (parts : List CustomPart) :
    ∀ script, Wild floor (steps grammar inner extension trigger parts script)
  | [] => wild_pure
  | first :: rest =>
      wild_bind (wild_step inside parts first) fun parts => wild_steps inside parts rest

end

end Script

namespace Parse

variable {grammar : Grammar} {inner : Inner}

theorem contained_createCustom (extension : Extension) (trigger : Trigger)
    (parts : List CustomPart) :
    Contained floor (fun id => floor ≤ id) (createCustom extension trigger parts) := by
  refine contained_bind contained_forest fun _ _ => ?_
  refine contained_bind contained_create fun item above => ?_
  refine contained_bind (P := fun _ => True) ?_ fun _ _ => ?_
  · exact contained_forM fun _ _ => contained_attachOr above fun _ => contained_stop
  refine contained_bind (contained_attachOr above fun _ => contained_stop) fun _ _ => ?_
  refine contained_bind (P := fun _ => True) ?_ fun _ _ => contained_pure above
  refine contained_forM fun part _ => ?_
  cases part with
  | token part => exact contained_attachOr above fun _ => contained_stop
  | child part => exact contained_attachOr above fun _ => contained_stop

theorem contained_truncate {count : Nat} (above : floor ≤ count) :
    Contained floor (fun _ => True) (changeForest (·.truncate count)) :=
  fun _ holds => ends_ok rfl ⟨trivial, above_of_forest (Forest.floor_truncate above holds)
    (Forest.untouched_truncate above holds) Forest.closed_truncate, calm_of_eq rfl⟩

/-- The outcome of a script, whatever it is. -/
theorem above_runScript {script : Script (List CustomPart)} (wild : Wild floor script)
    {s : ParseState} (holds : Floor floor s.forest) :
    Ends (runScript script) s (fun _ t => Above floor s t ∧ s.faults <+: t.faults)
      (fun _ _ => False) := by
  refine (ends_runScript (wild s holds)).imp ?_ fun _ _ never => never
  intro outcome t above
  cases outcome <;> exact above

theorem contained_tryExtensions (inside : InnerContained inner) (trigger : Trigger)
    (start : Nat) (extensions : List Extension) :
    Contained floor (fun found => ∀ item ∈ found, floor ≤ item)
      (tryExtensions grammar inner trigger start extensions) := by
  induction extensions with
  | nil => exact contained_pure (by simp)
  | cons extension rest ih =>
      intro s holds
      unfold tryExtensions
      simp only [ends_criticalCount_bind, ends_size_bind]
      have wild : Wild floor (Script.steps grammar inner extension trigger [] extension.steps) :=
        Script.wild_steps extension trigger inside [] extension.steps
      refine Ends.bind (above_runScript wild holds) ?_ (fun _ _ never => never.elim)
      rintro outcome t ⟨above, logged⟩
      simp only [ends_criticalCount_bind]
      cases outcome with
      -- An extension that declines leaves the way to the next one, unless it has raised an alarm.
      | declined =>
          by_cases more : s.faults.criticalCount < t.faults.criticalCount
          · simp only [more, if_true]
            exact ends_bind (ends_throw ⟨above, alarmed_of_count logged more⟩)
          · simp only [more, if_false]
            have calm : Calm s t := calm_of_count logged more
            have again : Contained floor (fun found => ∀ item ∈ found, floor ≤ item) (do
                moveTo start
                changeForest (·.truncate s.forest.size)
                tryExtensions grammar inner trigger start rest) :=
              contained_bind contained_moveTo fun _ _ =>
                contained_bind (contained_truncate holds.size) fun _ _ => ih
            exact again.after above calm
      | finished parts =>
          refine Ends.bind (contained_createCustom extension trigger parts t above.holds) ?_ ?_
          · rintro item u ⟨aboveItem, created, calm⟩
            by_cases more : s.faults.criticalCount < t.faults.criticalCount
            · simp only [more, if_true]
              have alarmed : Alarmed s u := (alarmed_of_count logged more).stays calm.logged
              exact ends_bind (ends_throw ⟨above.trans created, alarmed⟩)
            · simp only [more, if_false]
              have calmAll : Calm s u := (calm_of_count logged more).trans calm
              exact ends_pure ⟨by simpa using aboveItem, above.trans created, calmAll⟩
          · rintro _ u ⟨created, alarmed⟩
            exact ⟨above.trans created, alarmed_of_logged logged alarmed⟩
      | failed error =>
          by_cases passed : error = .parseStopped ∧ s.faults.criticalCount < t.faults.criticalCount
          · simp only [passed.1, passed.2, decide_true, Bool.and_self, if_true]
            exact ends_bind (ends_throw ⟨above, alarmed_of_count logged passed.2⟩)
          · simp only [← Bool.decide_and, passed, decide_false, Bool.false_eq_true, if_false,
              ends_forest_bind]
            refine ends_error rfl ⟨above.trans (above_of_eq above.holds rfl rfl), ?_⟩
            exact alarmed_of_logged logged ⟨[_], rfl, by simp⟩

theorem contained_keywordId (token : ItemId) : Contained floor (fun _ => True) (keywordId? token) := by
  refine contained_bind contained_forest fun _ _ => ?_
  split <;> exact contained_pure trivial

theorem contained_custom (inside : InnerContained inner) (prefixes keywords : List ItemId) :
    Contained floor (fun found => ∀ item ∈ found, floor ≤ item)
      (custom? grammar inner prefixes keywords) := by
  unfold custom?
  split
  · exact contained_pure (by simp)
  · refine contained_bind (contained_keywordId _) fun found _ => ?_
    split
    · exact contained_pure (by simp)
    · refine contained_bind contained_position fun place _ => ?_
      exact contained_tryExtensions inside _ place _

end Parse

end ExprLang
