import ExprLang.Proofs.Fields.Enclosed
import ExprLang.Proofs.Parse.Extensions

/-!
Extensions fill the forest as well, unless a critical fault comes up while they run. An extension may
pass over a step that stopped, and then there are things half made in the forest; but the step has
recorded a critical fault, so the parser stops as soon as the extension is done. What an extension has
made is taken back when it declines.
-/

namespace ExprLang

open Forest (Filled Closed)

variable {α β : Type}

theorem Calm.split {s t u : ParseState} (calm : Calm s u) (first : s.faults <+: t.faults)
    (second : t.faults <+: u.faults) : Calm s t ∧ Calm t u := by
  obtain ⟨added, all, recovered⟩ := calm
  obtain ⟨front, eqFront⟩ := first
  obtain ⟨rest, eqRest⟩ := second
  have parts : added = front ++ rest := by
    rw [← eqRest, ← eqFront, List.append_assoc] at all
    exact (List.append_cancel_left all).symm
  subst parts
  exact ⟨⟨front, eqFront.symm, fun fault member => recovered fault (List.mem_append_left _ member)⟩,
    ⟨rest, eqRest.symm, fun fault member => recovered fault (List.mem_append_right _ member)⟩⟩

theorem Alarmed.not_calm {s t : ParseState} (alarmed : Alarmed s t) : ¬ Calm s t := by
  obtain ⟨added, eq, fault, member, critical⟩ := alarmed
  rintro ⟨others, same, recovered⟩
  obtain rfl : added = others := List.append_cancel_left (eq.symm.trans same)
  rw [recovered fault member] at critical
  cases critical

namespace Script

/-- If the script comes to its end without a critical fault, it fills the forest. -/
def Tame (script : Script α) : Prop :=
  ∀ s, s.forest.Closed → Ends script s
    (fun _ t => Above 0 s t ∧ s.faults <+: t.faults ∧ (Calm s t → Filled [] s.forest t.forest))
    fun _ _ => True

theorem tame_bind {step : Script α} {next : α → Script β} (first : Tame step)
    (rest : ∀ value, Tame (next value)) : Tame (step >>= next) := by
  intro s closed
  refine Ends.bind (first s closed) ?_ fun _ _ _ => trivial
  intro value t reached
  obtain ⟨above, logged, filled⟩ := reached
  refine (rest value t (above.closed closed)).imp ?_ fun _ _ _ => trivial
  intro result u reached
  obtain ⟨aboveLast, loggedLast, filledLast⟩ := reached
  refine ⟨above.trans aboveLast, logged.trans loggedLast, fun calm => ?_⟩
  obtain ⟨calmFirst, calmLast⟩ := calm.split logged loggedLast
  exact (filled calmFirst).trans (filledLast calmLast)

/-- A step that does not touch the forest. -/
theorem tame_same {step : Script α} (wild : Wild 0 step)
    (same : ∀ s, Ends step s (fun _ t => t.forest = s.forest) fun _ _ => True) : Tame step := by
  intro s closed
  refine ((wild s (Forest.floor_zero _)).and (same s)).imp ?_ fun _ _ _ => trivial
  intro value t reached
  obtain ⟨⟨above, logged⟩, same⟩ := reached
  refine ⟨above, logged, fun _ => ?_⟩
  rw [same]
  exact Forest.filled_refl closed (by simp)

theorem tame_pure {value : α} : Tame (pure value : Script α) :=
  tame_same wild_pure fun _ => ends_pure rfl

theorem tame_throw {exit : ScriptExit} : Tame (throw exit : Script α) :=
  fun _ _ => ends_throw trivial

theorem tame_get : Tame (get : Script ParseState) := tame_same wild_get fun _ => ends_ok rfl rfl

/-- A step that stops has recorded a critical fault. -/
theorem tame_attempt {P : α → Prop} {found : α → List ItemId} {step : Parse α}
    (contained : Contained 0 P step) (fills : Fills [] found step) : Tame (attempt step) := by
  intro s closed
  have ends := contained s (Forest.floor_zero _)
  have filled := fills s closed (by simp)
  unfold Ends attempt at *
  cases run : step s with
  | ok value t =>
      rw [run] at ends filled
      exact ⟨ends.2.1, ends.2.2.logged, fun _ => filled.2⟩
  | error stopped t =>
      rw [run] at ends
      exact ⟨ends.1, ends.2.logged, fun calm => absurd calm ends.2.not_calm⟩

theorem tame_run {P : α → Prop} {found : α → List ItemId} {step : Parse α}
    (contained : Contained 0 P step) (fills : Fills [] found step) : Tame (run step) := by
  refine tame_bind (tame_attempt contained fills) fun outcome => ?_
  cases outcome with
  | ok value => exact tame_pure
  | error stopped => exact tame_throw

theorem tame_isHere (grammar : Grammar) (symbol : String) : Tame (isHere grammar symbol) :=
  tame_bind tame_get fun _ => tame_pure

theorem tame_token (length : Nat) : Tame (token length) := by
  refine tame_bind tame_get fun _ => ?_
  refine tame_bind (tame_run Parse.contained_skip Parse.fills_skip) fun _ => ?_
  exact tame_run Parse.contained_createToken Parse.fills_createToken

variable {grammar : Grammar} {inner : Inner}

theorem fills_piece (inside : Parse.InnerFills inner) (piece : Extension.Piece) :
    Fills [] (fun _ => []) (piece? grammar inner piece) := by
  cases piece with
  | name =>
      refine fills_bind Parse.fills_skipGap fun _ => ?_
      exact Parse.fills_name.imp fun _ => List.nil_subset _
  | braces =>
      refine fills_bind Parse.fills_skipGap fun _ => ?_
      refine fills_bind Parse.fills_text fun _ => ?_
      refine fills_bind Parse.fills_position fun _ => ?_
      split
      · exact fills_bind (Parse.fills_braces inside none) fun _ => fills_pure (List.nil_subset _)
      · exact fills_pure (List.nil_subset _)
  | codeBlock =>
      refine fills_bind Parse.fills_skipGap fun _ => ?_
      refine fills_bind Parse.fills_text fun _ => ?_
      refine fills_bind Parse.fills_position fun _ => ?_
      split
      · exact fills_bind (Parse.fills_codeBlock inside) fun _ => fills_pure (List.nil_subset _)
      · exact fills_pure (List.nil_subset _)
  | expression => exact fills_bind (inside .custom) fun _ => fills_pure (List.nil_subset _)

variable (extension : Extension) (trigger : Trigger)

theorem tame_parse (contained : Parse.InnerContained inner) (fills : Parse.InnerFills inner)
    (parts : List CustomPart) (piece : Extension.Piece) (optional : Bool) (keep : Extension.Keep)
    (onStop : Extension.OnStop) : Tame
      (step grammar inner extension trigger parts (.parse piece optional keep onStop)) := by
  unfold step
  refine tame_bind (tame_attempt (contained_piece contained piece) (fills_piece fills piece))
    fun outcome => ?_
  rcases outcome with stopped | found
  · cases onStop with
    | carryOn => exact tame_pure
    | pass => exact tame_throw
    | decline => exact tame_throw
    | fail => exact tame_throw
  · cases found with
    | none => cases optional <;> first | exact tame_pure | exact tame_throw
    | some item => cases keep <;> exact tame_pure

mutual

theorem tame_step (contained : Parse.InnerContained inner) (fills : Parse.InnerFills inner)
    (parts : List CustomPart) : ∀ next, Tame (step grammar inner extension trigger parts next)
  | .log => tame_bind (tame_same (wild_observe extension trigger) fun _ => ends_ok rfl rfl)
      fun _ => tame_pure
  | .skip _ => tame_bind (tame_run Parse.contained_skip Parse.fills_skip) fun _ => tame_pure
  | .skipSpaces => tame_bind (tame_run Parse.contained_skipGap Parse.fills_skipGap) fun _ => tame_pure
  | .expect symbol => by
      refine tame_bind (tame_isHere grammar symbol) fun here => ?_
      cases here with
      | true => exact tame_pure
      | false => exact tame_throw
  | .branch symbol yes no => by
      refine tame_bind (tame_isHere grammar symbol) fun here => ?_
      cases here with
      | true => exact tame_steps contained fills parts yes
      | false => exact tame_steps contained fills parts no
  | .token length => tame_bind (tame_token length) fun _ => tame_pure
  | .word => by
      refine tame_bind tame_get fun s => ?_
      dsimp only
      split
      · exact tame_throw
      · exact tame_bind (tame_token _) fun _ => tame_pure
  | .parse piece optional keep onStop =>
      tame_parse extension trigger contained fills parts piece optional keep onStop
  | .report offset length code message critical => by
      unfold step
      split
      · exact tame_throw
      · refine tame_bind tame_get fun s => ?_
        exact tame_bind (tame_same (wild_addFault _) fun _ => ends_ok rfl rfl) fun _ => tame_pure
  | .fail _ => tame_throw
  | .decline => tame_throw
  | .again => tame_pure
  | .swap => tame_pure
  | .trigger => tame_pure
  | .child _ => tame_pure
  | .unknown _ => tame_throw

theorem tame_steps (contained : Parse.InnerContained inner) (fills : Parse.InnerFills inner)
    (parts : List CustomPart) : ∀ script, Tame (steps grammar inner extension trigger parts script)
  | [] => tame_pure
  | first :: rest =>
      tame_bind (tame_step contained fills parts first) fun parts =>
        tame_steps contained fills parts rest

end

end Script

namespace Parse

variable {grammar : Grammar} {inner : Inner} {known : List ItemId}

theorem fills_createCustom (extension : Extension) (trigger : Trigger) (parts : List CustomPart) :
    Fills known (fun id => [id]) (createCustom extension trigger parts) := by
  refine fills_bind fills_forest fun forest => ?_
  refine fills_made (fun _ _ _ => trivial) rfl fun item => ?_
  refine adds_bind (P := fun _ => True) ?_ fun _ _ => ?_
  · exact adds_forM fun _ _ => adds_attachOr fun _ _ => ends_error rfl trivial
  refine adds_bind (adds_attachOr fun _ _ => ends_error rfl trivial) fun _ _ => ?_
  refine adds_bind (P := fun _ => True) ?_ fun _ _ => adds_pure rfl
  refine adds_forM fun part _ => ?_
  cases part with
  | token part => exact adds_attachOr fun _ _ => ends_error rfl trivial
  | child part => exact adds_attachOr fun _ _ => ends_error rfl trivial

theorem changeForest_run (change : Forest → Forest) (s : ParseState) :
    changeForest change s = .ok () { s with forest := change s.forest } := rfl

theorem fills_tryExtensions (contained : InnerContained inner) (fills : InnerFills inner)
    (trigger : Trigger) (start : Nat) (extensions : List Extension) :
    Fills known (fun found => found.toList)
      (tryExtensions grammar inner trigger start extensions) := by
  induction extensions with
  | nil => exact fills_pure (List.nil_subset _)
  | cons extension rest ih =>
      intro s closed complex
      unfold tryExtensions
      simp only [ends_criticalCount_bind, ends_size_bind]
      have wild : Wild s.forest.size
          (Script.steps grammar inner extension trigger [] extension.steps) :=
        Script.wild_steps extension trigger contained [] extension.steps
      have tame : Script.Tame (Script.steps grammar inner extension trigger [] extension.steps) :=
        Script.tame_steps extension trigger contained fills [] extension.steps
      have outcomes := ends_runScript ((wild s closed.at_size).and (tame s closed))
      refine Ends.bind outcomes ?_ fun _ _ never => never.elim
      intro outcome t reached
      simp only [ends_criticalCount_bind]
      cases outcome with
      | declined =>
          obtain ⟨⟨above, _⟩, _⟩ := reached
          -- What the extension has made is cut off, so the forest is the one before it.
          have back : t.forest.truncate s.forest.size = s.forest :=
            above.untouched.truncate above.holds closed (above.closed closed)
          dsimp only
          split
          · exact ends_bind (ends_throw trivial)
          · have undone : changeForest (·.truncate s.forest.size)
                { t with cursor := t.cursor.moveTo start } =
                .ok () { t with cursor := t.cursor.moveTo start, forest := s.forest } := by
              simp only [changeForest_run, back]
            exact ends_bind (ends_ok rfl (ends_bind (ends_ok undone (ih _ closed complex))))
      | finished parts =>
          obtain ⟨⟨above, logged⟩, _, _, filled⟩ := reached
          have created : Fills [] (fun id => [id]) (createCustom extension trigger parts) :=
            fills_createCustom extension trigger parts
          refine Ends.bind (created t (above.closed closed) (by simp)) ?_ fun _ _ _ => trivial
          intro item u made
          split
          · exact ends_bind (ends_throw trivial)
          · rename_i same
            have calm : Calm s t := calm_of_count logged (by simpa using same)
            exact ends_pure ⟨by simpa using made.1, (filled calm).trans made.2⟩
      | failed error =>
          dsimp only
          split
          · exact ends_bind (ends_throw trivial)
          · exact ends_error rfl trivial

theorem fills_keywordId (token : ItemId) : Fills known (fun _ => []) (keywordId? token) := by
  refine fills_bind fills_forest fun forest => ?_
  split <;> exact fills_pure (List.nil_subset _)

theorem fills_custom (contained : InnerContained inner) (fills : InnerFills inner)
    (prefixes keywords : List ItemId) :
    Fills known (fun found => found.toList) (custom? grammar inner prefixes keywords) := by
  unfold custom?
  split
  · exact fills_pure (List.nil_subset _)
  · rename_i token _
    refine fills_bind (fills_keywordId token) fun found => ?_
    split
    · exact fills_pure (List.nil_subset _)
    · refine fills_bind fills_position fun place => ?_
      exact fills_tryExtensions contained fills _ place _

end Parse

end ExprLang
