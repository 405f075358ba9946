import ExprLang.Parse.Segment
import ExprLang.Proofs.Parse.Enclosing

/-!
Scripts at work. Whatever an extension does, it leaves alone what was there before, and what it makes
lies behind the place where it was called; it may leave items behind that have no owner.
-/

namespace ExprLang

open Held (item hollow word ids)

namespace ParseState

variable {grammar : Grammar} {base s t : ParseState}

theorem Ready.littered (ready : s.Ready grammar False) : Littered s s :=
  ready.standing.littered

namespace Littered

variable (littered : Littered base s)

include littered

theorem ready (ready : base.Ready grammar False) : s.Ready grammar False where
  sound := littered.sound
  markers := littered.markers.trans ready.markers
  inside := littered.inside
  behind id := by
    by_cases inside : id < s.forest.size
    · by_cases old : id < base.forest.size
      · rw [(littered.toKept.spans_old ready.sound old).2]
        exact Nat.le_trans (ready.behind id) littered.moved
      · exact (littered.within id (Nat.le_of_not_lt old) inside).2
    · rw [Forest.stop_of_size_le (Nat.le_of_not_lt inside)]
      exact Nat.zero_le _
  listed := littered.heard.listed ready.listed
  strict := False.elim
  unclosed := False.elim

theorem remaining_lt {depth : Nat} (shallow : base.cursor.remaining < depth) :
    s.cursor.remaining < depth :=
  Nat.lt_of_le_of_lt (Cursor.remaining_le littered.text littered.moved) shallow

/-- Time may pass and faults may come. -/
theorem of_same (forest : t.forest = s.forest) (faults : s.faults <+: t.faults)
    (text : t.cursor.text = s.cursor.text) (markers : t.cursor.markers = s.cursor.markers)
    (comments : t.cursor.comments = s.cursor.comments)
    (further : s.cursor.position ≤ t.cursor.position)
    (inside : t.cursor.position ≤ t.cursor.text.size) : Littered base t where
  text := text.trans littered.text
  markers := markers.trans littered.markers
  sound := forest ▸ littered.sound
  size := forest ▸ littered.size
  old := forest ▸ littered.old
  logged := littered.logged.trans faults
  heard := littered.heard.trans (Cursor.hears_of_same text markers comments)
  within id new known := by
    rw [forest] at known ⊢
    obtain ⟨first, last⟩ := littered.within id new known
    exact ⟨first, Nat.le_trans last further⟩
  apart x y madeX madeY different := by
    simp only [Made, forest] at madeX madeY ⊢
    exact littered.apart x y madeX madeY different
  moved := Nat.le_trans littered.moved further
  inside := inside

end Littered

/-- A token of an extension, which may be empty. -/
theorem Ready.littered_token (ready : s.Ready grammar False) (kind : TokenKind) (text : String)
    (cursor : t.cursor.text = s.cursor.text) (markers : t.cursor.markers = s.cursor.markers)
    (comments : t.cursor.comments = s.cursor.comments) (faults : t.faults = s.faults)
    (forest : t.forest = (s.forest.createToken kind text s.cursor.position).2)
    (reached : t.cursor.position = s.cursor.position + text.length)
    (inside : t.cursor.position ≤ t.cursor.text.size) : Littered s t where
  text := cursor
  markers := markers
  sound := by
    rw [forest]
    exact Forest.sound_push ready.sound rfl rfl
  size := by
    rw [forest, Forest.createToken, Forest.size_push]
    exact Nat.le_succ _
  old id inside := by
    rw [forest]
    exact Forest.get_push_old _ inside
  logged := by rw [faults]
  heard := Cursor.hears_of_same cursor markers comments
  within id new known := by
    rw [forest, Forest.createToken, Forest.size_push] at known
    obtain rfl : id = s.forest.size := by omega
    obtain ⟨starts, stops⟩ := Forest.span_createToken kind text s.cursor.position ready.sound.linked
    rw [forest, starts, stops, reached]
    exact ⟨Nat.le_refl _, Nat.le_refl _⟩
  apart x y madeX madeY different := by
    have insideX := madeX.2.1
    have insideY := madeY.2.1
    rw [forest, Forest.createToken, Forest.size_push] at insideX insideY
    have newX := madeX.1
    have newY := madeY.1
    exact absurd (by omega) different
  moved := by omega
  inside := inside

end ParseState

open ParseState

/-- Whether the step goes on or not, nothing more is known than that it leaves its litter behind the
cursor. -/
def Strays {ε α : Type} (grammar : Grammar) (whole : Text) (depth : Nat)
    (step : EStateM ε ParseState α) : Prop :=
  ∀ s, s.Ready grammar False → s.cursor.text = whole → s.cursor.remaining < depth →
    Ends step s (fun _ t => Littered s t) (fun _ t => Littered s t)

namespace Script

variable {grammar : Grammar} {inner : Inner} {whole : Text} {depth : Nat} {α β : Type}

theorem strays_pure {value : α} : Strays grammar whole depth (pure value : Script α) :=
  fun _ ready _ _ => ends_pure ready.littered

theorem strays_throw {exit : ScriptExit} : Strays grammar whole depth (throw exit : Script α) :=
  fun _ ready _ _ => ends_throw ready.littered

theorem strays_bind {step : Script α} {next : α → Script β} (first : Strays grammar whole depth step)
    (rest : ∀ value, Strays grammar whole depth (next value)) : Strays grammar whole depth (step >>= next) := by
  intro s ready same shallow
  refine (first s ready same shallow).bind ?_ fun _ _ littered => littered
  intro value t littered
  refine (rest value t (littered.ready ready) (littered.text.trans same)
    (littered.remaining_lt shallow)).imp ?_ ?_ <;>
    exact fun _ u more => littered.trans more

theorem strays_get : Strays grammar whole depth (get : Script ParseState) :=
  fun _ ready _ _ => ready.littered

theorem strays_attempt {step : Parse α} (strays : Strays grammar whole depth step) :
    Strays grammar whole depth (attempt step) := by
  intro s ready same shallow
  have ends := strays s ready same shallow
  unfold Ends attempt at *
  cases run : step s with
  | ok value t => rwa [run] at ends
  | error stopped t => rwa [run] at ends

theorem strays_run {step : Parse α} (strays : Strays grammar whole depth step) :
    Strays grammar whole depth (run step) := by
  refine strays_bind (strays_attempt strays) fun outcome => ?_
  cases outcome with
  | ok value => exact strays_pure
  | error stopped => exact strays_throw

theorem strays_isHere (symbol : String) : Strays grammar whole depth (isHere grammar symbol) :=
  strays_bind strays_get fun _ => strays_pure

theorem strays_skip (count : Nat) : Strays grammar whole depth (Parse.skip count) := by
  intro s ready _ _
  have inside := ready.inside
  unfold Parse.skip
  rw [ends_modify]
  refine ready.littered.of_same rfl (List.prefix_refl _) rfl rfl rfl ?_ ?_ <;>
    simp only [Cursor.skip, Cursor.moveTo] <;> omega

theorem strays_skipGap : Strays grammar whole depth Parse.skipGap := by
  intro s ready _ _
  refine (Parse.standing_skipGap ready.standing).imp ?_ fun _ _ never => never.elim
  exact fun _ t reached => reached.1.littered

theorem strays_addFault (fault : Fault) : Strays grammar whole depth (Parse.addFault fault) := by
  intro s ready _ _
  unfold Parse.addFault
  rw [ends_modify]
  exact ready.littered.of_same rfl (List.prefix_append _ _) rfl rfl rfl (Nat.le_refl _) ready.inside

theorem strays_observe (extension : Extension) (trigger : Trigger) :
    Strays grammar whole depth (observe extension trigger) :=
  fun _ ready _ _ =>
    ready.littered.of_same rfl (List.prefix_refl _) rfl rfl rfl (Nat.le_refl _) ready.inside

theorem strays_token (length : Nat) : Strays grammar whole depth (token length) := by
  intro s ready _ _
  have inside := ready.inside
  refine ends_ok rfl (ready.littered_token .custom
    (s.cursor.text.slice s.cursor.position (s.cursor.position + length)) rfl rfl rfl rfl rfl ?_ ?_)
  · have long := Text.length_slice s.cursor.text s.cursor.position (s.cursor.position + length)
    simp only [Cursor.skip, Cursor.moveTo]
    omega
  · simp only [Cursor.skip, Cursor.moveTo]
    omega

theorem strays_piece (parses : inner.Parses grammar False whole depth) (piece : Extension.Piece) :
    Strays grammar whole depth (piece? grammar inner piece) := by
  intro s ready same shallow
  have gap := Parse.standing_skipGap ready.standing
  cases piece with
  | name =>
      refine gap.bind ?_ fun _ _ never => never.elim
      rintro _ t ⟨standing, settled, _⟩
      refine (Parse.ends_name standing.next settled False.elim).imp ?_ fun _ _ never => never.elim
      rintro found u (⟨rfl, rfl⟩ | ⟨id, rfl, built⟩)
      · exact standing.littered
      · exact standing.littered.trans built.littered
  | braces =>
      refine gap.bind ?_ fun _ _ never => never.elim
      rintro _ t ⟨standing, settled, _⟩
      have near := Nat.le_of_lt (standing.littered.remaining_lt shallow)
      simp only [Parse.ends_text_bind, Parse.ends_position_bind]
      split
      · rename_i here
        have braces := Parse.ends_braces parses none (standing.text.trans same) standing.next.standing
          settled here near
        refine braces.bind (fun id u built => ?_) fun _ _ halted => ?_
        · exact ends_pure (standing.littered.trans built.littered)
        · exact standing.littered.trans halted.toLittered
      · exact ends_pure standing.littered
  | codeBlock =>
      refine gap.bind ?_ fun _ _ never => never.elim
      rintro _ t ⟨standing, settled, _⟩
      have near := Nat.le_of_lt (standing.littered.remaining_lt shallow)
      simp only [Parse.ends_text_bind, Parse.ends_position_bind]
      split
      · rename_i here
        have block := Parse.ends_codeBlock parses (standing.text.trans same) standing.next settled here near
        refine block.bind (fun id u built => ?_) fun _ _ halted => ?_
        · exact ends_pure (standing.littered.trans built.littered)
        · exact standing.littered.trans halted.toLittered
      · exact ends_pure standing.littered
  | expression =>
      refine (parses .custom s ready same shallow).bind (fun segment t segmented => ?_) fun _ _ halted => ?_
      · exact ends_pure segmented.littered
      · exact halted.toLittered

variable (extension : Extension) (trigger : Trigger)

/-- Handing a piece on, or doing without it. -/
theorem strays_parse (parses : inner.Parses grammar False whole depth) (parts : List CustomPart)
    (piece : Extension.Piece) (optional : Bool) (keep : Extension.Keep)
    (onStop : Extension.OnStop) : Strays grammar whole depth
      (step grammar inner extension trigger parts (.parse piece optional keep onStop)) := by
  unfold step
  refine strays_bind (strays_attempt (strays_piece parses piece)) fun outcome => ?_
  rcases outcome with stopped | found
  · cases onStop with
    | carryOn => exact strays_pure
    | pass => exact strays_throw
    | decline => exact strays_throw
    | fail => exact strays_throw
  · cases found with
    | none => cases optional <;> first | exact strays_pure | exact strays_throw
    | some item => cases keep <;> exact strays_pure

mutual

theorem strays_step (parses : inner.Parses grammar False whole depth) (parts : List CustomPart) :
    ∀ next, Strays grammar whole depth (step grammar inner extension trigger parts next)
  | .log => strays_bind (strays_observe extension trigger) fun _ => strays_pure
  | .skip count => strays_bind (strays_run (strays_skip count)) fun _ => strays_pure
  | .skipSpaces => strays_bind (strays_run strays_skipGap) fun _ => strays_pure
  | .expect symbol => by
      refine strays_bind (strays_isHere symbol) fun here => ?_
      cases here with
      | true => exact strays_pure
      | false => exact strays_throw
  | .branch symbol yes no => by
      refine strays_bind (strays_isHere symbol) fun here => ?_
      cases here with
      | true => exact strays_steps parses parts yes
      | false => exact strays_steps parses parts no
  | .token length => strays_bind (strays_token length) fun _ => strays_pure
  | .word => by
      refine strays_bind strays_get fun s => ?_
      dsimp only
      split
      · exact strays_throw
      · exact strays_bind (strays_token _) fun _ => strays_pure
  | .parse piece optional keep onStop =>
      strays_parse extension trigger parses parts piece optional keep onStop
  | .report offset length code message critical => by
      unfold step
      split
      · exact strays_throw
      · refine strays_bind strays_get fun s => ?_
        exact strays_bind (strays_run (strays_addFault _)) fun _ => strays_pure
  | .fail _ => strays_throw
  | .decline => strays_throw
  | .again => strays_pure
  | .swap => strays_pure
  | .trigger => strays_pure
  | .child _ => strays_pure
  | .unknown _ => strays_throw

theorem strays_steps (parses : inner.Parses grammar False whole depth) (parts : List CustomPart) :
    ∀ script, Strays grammar whole depth (steps grammar inner extension trigger parts script)
  | [] => strays_pure
  | first :: rest =>
      strays_bind (strays_step parses parts first) fun parts => strays_steps parses parts rest

end

end Script

end ExprLang
