import ExprLang.Proofs.Tandem.Leading

/-!
Postfixes of two parses in lockstep. Without extensions keywords behind an operand trigger nothing: they
are taken on trial, and then both parses are where they were.
-/

namespace ExprLang

open ParseState (Later)

/-- Items and faults have come, and the old ones are as they were. -/
structure ParseState.Scribbled (s t : ParseState) : Prop where
  text : t.cursor.text = s.cursor.text
  markers : t.cursor.markers = s.cursor.markers
  faults : s.faults <+: t.faults
  size : s.forest.size ≤ t.forest.size
  old : ∀ id < s.forest.size, t.forest.get? id = s.forest.get? id
  linked : s.forest.Linked → t.forest.Linked
  ordered : t.forest.ordered = s.forest.ordered

/-- All that has come is gone again. -/
structure ParseState.Retracted (s t : ParseState) : Prop where
  text : t.cursor.text = s.cursor.text
  markers : t.cursor.markers = s.cursor.markers
  position : s.cursor.position ≤ s.cursor.text.size → t.cursor.position = s.cursor.position
  faults : t.faults = s.faults
  forest : s.forest.Linked → t.forest = s.forest
  later : Later s t

open ParseState (Scribbled Retracted)

namespace ParseState.Scribbled

variable {s t u : ParseState}

theorem of_forest (text : t.cursor.text = s.cursor.text) (markers : t.cursor.markers = s.cursor.markers)
    (faults : s.faults <+: t.faults) (forest : t.forest = s.forest) : Scribbled s t where
  text := text
  markers := markers
  faults := faults
  size := Nat.le_of_eq (congrArg Forest.size forest.symm)
  old _ _ := by rw [forest]
  linked := by rw [forest]; exact id
  ordered := by rw [forest]

theorem trans (first : Scribbled s t) (second : Scribbled t u) : Scribbled s u where
  text := second.text.trans first.text
  markers := second.markers.trans first.markers
  faults := first.faults.trans second.faults
  size := Nat.le_trans first.size second.size
  old id inside := (second.old id (Nat.lt_of_lt_of_le inside first.size)).trans (first.old id inside)
  linked linked := second.linked (first.linked linked)
  ordered := second.ordered.trans first.ordered

theorem createToken (s : ParseState) (kind : TokenKind) (word : String) (start : Nat) :
    Scribbled s { s with forest := (s.forest.createToken kind word start).2 } where
  text := rfl
  markers := rfl
  faults := List.prefix_refl _
  size := by
    rw [Forest.createToken, Forest.size_push]
    exact Nat.le_succ _
  old id inside := Forest.get_push_old _ inside
  linked linked := Forest.linked_push rfl rfl linked
  ordered := rfl

/-- What is taken back was not there before. -/
theorem retracted (scribbled : Scribbled s t) : Retracted s { t with
    cursor := t.cursor.moveTo s.cursor.position
    faults := t.faults.take s.faults.length
    forest := t.forest.truncate s.forest.size } where
  text := scribbled.text
  markers := scribbled.markers
  position inside := by
    simp only [Cursor.moveTo, scribbled.text]
    omega
  faults := (List.prefix_iff_eq_take.mp scribbled.faults).symm
  forest linked := Forest.truncate_restores linked (scribbled.linked linked) scribbled.size
    scribbled.ordered scribbled.old
  later := by
    refine ⟨(List.prefix_iff_eq_take.mp scribbled.faults) ▸ List.prefix_refl _, ?_⟩
    intro id item found
    have inside := Forest.get_lt_size found
    have there := (scribbled.old id inside).trans found
    by_cases cut : s.forest.size < t.forest.size
    · refine ⟨_, (Forest.get_truncate inside cut).trans (by rw [there]; rfl), ?_⟩
      exact ⟨rfl, rfl, rfl⟩
    · exact ⟨item, (Forest.truncate_of_le (Nat.le_of_not_lt cut)).symm ▸ there, rfl, rfl, rfl⟩

end ParseState.Scribbled

namespace Parse

variable {grammar : Grammar} {s : ParseState}

theorem scribbled_skipGap : Ends skipGap s (fun _ t => Scribbled s t) fun _ _ => False := by
  have moved : Scribbled s { s with cursor := s.cursor.skipGap.1 } :=
    .of_forest s.cursor.text_skipGap s.cursor.markers_skipGap (List.prefix_refl _) rfl
  have reported : ∀ (t : ParseState) (unclosed : Option Nat), Ends (Tandem.reportUnclosed t unclosed) t
      (fun _ u => Scribbled t u) fun _ _ => False := by
    intro t unclosed
    cases unclosed with
    | none => exact ends_pure (.of_forest rfl rfl (List.prefix_refl _) rfl)
    | some start =>
        rw [Tandem.reportUnclosed]
        split
        · exact ends_pure (.of_forest rfl rfl (List.prefix_refl _) rfl)
        · exact ends_ok rfl (.of_forest rfl rfl (List.prefix_append _ _) rfl)
  have ends := (reported { s with cursor := s.cursor.skipGap.1 } s.cursor.skipGap.2).imp
    (fun _ _ more => moved.trans more) fun _ _ never => never
  unfold Ends at ends ⊢
  rw [Tandem.skipGap_run]
  exact ends

/-- Keywords on trial. -/
theorem scribbled_keywordRun (passes : Nat) : ∀ keywords (s : ParseState),
    Ends (keywordRun grammar false passes keywords) s (fun _ t => Scribbled s t) fun _ _ => False := by
  induction passes with
  | zero => exact fun keywords s => ends_pure (.of_forest rfl rfl (List.prefix_refl _) rfl)
  | succ passes ih =>
      intro keywords s
      unfold keywordRun
      apply scribbled_skipGap.bind _ fun _ _ never => never
      intro _ t skipped
      simp only [ends_position_bind, ends_text_bind]
      split
      · exact ends_pure skipped
      · have passed : ∀ count, Scribbled t { t with cursor := t.cursor.skip count } := fun count =>
          .of_forest rfl rfl (List.prefix_refl _) rfl
        simp only [ends_slice_bind, skip, ends_modify_bind, ends_forest_bind]
        split
        · exact ends_pure (skipped.trans (passed _))
        · simp only [ends_createToken_bind]
          apply (ih _ _).imp _ fun _ _ never => never
          intro _ u more
          exact ((skipped.trans (passed _)).trans (.createToken _ _ _ _)).trans more

/-- Without extensions there are no custom postfixes. -/
theorem customPostfix_run (plain : grammar.extensions = []) (inner : Inner) (s : ParseState) :
    ∃ t, customPostfix? grammar inner s = .ok none t ∧ Retracted s t := by
  have tried : Ends (triggeredBehind? grammar inner) s (fun found t => found = none ∧ Scribbled s t)
      fun _ _ => False := by
    unfold triggeredBehind?
    rw [ends_remaining_bind]
    apply (scribbled_keywordRun _ _ s).bind _ fun _ _ never => never
    intro keywords t scribbled
    cases keywords.getLast? with
    | none => exact ends_pure ⟨rfl, scribbled⟩
    | some last =>
        obtain ⟨keyword, run⟩ := keywordId_run last t
        refine ends_bind (ends_ok run ?_)
        cases keyword with
        | none => exact ends_pure ⟨rfl, scribbled⟩
        | some keyword =>
            simp only [extensionsFor_eq_nil plain]
            exact ends_pure ⟨rfl, scribbled⟩
  have ends : Ends (customPostfix? grammar inner) s (fun found t => found = none ∧ Retracted s t)
      fun _ _ => False := by
    unfold customPostfix?
    split
    · exact ends_pure ⟨rfl, rfl, rfl, fun _ => rfl, rfl, fun _ => rfl, .refl s⟩
    · rw [ends_get_bind]
      apply tried.bind _ fun _ _ never => never
      rintro _ t ⟨rfl, scribbled⟩
      exact ends_ok rfl ⟨rfl, scribbled.retracted⟩
  unfold Ends at ends
  split at ends
  · rename_i found t run
    obtain ⟨rfl, retracted⟩ := ends
    exact ⟨t, run, retracted⟩
  · exact ends.elim

end Parse

namespace Tandem

open Parse

variable {W : Tandem} {ahead : ParseState → Prop} {s s' t t' : ParseState}
  (lawful : W.Lawful) (heading : W.Heading ahead) {start : Nat} {inner inner' : Inner}
  (inside : W.Inside start inner inner')

include lawful

theorem Beside.retracted (beside : W.Beside s s') (here : Retracted s t) (there : Retracted s' t') :
    W.Beside t t' ∧ t.cursor.position = s.cursor.position := by
  obtain ⟨within, within'⟩ := lawful.inside _ beside.rest
  have position := here.position (beside.text ▸ within)
  have position' := there.position (by rw [beside.other, beside.position]; exact within')
  refine ⟨?_, position⟩
  exact {
    text := here.text.trans beside.text
    other := there.text.trans beside.other
    markers := here.markers.trans beside.markers
    markersOther := there.markers.trans beside.markersOther
    forest := by
      rw [here.forest beside.forest.linked, there.forest beside.forest.linkedOther]
      exact beside.forest
    faults := by
      rw [here.faults, there.faults]
      exact beside.faults
    rest := position ▸ beside.rest
    position := by rw [position', position, beside.position] }

include heading

theorem lock_attachPostfix {target postfixed : Nat}
    (given : ahead s → W.Near s s' ∧ Known s target ∧ Known s postfixed) :
    W.Locked ahead id s s' (attachPostfix target postfixed)
      (attachPostfix (W.rename target) (W.rename postfixed)) fun _ t t' => W.Stays s s' t t' := by
  unfold attachPostfix
  rw [Locked, lock_forest_bind]
  apply lock_ite heading
  · intro isAhead
    obtain ⟨near, known, knownPostfix⟩ := given isAhead
    rw [near.forest.acceptsPostfix_rename known.1 knownPostfix.1]
  · intro _
    apply (lock_addPostfix lawful heading fun isAhead => ?_).bind heading
    · intro _ t t' _ attached
      exact lock_pure fun isAhead _ => ⟨rfl, (attached isAhead).2⟩
    · obtain ⟨near, known, knownPostfix⟩ := given isAhead
      exact ⟨near, known.1, knownPostfix.1⟩
  · intro _
    apply (lock_report heading fun isAhead => ?_).bind heading
    · intro _ t t' _ reported
      exact lock_pure fun isAhead _ => ⟨rfl, (reported isAhead).2.1⟩
    · obtain ⟨near, _, known, within⟩ := given isAhead
      refine ⟨near, fun rigid => ?_⟩
      obtain ⟨distance, moves, _⟩ := lawful.distance rigid
      obtain ⟨start, _⟩ := near.forest.start_rename known within
      refine ⟨start, ?_, rfl⟩
      rw [Forest.length, Forest.length, start, near.forest.stop_rename moves known within, moves, moves]
      omega

def carryPostfixes (W : Tandem) (run : PostfixRun) : PostfixRun :=
  { run with rejected := run.rejected.map W.rename }

/-- Postfixes have been parsed. -/
structure Trailed (W : Tandem) (s : ParseState) (run : PostfixRun) (t t' : ParseState) : Prop
    extends Beside W t t' where
  known : ∀ item, run.rejected = some item → Known t item
  further : s.cursor.position ≤ t.cursor.position

include inside

theorem lock_postfixes {target : Nat} (context : Context) (passes : Nat) :
    ∀ {passes' : Nat} {s s' : ParseState},
      (ahead s → W.Beside s s' ∧ start ≤ s.cursor.position ∧ Known s target ∧
        s.cursor.remaining < passes ∧ s'.cursor.remaining < passes') →
      W.Locked ahead W.carryPostfixes s s' (postfixes W.grammar inner context target passes)
        (postfixes W.grammar inner' context (W.rename target) passes') (W.Trailed s) := by
  induction passes with
  | zero =>
      intro passes' s s' given
      -- With no rounds left there is nothing of the text left either, so the step is not ahead.
      have never : ¬ ahead s := fun isAhead => Nat.not_lt_zero _ (given isAhead).2.2.2.1
      have lock : W.Locked ahead W.carryPostfixes s s' (pure ⟨false, none⟩) (pure ⟨false, none⟩)
          (W.Trailed s) := lock_pure fun isAhead _ => absurd isAhead never
      exact lock_other heading lock fun isAhead => absurd isAhead never
  | succ passes ih =>
      intro passes' s s' given
      have filled : ahead s → passes' = passes' - 1 + 1 := by
        intro isAhead
        obtain ⟨_, _, _, _, enough⟩ := given isAhead
        omega
      apply lock_subst heading filled
      unfold postfixes
      apply (lock_skipGap lawful heading fun isAhead => (given isAhead).1).bind heading
      intro _ t t' skippedHere skipped
      rw [lock_text_bind, lock_position_bind]
      apply lock_ite heading
      · intro isAhead
        obtain ⟨_, beside, front, _⟩ := skipped isAhead
        rw [beside.text, beside.other, beside.position, lawful.blockStart _ front]
      · intro isBlock
        apply (lock_codeBlock lawful heading inside fun isAhead => ?_).bind heading
        · intro block u u' built took
          have known : ahead u → Known u target := fun isAhead =>
            ((given (skipped (took isAhead).1).1).2.2.1.later skippedHere).later built
          apply (lock_attachPostfix lawful heading fun isAhead => ?_).bind heading
          · intro taken v v' attachedHere attached
            -- What both runs have at the block once it has been attached or rejected.
            have there : ahead v → ahead s ∧ W.Beside v v' ∧ s.cursor.position < v.cursor.position ∧
                Known v block ∧ Known v target := by
              intro isAhead
              obtain ⟨isAhead, stays⟩ := attached isAhead
              obtain ⟨isTook, took⟩ := took isAhead
              obtain ⟨isSkipped, _, _, further⟩ := skipped isTook
              refine ⟨isSkipped, took.toBeside.of_stays stays, ?_, took.known.later attachedHere,
                (known isAhead).later attachedHere⟩
              rw [stays.cursor]
              exact Nat.lt_of_le_of_lt further took.further
            have ended : ∀ {closed : Bool} {rejected : Option ItemId},
                (∀ item, rejected = some item → item = block) →
                W.Locked ahead W.carryPostfixes v v' (pure ⟨closed, rejected⟩)
                  (pure ⟨closed, rejected.map W.rename⟩) (W.Trailed s) := by
              intro closed rejected isBlock
              refine lock_pure fun isAhead _ => ⟨rfl, ?_⟩
              obtain ⟨_, beside, further, known, _⟩ := there isAhead
              exact ⟨beside, fun item found => isBlock item found ▸ known, Nat.le_of_lt further⟩
            apply lock_ite heading fun _ => Iff.rfl
            · exact fun _ => ended fun item found => (Option.some.inj found).symm
            · intro _
              apply lock_ite heading fun _ => Iff.rfl
              · exact fun _ => ended fun _ => by rintro ⟨⟩
              · intro _
                apply (ih fun isAhead => ?_).imp
                · intro run w w' more isAhead _ trailed
                  have further := (there (heading.later more isAhead)).2.2.1
                  exact ⟨trailed.toBeside, trailed.known, Nat.le_trans (Nat.le_of_lt further) trailed.further⟩
                · obtain ⟨isAhead, beside, further, _, known⟩ := there isAhead
                  obtain ⟨before, behind, _, enough, enough'⟩ := given isAhead
                  have fewer := before.fewer lawful beside further
                  exact ⟨beside, by omega, known, by omega, by omega⟩
          · obtain ⟨_, took⟩ := took isAhead
            exact ⟨took.toNear, known isAhead, took.known⟩
        · obtain ⟨isAhead, beside, front, further⟩ := skipped isAhead
          exact ⟨beside, front, Nat.le_trans (given isAhead).2.1 further, isBlock⟩
      · intro _
        -- Without extensions a custom postfix is looked for and taken back in both runs.
        obtain ⟨u, run, retracted⟩ := customPostfix_run lawful.plain inner t
        obtain ⟨u', run', retracted'⟩ := customPostfix_run lawful.plain inner' t'
        have nothing : W.Locked ahead W.carryPostfixes u u' (pure ⟨false, none⟩) (pure ⟨false, none⟩)
            (W.Trailed s) := by
          refine lock_pure fun isAhead _ => ⟨rfl, ?_⟩
          obtain ⟨_, beside, _, further⟩ := skipped (heading.later retracted.later isAhead)
          obtain ⟨there, position⟩ := beside.retracted lawful retracted retracted'
          exact ⟨there, fun _ => by rintro ⟨⟩, position ▸ further⟩
        apply nothing.before retracted.later
        · rw [bind_run, run]
        · rw [bind_run, run']

end Tandem

end ExprLang
