import ExprLang.Proofs.Parse.Balance

/-!
Segments of a language without extensions keep their accounts. What has no place in an expression is
reported where it is found, so a segment that is left with a stray item has its reason for a series; and
every operand takes its postfixes.
-/

namespace ExprLang

variable {s t u : ParseState}

/-- What can be found without extensions; an operand takes postfixes. -/
def Found.Ordinary (found : Found) (s : ParseState) : Prop :=
  match found with
  | .operand item => s.forest.Takes item
  | .operators _ | .nothing => True
  | .stray _ | .prefixed _ => False

/-- Stray items that have come into the draft have been reported since `s`. -/
def Draft.Reported (before after : Draft) (s t : ParseState) : Prop :=
  ∀ item, Term.stray item ∈ after.terms → Term.stray item ∈ before.terms ∨ Marred s t

namespace Draft.Reported

variable {before draft after : Draft} {term : Term}

theorem refl (same : after.terms = before.terms) : Reported before after s t :=
  fun _ member => Or.inl (same ▸ member)

theorem trans (first : Reported before draft s t) (second : Reported draft after t u)
    (left : Settles [] s t) (right : Settles [] t u) : Reported before after s u := by
  intro item member
  rcases second item member with inDraft | marred
  · exact (first item inDraft).imp id fun marred => marred.stays right.logged
  · exact Or.inr (marred.later left.logged)

theorem addTerm (reported : Reported before after s t) (plain : ∀ item, term ≠ .stray item) :
    Reported before (after.addTerm term) s t := by
  intro item member
  rcases List.mem_append.mp member with old | new
  · exact reported item old
  · exact absurd (List.mem_singleton.mp new).symm (plain item)

theorem stays (reported : Reported before after s t) (later : Settles [] t u) :
    Reported before after s u := fun item member =>
  (reported item member).imp id fun marred => marred.stays later.logged

end Draft.Reported

namespace Parse

variable {grammar : Grammar} {inner : Inner}

theorem accounted_keywordRun (reportRepeats : Bool) (passes : Nat) : ∀ keywords,
    Accounted (fun _ _ => True) (keywordRun grammar reportRepeats passes keywords) := by
  induction passes with
  | zero => exact fun _ => accounted_pure fun _ => trivial
  | succ passes ih =>
      intro keywords
      have done : ∀ {found : List ItemId}, Accounted (fun _ _ => True) (pure found : Parse _) :=
        accounted_pure fun _ => trivial
      have neutral : Fault.Code.multipleOccurrencesOfKeyword.Neutral :=
        ⟨rfl, fun flaw => by cases flaw <;> nofun⟩
      unfold keywordRun
      refine accounted_bind accounted_skipGap fun _ => ?_
      refine accounted_bind accounted_position fun start => ?_
      refine accounted_bind accounted_text fun text => ?_
      split
      · exact done
      · refine accounted_bind accounted_slice fun written => ?_
        refine accounted_bind accounted_skip fun _ => ?_
        refine accounted_bind accounted_forest fun forest => ?_
        split
        · cases reportRepeats with
          | true => exact accounted_bind (accounted_report neutral) fun _ => done
          | false => exact done
        · exact accounted_bind accounted_createToken fun token => ih _

theorem still_attachModifiers {owner : ItemId} {modifiers : Modifiers} :
    Ends (attachModifiers owner modifiers) s (fun _ t => Still s t) (fun _ _ => True) := by
  unfold attachModifiers
  refine (still_forM fun _ _ => still_attach).bind ?_ fun _ _ stopped => stopped
  rintro _ t first
  refine (still_forM fun _ _ => still_attach).imp ?_ fun _ _ stopped => stopped
  exact fun _ u second => first.trans second

theorem accounted_attachModifiers {owner : ItemId} {modifiers : Modifiers} :
    Accounted (fun _ _ => True) (attachModifiers owner modifiers) :=
  accounted_still fun _ => still_attachModifiers

/-- A series and its reason. -/
theorem ends_misplaced_settled (modifiers : Modifiers) :
    Ends (misplaced modifiers) s (fun _ t => Marred s t ∧ Settles [] s t) (fun _ _ => True) := by
  simp only [misplaced, ends_forest_bind, report, addFault, ends_modify_bind, ends_create_bind]
  refine still_attachModifiers.bind ?_ fun _ _ stopped => stopped
  rintro _ t still
  have marks : t.forest.marks = s.forest.marks ++ [.series] := by
    rw [still.marks]
    simp [ItemKind.mark]
  refine ends_pure ⟨⟨_, still.faults, _, List.mem_singleton_self _, rfl⟩, [.series], _, marks,
    still.faults, Fair.degraded ⟨_, List.mem_singleton_self _, rfl⟩ ?_⟩
  exact List.forall_mem_singleton.mpr rfl

theorem accounted_misplaced (modifiers : Modifiers) :
    Accounted (fun _ _ => True) (misplaced modifiers) := fun _ =>
  (ends_misplaced_settled modifiers).imp (fun _ _ both => ⟨trivial, both.2⟩) fun _ _ stopped => stopped

theorem accounted_operandFollows : Accounted (fun _ _ => True) (operandFollows grammar) :=
  accounted_bind accounted_get fun _ => accounted_pure fun _ => trivial

theorem extensionsFor_eq_nil (plain : grammar.extensions = []) (keyword : KeywordId) : grammar.extensionsFor keyword = [] := by
  unfold Grammar.extensionsFor
  rw [plain]
  rfl

theorem accounted_keywordId (token : ItemId) : Accounted (fun _ _ => True) (keywordId? token) := by
  refine accounted_bind accounted_forest fun forest => ?_
  split <;> exact accounted_pure fun _ => trivial

/-- Without extensions there are no custom expressions. -/
theorem accounted_custom (plain : grammar.extensions = []) (prefixes keywords : List ItemId) :
    Accounted (fun found _ => found = none) (custom? grammar inner prefixes keywords) := by
  unfold custom?
  split
  · exact accounted_pure fun _ => rfl
  · refine accounted_bind (accounted_keywordId _) fun keyword => ?_
    split
    · exact accounted_pure fun _ => rfl
    · refine accounted_bind accounted_position fun place => ?_
      rw [extensionsFor_eq_nil plain]
      exact accounted_pure fun _ => rfl

theorem accounted_triggeredBehind (plain : grammar.extensions = []) :
    Accounted (fun found _ => found = none) (triggeredBehind? grammar inner) := by
  refine accounted_bind accounted_remaining fun _ => ?_
  refine accounted_bind (accounted_keywordRun _ _ _) fun keywords => ?_
  split
  · exact accounted_pure fun _ => rfl
  · refine accounted_bind (accounted_keywordId _) fun keyword => ?_
    split
    · exact accounted_pure fun _ => rfl
    · rw [extensionsFor_eq_nil plain]
      exact accounted_pure fun _ => rfl

/-- The keywords on trial are taken back with whatever was noted of them. -/
theorem accounted_customPostfix (plain : grammar.extensions = []) :
    Accounted (fun found _ => found = none) (customPostfix? grammar inner) := by
  intro s
  unfold customPostfix?
  split
  · exact ends_pure ⟨rfl, settles_of_same rfl rfl⟩
  · simp only [ends_get_bind]
    refine (accounted_triggeredBehind plain s).bind ?_ fun _ _ stopped => stopped
    rintro _ t ⟨rfl, marks, faults, grown, noted, _⟩
    simp only [rollBack, ends_modify_bind]
    refine ends_pure ⟨rfl, settles_of_same ?_ ?_⟩
    · simp [Forest.marks_truncate, grown, ← Forest.length_marks]
    · simp [noted]

/-- An operand takes any postfix. -/
theorem accounted_attachPostfix {target postfixed : ItemId} (takes : s.forest.Takes target) :
    Ends (attachPostfix target postfixed) s (fun taken t => taken = true ∧ Settles [] s t)
      (fun _ _ => True) := by
  unfold attachPostfix
  simp only [ends_forest_bind, Forest.acceptsPostfix_of_takes takes postfixed, if_true]
  refine still_attach.bind ?_ fun _ _ stopped => stopped
  exact fun _ t still => ends_pure ⟨rfl, still.settles⟩

theorem ends_settlePending_settled (draft : Draft) :
    Ends (settlePending draft) s (fun after t => draft.Reported after s t ∧ Settles [] s t)
      (fun _ _ => True) := by
  unfold settlePending
  split
  · exact ends_pure ⟨.refl rfl, settles_of_same rfl rfl⟩
  · split
    · exact ends_pure ⟨.refl rfl, settles_of_same rfl rfl⟩
    · refine (ends_misplaced_settled draft.pending).bind ?_ fun _ _ stopped => stopped
      rintro series t ⟨marred, settles⟩
      exact ends_pure ⟨fun _ _ => Or.inr marred, settles⟩

theorem ends_modifyOperand_settled (draft : Draft) (item : ItemId) :
    Ends (modifyOperand draft item) s (fun after t => after.terms = draft.terms ∧ Settles [] s t)
      (fun _ _ => True) := by
  unfold modifyOperand
  split
  · exact ends_pure ⟨rfl, settles_of_same rfl rfl⟩
  · refine ends_settled (accounted_attachModifiers s) fun _ t _ _ => ?_
    exact ends_pure ⟨rfl, settles_of_same rfl rfl⟩

section Inside

variable (inside : InnerAccounted inner)

include inside

theorem accounted_modifiers (passes : Nat) : ∀ pending,
    Accounted (fun read t => ∀ item ∈ read.2, t.forest.Takes item)
      (modifiers grammar inner passes pending) := by
  induction passes with
  | zero => exact fun _ => accounted_pure fun _ => nofun
  | succ passes ih =>
      intro pending
      have done : ∀ {read : Modifiers}, Accounted
          (fun (read : Modifiers × Option ItemId) t => ∀ item ∈ read.2, t.forest.Takes item)
          (pure (read, none) : Parse _) := accounted_pure fun _ => nofun
      unfold modifiers
      refine accounted_bind accounted_skipGap fun _ => ?_
      refine accounted_bind accounted_text fun text => ?_
      refine accounted_bind accounted_position fun place => ?_
      split
      · intro s
        refine ends_settled (accounted_braces inside none s) fun item t takes _ => ?_
        refine ends_settled (accounted_operandFollows t) fun follows u _ settles => ?_
        cases follows with
        | true => exact ih _ u
        | false =>
            refine ends_pure ⟨?_, settles_of_same rfl rfl⟩
            rintro _ ⟨⟩
            exact settles.takes takes
      · split
        · refine accounted_bind accounted_remaining fun _ => ?_
          refine accounted_bind (accounted_keywordRun _ _ _) fun keywords => ?_
          split
          · exact ih _
          · exact done
        · exact done

theorem accounted_plainOperand (terms : List Term) :
    Accounted Found.Ordinary (plainOperand grammar inner terms) := by
  have asOperand : ∀ {step : Parse ItemId}, Accounted (fun id t => t.forest.Takes id) step →
      Accounted Found.Ordinary (do return .operand (← step)) := fun first s =>
    ends_settled (first s) fun id t takes _ => ends_pure ⟨takes, settles_of_same rfl rfl⟩
  refine accounted_bind accounted_position fun place => ?_
  refine accounted_bind accounted_text fun text => ?_
  split
  · exact accounted_pure fun _ => trivial
  · split
    · exact accounted_pure fun _ => trivial
    · split
      · exact asOperand (accounted_textConstant grammar _)
      · split
        · exact asOperand (accounted_number _)
        · split
          · exact asOperand (accounted_braces inside none)
          · split
            · exact asOperand (accounted_codeBlock inside)
            · split
              · exact accounted_bind accounted_moveTo fun _ => accounted_pure fun _ => trivial
              · intro s
                refine ends_settled (accounted_literal inside s) fun found t takes _ => ?_
                cases found with
                | some item => exact ends_pure ⟨takes item rfl, settles_of_same rfl rfl⟩
                | none => exact trivial

variable (plain : grammar.extensions = [])

include plain

theorem accounted_operand (draft : Draft) :
    Accounted (fun read t => read.1.Ordinary t) (operand grammar inner draft) := by
  intro s
  unfold operand
  refine ends_settled (accounted_skipGap s) fun _ t _ _ => ?_
  refine ends_settled (accounted_custom plain _ _ t) fun found t none _ => ?_
  subst none
  refine ends_settled (accounted_plainOperand inside draft.terms t) fun found u ordinary _ => ?_
  exact ends_pure ⟨ordinary, settles_of_same rfl rfl⟩

theorem ends_postfixes_settled (context : Context) {target : ItemId} (passes : Nat) :
    ∀ s : ParseState, s.forest.Takes target →
      Ends (postfixes grammar inner context target passes) s
        (fun run t => run.rejected = none ∧ Settles [] s t) (fun _ _ => True) := by
  induction passes with
  | zero => exact fun _ _ => ends_pure ⟨rfl, settles_of_same rfl rfl⟩
  | succ passes ih =>
      intro s takes
      unfold postfixes
      refine ends_settled (accounted_skipGap s) fun _ t _ settles => ?_
      have takes := settles.takes takes
      simp only [ends_text_bind, ends_position_bind]
      split
      · refine ends_settled (accounted_codeBlock inside t) fun block u _ settles => ?_
        have takes := settles.takes takes
        refine ends_settled (accounted_attachPostfix takes) fun taken v attached settles => ?_
        subst attached
        simp only [Bool.not_true, Bool.false_eq_true, if_false]
        split
        · exact ends_pure ⟨rfl, settles_of_same rfl rfl⟩
        · exact ih v (settles.takes takes)
      · refine ends_settled (accounted_customPostfix plain t) fun found u none _ => ?_
        subst none
        exact ends_pure ⟨rfl, settles_of_same rfl rfl⟩

theorem ends_afterOperand_settled (context : Context) (draft : Draft) {item : ItemId}
    (takes : s.forest.Takes item) :
    Ends (afterOperand grammar inner context draft item) s
      (fun read t => draft.Reported read.1 s t ∧ Settles [] s t) (fun _ _ => True) := by
  unfold afterOperand
  refine ends_settled (ends_modifyOperand_settled draft item) fun after t terms settles => ?_
  simp only [ends_remaining_bind]
  refine ends_settled (ends_postfixes_settled inside plain context _ t (settles.takes takes))
    fun run u rejected _ => ?_
  have reported : ∀ v, draft.Reported (after.addTerm (.operand item)) s v := fun v =>
    (Draft.Reported.refl terms).addTerm fun _ => nofun
  simp only [rejected]
  split
  · exact ends_pure ⟨reported u, settles_of_same rfl rfl⟩
  · refine ends_settled (accounted_skipGap u) fun _ v _ _ => ?_
    simp only [ends_position_bind, ends_text_bind]
    split
    · exact ends_pure ⟨reported v, settles_of_same rfl rfl⟩
    · split
      · exact ends_pure ⟨reported v, settles_of_same rfl rfl⟩
      · refine ends_settled (accounted_moveTo v) fun _ w _ _ => ?_
        exact ends_pure ⟨(reported w).addTerm fun _ => nofun, settles_of_same rfl rfl⟩

theorem ends_pass_settled (context : Context) (draft : Draft) :
    Ends (pass grammar inner context draft) s
      (fun read t => draft.Reported read.1 s t ∧ Settles [] s t) (fun _ _ => True) := by
  unfold pass
  simp only [ends_remaining_bind]
  refine ends_settled (accounted_modifiers inside _ _ s) fun read t takes settles => ?_
  obtain ⟨pending, item⟩ := read
  have same : ∀ {other : Draft} {v : ParseState}, other.terms = draft.terms →
      draft.Reported other s v := fun terms => .refl terms
  cases item with
  | some item =>
      refine (ends_afterOperand_settled inside plain context _ (takes item rfl)).imp ?_ fun _ _ stopped => stopped
      rintro ⟨after, progress⟩ u ⟨reported, later⟩
      exact ⟨(same rfl).trans reported settles later, later⟩
  | none =>
      refine ends_settled (accounted_operand inside plain _ t) fun read u ordinary between => ?_
      obtain ⟨found, left⟩ := read
      have before := settles.trans between
      cases found with
      | operand item =>
          refine (ends_afterOperand_settled inside plain context _ ordinary).imp ?_ fun _ _ stopped => stopped
          rintro ⟨after, progress⟩ v ⟨reported, later⟩
          exact ⟨(same rfl).trans reported before later, later⟩
      | operators written =>
          refine (ends_settlePending_settled _).bind ?_ fun _ _ stopped => stopped
          rintro after v ⟨reported, later⟩
          have whole := (same rfl).trans reported before later
          exact ends_pure ⟨whole.addTerm fun _ => nofun, later⟩
      | nothing => exact ends_pure ⟨same rfl, settles_of_same rfl rfl⟩
      | stray item => exact ordinary.elim
      | prefixed item => exact ordinary.elim

theorem ends_passes_settled (context : Context) (count : Nat) : ∀ draft s,
    Ends (passes grammar inner context count draft) s
      (fun read t => draft.Reported read.1 s t ∧ Settles [] s t) (fun _ _ => True) := by
  induction count with
  | zero => exact fun _ _ => trivial
  | succ count ih =>
      intro draft s
      unfold passes
      refine (ends_pass_settled inside plain context draft).bind ?_ fun _ _ stopped => stopped
      rintro ⟨after, progress⟩ t ⟨reported, settles⟩
      cases progress with
      | done closedByBlock => exact ends_pure ⟨reported, settles⟩
      | again =>
          refine (ih after t).imp ?_ fun _ _ stopped => stopped
          rintro ⟨last, closed⟩ u ⟨later, rest⟩
          exact ⟨reported.trans later settles rest, settles.trans rest⟩

theorem accounted_segmentWith : InnerAccounted (segmentWith grammar inner) := by
  intro context s
  unfold segmentWith
  simp only [ends_remaining_bind]
  refine (ends_passes_settled inside plain context _ _ s).bind ?_ fun _ _ stopped => stopped
  rintro ⟨draft, closed⟩ t ⟨reported, settles⟩
  refine (ends_settlePending_settled draft).bind ?_ fun _ _ stopped => stopped
  rintro last u ⟨settled, later⟩
  have whole := reported.trans settled settles later
  have strays : ∀ item, Term.stray item ∈ last.terms → Marred s u := fun item member =>
    (whole item member).resolve_left nofun
  refine (ends_resolve_settled (settles.trans later) strays).bind ?_ fun _ _ stopped => stopped
  intro found v all
  cases found with
  | some item =>
      refine (accounted_attachModifiers v).bind ?_ fun _ _ stopped => stopped
      rintro _ w ⟨_, attached⟩
      exact ends_pure ⟨trivial, all.trans attached⟩
  | none =>
      dsimp only
      split
      · exact ends_pure ⟨trivial, all⟩
      · refine (accounted_misplaced last.lead v).bind ?_ fun _ _ stopped => stopped
        rintro _ w ⟨_, misplaced⟩
        exact ends_pure ⟨trivial, all.trans misplaced⟩

end Inside

/-- However deep segments nest, they keep their accounts. -/
theorem accounted_segment (plain : grammar.extensions = []) (depth : Nat) :
    InnerAccounted (segment grammar depth) := by
  induction depth with
  | zero => exact fun _ => accounted_stuckHere
  | succ depth ih => exact accounted_segmentWith ih plain

end Parse

end ExprLang
