import ExprLang.Proofs.Parse.Segments
import ExprLang.Proofs.Tandem.Trailing
import ExprLang.Proofs.Tandem.Words

/-!
Segments of two parses in lockstep. The words of an operator become tokens at the end of its segment
only, so while a segment is parsed its operators are due: the other parse goes on in the same way if
they are to become tokens, and in the end they do.
-/

namespace ExprLang

open ParseState (Later)

/-- Terms have come behind those of a draft, and each operator among them has words. -/
structure Draft.Extends (before after : Draft) : Prop where
  terms : ∀ term ∈ before.terms, term ∈ after.terms
  filled : ∀ written, .operators written ∈ after.terms →
    .operators written ∈ before.terms ∨ written.parts ≠ []

namespace Draft.Extends

variable {before draft after : Draft}

theorem of_terms (same : after.terms = before.terms) : Extends before after :=
  ⟨fun _ member => same ▸ member, fun _ member => Or.inl (same ▸ member)⟩

theorem trans (first : Extends before draft) (second : Extends draft after) : Extends before after :=
  ⟨fun term member => second.terms term (first.terms term member), fun written member =>
    (second.filled written member).elim (first.filled written) Or.inr⟩

theorem addTerm (extends_ : Extends before after) {term : Term}
    (filled : ∀ written, term = .operators written → written.parts ≠ []) :
    Extends before (after.addTerm term) where
  terms other member := List.mem_append_left _ (extends_.terms other member)
  filled written member := by
    rcases List.mem_append.mp member with old | new
    · exact extends_.filled written old
    · exact Or.inr (filled written (List.mem_singleton.mp new).symm)

end Draft.Extends

namespace Parse

variable {grammar : Grammar} {s : ParseState}

theorem ends_settlePending_extends (draft : Draft) :
    Ends (settlePending draft) s (fun after _ => draft.Extends after) fun _ _ => True := by
  unfold settlePending
  split
  · exact ends_pure (.of_terms rfl)
  · split
    · exact ends_pure (.of_terms rfl)
    · apply (Tandem.ends_somehow _ s).bind _ fun _ _ _ => trivial
      intro series t _
      have same : draft.Extends { draft with pending := {} } := .of_terms rfl
      exact ends_pure (same.addTerm fun written => nofun)

theorem ends_modifyOperand_extends (draft : Draft) (item : ItemId) :
    Ends (modifyOperand draft item) s (fun after _ => draft.Extends after) fun _ _ => True := by
  unfold modifyOperand
  split
  · exact ends_pure (.of_terms rfl)
  · apply (Tandem.ends_somehow _ s).bind _ fun _ _ _ => trivial
    exact fun _ t _ => ends_pure (.of_terms rfl)

section Named

variable (named : grammar.Named) {inner : Inner}

include named

theorem filled_of_operatorAt {text : Text} {place : Nat} {afterOperand : Bool} {written : OperatorMatch}
    (found : grammar.operatorAt? text place afterOperand = some written) : written.parts ≠ [] := by
  unfold Grammar.operatorAt? at found
  dsimp only at found
  split at found
  · cases found
  · rename_i best chosen
    split at found
    · cases found
    · cases found
      obtain ⟨operator, member, spelled⟩ := List.mem_filterMap.mp (Grammar.best_mem chosen)
      obtain ⟨spans, foundSpans, rfl⟩ := Option.map_eq_some_iff.mp spelled
      obtain ⟨part, rest, parts⟩ := List.exists_cons_of_ne_nil (named operator member)
      rw [parts, Grammar.spans?] at foundSpans
      split at foundSpans
      · obtain ⟨_, _, rfl⟩ := Option.map_eq_some_iff.mp foundSpans
        simp
      · cases foundSpans

theorem ends_behindPostfixes_extends (draft : Draft) (closedByBlock : Bool) :
    Ends (behindPostfixes grammar draft closedByBlock) s (fun read _ => draft.Extends read.1)
      fun _ _ => True := by
  unfold behindPostfixes
  split
  · exact ends_pure (.of_terms rfl)
  · apply (Tandem.ends_somehow _ s).bind _ fun _ _ _ => trivial
    intro _ t _
    rw [ends_position_bind, ends_text_bind]
    split
    · exact ends_pure (.of_terms rfl)
    · split
      · exact ends_pure (.of_terms rfl)
      · rename_i written found
        apply (Tandem.ends_somehow _ t).bind _ fun _ _ _ => trivial
        have same : draft.Extends draft := .of_terms rfl
        refine fun _ u _ => ends_pure (same.addTerm ?_)
        rintro _ ⟨⟩
        exact filled_of_operatorAt named found

theorem ends_afterOperand_extends (context : Context) (draft : Draft) (item : ItemId) :
    Ends (afterOperand grammar inner context draft item) s (fun read _ => draft.Extends read.1)
      fun _ _ => True := by
  rw [afterOperand_eq]
  apply (ends_modifyOperand_extends draft item).bind _ fun _ _ _ => trivial
  intro after t extends_
  rw [ends_remaining_bind]
  apply (Tandem.ends_somehow _ t).bind _ fun _ _ _ => trivial
  intro run u _
  have operand : draft.Extends (after.addTerm (.operand item)) := extends_.addTerm (by simp)
  have behind : draft.Extends (withOperand after item run.rejected) := by
    cases run.rejected with
    | none => exact operand
    | some rejected => exact operand.addTerm (by simp)
  exact (ends_behindPostfixes_extends named _ _).imp (fun _ _ more => behind.trans more)
    fun _ _ _ => trivial

/-- An operator that has been found has words. -/
theorem ends_plainOperand_filled (terms : List Term) : Ends (plainOperand grammar inner terms) s
    (fun found _ => ∀ written, found = .operators written → written.parts ≠ []) fun _ _ => True := by
  have asOperand : ∀ (step : Parse ItemId) (t : ParseState), Ends (do return .operand (← step) : Parse Found) t
      (fun found _ => ∀ written, found = .operators written → written.parts ≠ []) fun _ _ => True := by
    intro step t
    apply (Tandem.ends_somehow _ t).bind _ fun _ _ _ => trivial
    exact fun item u _ => ends_pure fun _ => nofun
  unfold plainOperand
  rw [ends_position_bind, ends_text_bind]
  split
  · exact ends_pure fun _ => nofun
  · split
    · exact ends_pure fun _ => nofun
    · split
      · exact asOperand _ s
      · split
        · exact asOperand _ s
        · split
          · exact asOperand _ s
          · split
            · exact asOperand _ s
            · split
              · rename_i written found
                apply (Tandem.ends_somehow _ s).bind _ fun _ _ _ => trivial
                refine fun _ t _ => ends_pure ?_
                rintro _ ⟨⟩
                exact filled_of_operatorAt named found
              · apply (Tandem.ends_somehow _ s).bind _ fun _ _ _ => trivial
                intro literal t _
                cases literal with
                | some item => exact ends_pure fun _ => nofun
                | none => trivial

variable (plain : grammar.extensions = [])

include plain

theorem ends_operand_filled (draft : Draft) : Ends (operand grammar inner draft) s
    (fun read _ => ∀ written, read.1 = .operators written → written.parts ≠ []) fun _ _ => True := by
  rw [operand_of_plain plain]
  apply (Tandem.ends_somehow _ s).bind _ fun _ _ _ => trivial
  intro _ t _
  exact (ends_plainOperand_filled named draft.terms).bind (fun _ u filled => ends_pure filled)
    fun _ _ _ => trivial

theorem ends_pass_extends (context : Context) (draft : Draft) :
    Ends (pass grammar inner context draft) s (fun read _ => draft.Extends read.1) fun _ _ => True := by
  unfold pass
  rw [ends_remaining_bind]
  apply (Tandem.ends_somehow _ s).bind _ fun _ _ _ => trivial
  rintro ⟨pending, item⟩ t _
  have same : ∀ modifiers, draft.Extends { draft with pending := modifiers } := fun _ => .of_terms rfl
  have operands : ∀ (modifiers : Modifiers) (id : ItemId) (u : ParseState),
      Ends (afterOperand grammar inner context { draft with pending := modifiers } id) u
        (fun read _ => draft.Extends read.1) fun _ _ => True := fun modifiers id u =>
    (ends_afterOperand_extends named context _ id).imp (fun _ _ more => (same modifiers).trans more)
      fun _ _ _ => trivial
  cases item with
  | some id => exact operands pending id t
  | none =>
      apply (ends_operand_filled named plain { draft with pending }).bind _ fun _ _ _ => trivial
      rintro ⟨found, left⟩ u filled
      cases found with
      | operand id => exact operands left id u
      | operators written =>
          apply (ends_settlePending_extends { draft with pending := left }).bind _ fun _ _ _ => trivial
          intro after v extends_
          refine ends_pure (((same left).trans extends_).addTerm ?_)
          rintro _ ⟨⟩
          exact filled written rfl
      | stray id =>
          dsimp only
          split
          · exact ends_pure ((same left).addTerm fun _ => nofun)
          · apply (Tandem.ends_somehow _ u).bind _ fun _ _ _ => trivial
            intro stray v _
            have first : draft.Extends ({ draft with pending := {} }.addTerm (.stray stray)) :=
              (same {}).addTerm fun _ => nofun
            exact ends_pure (first.addTerm fun _ => nofun)
      | prefixed id => exact ends_pure (same _)
      | nothing => exact ends_pure (same left)

theorem ends_passes_extends (context : Context) (count : Nat) : ∀ draft s,
    Ends (passes grammar inner context count draft) s (fun read _ => draft.Extends read.1)
      fun _ _ => True := by
  induction count with
  | zero => exact fun _ _ => trivial
  | succ count ih =>
      intro draft s
      apply (ends_pass_extends named plain context draft).bind _ fun _ _ _ => trivial
      rintro ⟨after, progress⟩ t extends_
      cases progress with
      | done closedByBlock => exact ends_pure extends_
      | again => exact (ih after t).imp (fun _ _ more => extends_.trans more) fun _ _ _ => trivial

end Named

end Parse

namespace Tandem

open Parse

variable {W : Tandem} {ahead : ParseState → Prop} {s s' t t' : ParseState}
  (lawful : W.Lawful) (heading : W.Heading ahead) {start : Nat} {inner inner' : Inner}
  (inside : W.Inside start inner inner')

/-! Drafts -/

structure FirmDraft (W : Tandem) (s : ParseState) (draft : Draft) : Prop where
  terms : ∀ term ∈ draft.terms, FirmTerm W s term
  pending : KnownModifiers s draft.pending
  lead : KnownModifiers s draft.lead

/-- The operators are due if all their words are to become tokens. -/
def DueDraft (W : Tandem) (draft : Draft) : Prop :=
  ∀ written, .operators written ∈ draft.terms → W.Awaits written

theorem FirmTerm.later {term : Term} (firm : FirmTerm W s term) (grown : Later s t) :
    FirmTerm W t term := by
  cases term with
  | operators written => exact firm
  | operand item => exact Known.later firm grown
  | stray item => exact Known.later firm grown

theorem FirmDraft.later {draft : Draft} (firm : FirmDraft W s draft) (grown : Later s t) :
    FirmDraft W t draft where
  terms term member := (firm.terms term member).later grown
  pending := firm.pending.later grown
  lead := firm.lead.later grown

theorem KnownModifiers.empty (s : ParseState) : KnownModifiers s {} := ⟨fun _ => nofun, fun _ => nofun⟩

theorem FirmDraft.addTerm {draft : Draft} {term : Term} (firm : FirmDraft W s draft)
    (also : FirmTerm W s term) : FirmDraft W s (draft.addTerm term) where
  terms other member := (List.mem_append.mp member).elim (firm.terms other) fun new =>
    List.mem_singleton.mp new ▸ also
  pending := firm.pending
  lead := firm.lead

theorem FirmDraft.withOperand {draft : Draft} {item : ItemId} {rejected : Option ItemId}
    (firm : FirmDraft W s draft) (known : Known s item) (others : ∀ id, rejected = some id → Known s id) :
    FirmDraft W s (withOperand draft item rejected) := by
  have first : FirmDraft W s (draft.addTerm (.operand item)) := firm.addTerm known
  cases rejected with
  | none => exact first
  | some id => exact first.addTerm (others id rfl)

theorem FirmDraft.withoutPending {draft : Draft} (firm : FirmDraft W s draft) :
    FirmDraft W s { draft with pending := {} } := ⟨firm.terms, .empty s, firm.lead⟩

theorem FirmDraft.leadWithPending {draft : Draft} (firm : FirmDraft W s draft) :
    FirmDraft W s draft.leadWithPending where
  terms := firm.terms
  pending := .empty s
  lead := {
    prefixes := fun item member => (List.mem_append.mp member).elim (firm.lead.prefixes item)
      (firm.pending.prefixes item)
    keywords := fun item member => (List.mem_append.mp member).elim (firm.lead.keywords item)
      (firm.pending.keywords item) }

@[simp]
theorem carryDraft_addTerm (draft : Draft) (term : Term) :
    W.carryDraft (draft.addTerm term) = (W.carryDraft draft).addTerm (W.carryTerm term) := by
  simp [carryDraft, Draft.addTerm]

theorem carryDraft_withOperand (draft : Draft) (item : ItemId) (rejected : Option ItemId) :
    W.carryDraft (withOperand draft item rejected) =
      withOperand (W.carryDraft draft) (W.rename item) (rejected.map W.rename) := by
  cases rejected <;> simp [withOperand, carryTerm]

@[simp]
theorem carryDraft_leadWithPending (draft : Draft) :
    W.carryDraft draft.leadWithPending = (W.carryDraft draft).leadWithPending := by
  simp [carryDraft, Draft.leadWithPending, carryModifiers, Modifiers.append]

@[simp]
theorem isEmpty_carryModifiers (modifiers : Modifiers) :
    (W.carryModifiers modifiers).isEmpty = modifiers.isEmpty := by
  simp [carryModifiers, Modifiers.isEmpty]

theorem Awaits.of_due {draft : Draft} {written : OperatorMatch}
    (due : DueDraft W (draft.addTerm (.operators written))) : W.Awaits written :=
  due written (List.mem_append_right _ List.mem_cons_self)

include lawful heading

theorem lock_settlePending {draft : Draft} (given : ahead s → W.Near s s' ∧ FirmDraft W s draft) :
    W.Locked ahead W.carryDraft s s' (settlePending draft) (settlePending (W.carryDraft draft))
      fun after t t' => FirmDraft W t after ∧ W.Stays s s' t t' := by
  unfold settlePending
  apply lock_ite heading
  · intro _
    simp [carryDraft]
  · exact fun _ => lock_pure fun isAhead _ => ⟨rfl, (given isAhead).2, (given isAhead).1.stays⟩
  · intro pending
    apply lock_ite heading
    · intro _
      simp [carryDraft]
    · intro _
      refine lock_pure fun isAhead _ => ⟨(carryDraft_leadWithPending draft).symm, ?_⟩
      exact ⟨(given isAhead).2.leadWithPending, (given isAhead).1.stays⟩
    · intro _
      apply (lock_misplaced lawful heading draft.pending fun isAhead => ?_).bind heading
      · intro series t t' grown made
        refine lock_pure fun isAhead _ => ⟨?_, ?_⟩
        · rw [carryDraft_addTerm]
          rfl
        · obtain ⟨isAhead, known, stays⟩ := made isAhead
          exact ⟨((given isAhead).2.later grown).withoutPending.addTerm known, stays⟩
      · obtain ⟨near, firm⟩ := given isAhead
        exact ⟨near, firm.pending, by simpa using pending⟩

theorem lock_modifyOperand {draft : Draft} {item : Nat}
    (given : ahead s → W.Near s s' ∧ FirmDraft W s draft ∧ item ≠ 0) :
    W.Locked ahead W.carryDraft s s' (modifyOperand draft item)
      (modifyOperand (W.carryDraft draft) (W.rename item))
      fun after t t' => FirmDraft W t after ∧ W.Stays s s' t t' := by
  unfold modifyOperand
  apply lock_ite heading
  · intro _
    simp [carryDraft]
  · intro _
    refine lock_pure fun isAhead _ => ⟨(carryDraft_leadWithPending draft).symm, ?_⟩
    exact ⟨(given isAhead).2.1.leadWithPending, (given isAhead).1.stays⟩
  · intro _
    apply (lock_attachModifiers lawful heading draft.pending fun isAhead => ?_).bind heading
    · intro _ t t' grown attached
      refine lock_pure fun isAhead _ => ⟨rfl, ?_⟩
      obtain ⟨isAhead, stays⟩ := attached isAhead
      exact ⟨((given isAhead).2.1.later grown).withoutPending, stays⟩
    · obtain ⟨near, firm, known⟩ := given isAhead
      exact ⟨near, known, firm.pending⟩

/-! Passes -/

/-- Behind a pass from `s` on. -/
structure Passed (W : Tandem) (s : ParseState) (draft : Draft) (t t' : ParseState) : Prop
    extends Beside W t t' where
  firm : FirmDraft W t draft
  further : s.cursor.position ≤ t.cursor.position

def carryPass (W : Tandem) : Draft × Progress → Draft × Progress := Prod.map W.carryDraft id

theorem lock_behindPostfixes (draft : Draft) (closedByBlock : Bool)
    (given : ahead s → W.Beside s s' ∧ FirmDraft W s draft) :
    W.Lock ahead (fun read => DueDraft W read.1) W.carryPass s s'
      (behindPostfixes W.grammar draft closedByBlock)
      (behindPostfixes W.grammar (W.carryDraft draft) closedByBlock)
      fun read t t' => W.Passed s read.1 t t' := by
  unfold behindPostfixes
  apply lock_ite heading fun _ => Iff.rfl
  · exact fun _ => lock_pure fun isAhead _ =>
      ⟨rfl, (given isAhead).1, (given isAhead).2, Nat.le_refl _⟩
  · intro _
    apply (lock_skipGap lawful heading fun isAhead => (given isAhead).1).bind heading
    intro _ t t' grown skipped
    rw [lock_position_bind, lock_text_bind]
    have ended : ∀ progress, W.Lock ahead (fun read => DueDraft W read.1) W.carryPass t t'
        (pure (draft, progress)) (pure (W.carryDraft draft, progress))
        fun read u u' => W.Passed s read.1 u u' := by
      intro progress
      refine lock_pure fun isAhead _ => ⟨rfl, ?_⟩
      obtain ⟨isAhead, beside, _, further⟩ := skipped isAhead
      exact ⟨beside, (given isAhead).2.later grown, further⟩
    apply lock_ite heading
    · intro isAhead
      obtain ⟨_, beside, front, _⟩ := skipped isAhead
      rw [beside.text, beside.other, beside.position, lawful.terminator _ front]
    · exact fun _ => ended _
    · intro _
      have operator_' : ahead t →
          W.grammar.operatorAt? t'.cursor.text t'.cursor.position true =
            (W.grammar.operatorAt? t.cursor.text t.cursor.position true).map W.carryMatch := by
        intro isAhead
        obtain ⟨_, beside, front, _⟩ := skipped isAhead
        rw [beside.text, beside.other, beside.position, lawful.operator _ _ front]
      generalize W.grammar.operatorAt? t'.cursor.text t'.cursor.position true = operator' at operator_' ⊢
      apply lock_subst heading operator_'
      cases operator_ : W.grammar.operatorAt? t.cursor.text t.cursor.position true with
      | none => exact ended _
      | some written =>
          apply lock_moveTo_bind
          refine lock_pure fun isAhead due => ⟨?_, ?_⟩
          · rw [carryPass, Prod.map_apply, carryDraft_addTerm]
            rfl
          · obtain ⟨isAhead, beside, front, further⟩ := skipped (heading.later (later_moved t _) isAhead)
            have stands := lawful.stands _ _ _ front (beside.text ▸ operator_) (Awaits.of_due due)
            obtain ⟨there, beyond⟩ := beside.behindOperator lawful stands.1 (Awaits.of_due due) stands.2
            exact ⟨there, (((given isAhead).2.later grown).later (later_moved t _)).addTerm stands.1,
              Nat.le_of_lt (Nat.lt_of_le_of_lt further beyond)⟩

include inside

theorem lock_afterOperand (context : Context) {draft : Draft} {item : Nat}
    (given : ahead s → W.Beside s s' ∧ start ≤ s.cursor.position ∧ FirmDraft W s draft ∧ Known s item) :
    W.Lock ahead (fun read => DueDraft W read.1) W.carryPass s s'
      (afterOperand W.grammar inner context draft item)
      (afterOperand W.grammar inner' context (W.carryDraft draft) (W.rename item))
      fun read t t' => W.Passed s read.1 t t' := by
  rw [afterOperand_eq, afterOperand_eq]
  apply (lock_modifyOperand lawful heading fun isAhead => ?_).bind heading
  · intro after t t' grown modified
    rw [lock_remaining_bind]
    have here : ahead t → W.Beside t t' ∧ t.cursor = s.cursor := by
      intro isAhead
      obtain ⟨isAhead, _, stays⟩ := modified isAhead
      exact ⟨(given isAhead).1.of_stays stays, stays.cursor⟩
    apply (lock_postfixes lawful heading inside context _ fun isAhead => ?_).bind heading
    · intro run u u' more trailed
      have firm : ahead u → FirmDraft W u (withOperand after item run.rejected) := by
        intro isAhead
        obtain ⟨isAhead, trailed⟩ := trailed isAhead
        obtain ⟨isBefore, firm, _⟩ := modified isAhead
        exact (firm.later more).withOperand (((given isBefore).2.2.2.later grown).later more) trailed.known
      have lock := lock_behindPostfixes lawful heading (withOperand after item run.rejected)
        run.closedByBlock fun isAhead => ⟨(trailed isAhead).2.toBeside, firm isAhead⟩
      rw [carryDraft_withOperand] at lock
      apply Lock.imp lock
      intro read v v' last isAhead _ passed
      obtain ⟨isAhead, trailed⟩ := trailed (heading.later last isAhead)
      have further := trailed.further
      rw [(here isAhead).2] at further
      exact ⟨passed.toBeside, passed.firm, Nat.le_trans further passed.further⟩
    · obtain ⟨beside, cursor⟩ := here isAhead
      obtain ⟨_, behind, _, known⟩ := given (modified isAhead).1
      exact ⟨beside, cursor.symm ▸ behind, known.later grown, Nat.lt_succ_self _, Nat.lt_succ_self _⟩
  · obtain ⟨beside, _, firm, known⟩ := given isAhead
    exact ⟨beside.toNear, firm, known.1⟩

/-- What `pass` does with what has been found. -/
def goOn (grammar : Grammar) (inner : Inner) (context : Context) (draft : Draft) :
    Found → Parse (Draft × Progress)
  | .operand item => afterOperand grammar inner context draft item
  | .operators written =>
      return ((← settlePending draft).addTerm (.operators written), .again)
  | .stray item =>
      if draft.pending.prefixes.isEmpty then return (draft.addTerm (.stray item), .again)
      else do
        let stray ← misplaced { prefixes := draft.pending.prefixes }
        let draft := { draft with pending := {} }.addTerm (.stray stray)
        return (draft.addTerm (.stray item), .again)
  | .prefixed item =>
      let pending := { draft.pending with prefixes := draft.pending.prefixes ++ [item] }
      return ({ draft with pending }, .again)
  | .nothing => return (draft, .done false)

omit lawful heading inside in
theorem pass_eq (grammar : Grammar) (inner : Inner) (context : Context) (draft : Draft) :
    pass grammar inner context draft = (do
      let (pending, item) ← modifiers grammar inner ((← remaining) + 1) draft.pending
      let draft := { draft with pending }
      match item with
      | some item => afterOperand grammar inner context draft item
      | none =>
          let (found, pending) ← operand grammar inner draft
          goOn grammar inner context { draft with pending } found) := rfl

theorem lock_goOn (origin : ParseState) (context : Context) {draft : Draft} {found : Found}
    (given : ahead s → W.FoundFrom origin found s s' ∧ start ≤ s.cursor.position ∧ FirmDraft W s draft) :
    W.Lock ahead (fun read => DueDraft W read.1) W.carryPass s s'
      (goOn W.grammar inner context draft found)
      (goOn W.grammar inner' context (W.carryDraft draft) (W.carryFound found))
      fun read t t' => W.Passed s read.1 t t' := by
  cases found with
  | operand item =>
      apply lock_afterOperand lawful heading inside context
      intro isAhead
      obtain ⟨took, behind, firm⟩ := given isAhead
      exact ⟨took.toBeside, behind, firm, took.known⟩
  | operators written =>
      apply (lock_settlePending lawful heading fun isAhead => ?_).bind heading
      · intro after t t' grown settled
        refine lock_pure fun isAhead _ => ⟨?_, ?_⟩
        · rw [carryPass, Prod.map_apply, carryDraft_addTerm]
          rfl
        · obtain ⟨isAhead, firm, stays⟩ := settled isAhead
          obtain ⟨⟨stands, beside, _⟩, _⟩ := given isAhead
          exact ⟨beside.of_stays stays, firm.addTerm stands,
            Nat.le_of_eq (congrArg Cursor.position stays.cursor.symm)⟩
      · obtain ⟨⟨_, beside, _⟩, _, firm⟩ := given isAhead
        exact ⟨beside.toNear, firm⟩
  | nothing =>
      refine lock_pure fun isAhead _ => ⟨rfl, ?_⟩
      obtain ⟨⟨beside, _⟩, _, firm⟩ := given isAhead
      exact ⟨beside, firm, Nat.le_refl _⟩
  | prefixed item => exact lock_pure fun isAhead _ => (given isAhead).1.elim
  | stray item =>
      have never : ¬ ahead s := fun isAhead => (given isAhead).1
      unfold goOn
      apply lock_ite heading
      · exact fun isAhead => absurd isAhead never
      · exact fun _ => lock_pure fun isAhead _ => absurd isAhead never
      · intro _
        apply (lock_misplaced lawful heading { prefixes := draft.pending.prefixes } fun isAhead =>
          absurd isAhead never).bind heading
        intro _ t t' grown _
        exact lock_pure fun isAhead _ => absurd (heading.later grown isAhead) never

omit inside lawful heading in
/-- An operator that has been found becomes a term. -/
theorem ends_goOn_operators (grammar : Grammar) (inner : Inner) (context : Context) (draft : Draft)
    (found : Found) : Ends (goOn grammar inner context draft found) s
    (fun read _ => ∀ written, found = .operators written → .operators written ∈ read.1.terms)
    fun _ _ => True := by
  cases found with
  | operators written =>
      apply (ends_somehow _ s).bind _ fun _ _ _ => trivial
      intro after t _
      refine ends_pure ?_
      rintro _ ⟨⟩
      exact List.mem_append_right _ List.mem_cons_self
  | _ => exact (ends_somehow _ s).imp (fun _ _ _ _ => nofun) fun _ _ _ => trivial

/-- Behind a pass that has not come to the end of the segment something has been read. -/
structure PassedOn (W : Tandem) (s : ParseState) (read : Draft × Progress) (t t' : ParseState) : Prop
    extends Passed W s read.1 t t' where
  beyond : read.2 ≠ .done false → s.cursor.position < t.cursor.position

theorem lock_pass (context : Context) {draft : Draft}
    (given : ahead s → W.Beside s s' ∧ start ≤ s.cursor.position ∧ FirmDraft W s draft) :
    W.Lock ahead (fun read => DueDraft W read.1) W.carryPass s s' (pass W.grammar inner context draft)
      (pass W.grammar inner' context (W.carryDraft draft)) (W.PassedOn s) := by
  rw [pass_eq, pass_eq, lock_remaining_bind]
  apply (lock_modifiers lawful heading inside _ fun isAhead => ?_).bind heading
  · rintro ⟨pending, item⟩ t t' grown modified
    have firm : ahead t → FirmDraft W t { draft with pending } := by
      intro isAhead
      obtain ⟨isAhead, modified⟩ := modified isAhead
      have before := (given isAhead).2.2.later grown
      exact ⟨before.terms, modified.known, before.lead⟩
    have behind : ahead t → start ≤ t.cursor.position := by
      intro isAhead
      obtain ⟨isAhead, modified⟩ := modified isAhead
      exact Nat.le_trans (given isAhead).2.1 modified.further
    cases item with
    -- The braces among the prefixes were the operand.
    | some item =>
        have known : ahead t → Known t item ∧ s.cursor.position < t.cursor.position := fun isAhead =>
          (modified isAhead).2.operand item rfl
        apply (lock_afterOperand lawful heading inside context fun isAhead => ?_).imp
        · intro read u u' more isAhead _ passed
          have further := (known (heading.later more isAhead)).2
          exact ⟨⟨passed.toBeside, passed.firm, Nat.le_trans (Nat.le_of_lt further) passed.further⟩,
            fun _ => Nat.lt_of_lt_of_le further passed.further⟩
        · exact ⟨(modified isAhead).2.toBeside, behind isAhead, firm isAhead, (known isAhead).1⟩
    | none =>
        apply (lock_operand lawful heading inside { draft with pending } fun isAhead => ?_).bind_due
          heading (ends_somehow _ t)
        · rintro ⟨found, left⟩ u _
          apply (ends_goOn_operators W.grammar inner context { draft with pending := left } found).imp
          · exact fun read v listed _ due written isFound => due written (listed written isFound)
          · exact fun _ v _ rigid _ written _ part _ _ => lawful.expects rigid _ _
        · rintro ⟨found, left⟩ u u' more read
          have heading := heading.given (W.DueFound found)
          have there : ahead u ∧ W.DueFound found → ahead s ∧ W.FoundFrom t found u u' ∧
              s.cursor.position ≤ t.cursor.position ∧ start ≤ t.cursor.position ∧
              FirmDraft W u { draft with pending := left } := by
            rintro ⟨isAhead, due⟩
            obtain ⟨isAhead, rfl, found⟩ := read isAhead due
            obtain ⟨isBefore, modified⟩ := modified isAhead
            exact ⟨isBefore, found, modified.further, behind isAhead, (firm isAhead).later more⟩
          by_cases isNothing : found = .nothing
          -- Nothing more stands here, and neither run goes on.
          · subst isNothing
            refine lock_pure fun isAhead _ => ⟨rfl, ?_⟩
            obtain ⟨_, ⟨beside, onward⟩, further, _, firm⟩ := there isAhead
            exact ⟨⟨beside, firm, Nat.le_trans further onward⟩, fun goesOn => absurd rfl goesOn⟩
          · apply (lock_goOn lawful heading inside t context fun isAhead => ?_).imp
            · intro result v v' last isAhead _ passed
              obtain ⟨_, found, further, _⟩ := there (heading.later last isAhead)
              have beyond := Nat.lt_of_le_of_lt further (found.beyond isNothing)
              exact ⟨⟨passed.toBeside, passed.firm, Nat.le_trans (Nat.le_of_lt beyond) passed.further⟩,
                fun _ => Nat.lt_of_lt_of_le beyond passed.further⟩
            · obtain ⟨_, found, _, behind, firm⟩ := there isAhead
              exact ⟨found, Nat.le_trans behind (Nat.le_of_lt (found.beyond isNothing)), firm⟩
        · exact ⟨(modified isAhead).2.toBeside, behind isAhead⟩
  · obtain ⟨beside, behind, firm⟩ := given isAhead
    exact ⟨beside, behind, firm.pending, Nat.lt_succ_self _, Nat.lt_succ_self _⟩

omit lawful heading inside in
theorem passes_succ (grammar : Grammar) (inner : Inner) (context : Context) (count : Nat) (draft : Draft) :
    passes grammar inner context (count + 1) draft = (do
      match ← pass grammar inner context draft with
      | (draft, .again) => passes grammar inner context count draft
      | (draft, .done closedByBlock) => return (draft, closedByBlock)) := rfl

/-- Behind the passes of a segment. -/
structure PassedAll (W : Tandem) (s : ParseState) (read : Draft × Bool) (t t' : ParseState) : Prop
    extends Passed W s read.1 t t' where
  beyond : read.2 = true → s.cursor.position < t.cursor.position

def carryPasses (W : Tandem) : Draft × Bool → Draft × Bool := Prod.map W.carryDraft id

theorem lock_passes (context : Context) (count : Nat) :
    ∀ {count' : Nat} {draft : Draft} {s s' : ParseState},
      (ahead s → W.Beside s s' ∧ start ≤ s.cursor.position ∧ FirmDraft W s draft ∧
        s'.cursor.remaining < count') →
      W.Lock ahead (fun read => DueDraft W read.1) W.carryPasses s s'
        (passes W.grammar inner context count draft)
        (passes W.grammar inner' context count' (W.carryDraft draft)) (W.PassedAll s) := by
  induction count generalizing ahead with
  | zero => exact fun _ => lock_stuckHere heading
  | succ count ih =>
      intro count' draft s s' given
      have filled : ahead s → count' = count' - 1 + 1 := by
        intro isAhead
        obtain ⟨_, _, _, enough⟩ := given isAhead
        omega
      apply lock_subst heading filled
      rw [passes_succ, passes_succ]
      apply (lock_pass lawful heading inside context fun isAhead => ?_).bind_due heading
        (ends_somehow _ s)
      · -- What is due in the end is due now, since no term is taken back.
        rintro ⟨after, progress⟩ t _
        have owed : ∀ {rest : Parse (Draft × Bool)},
            Ends rest t (fun read _ => after.Extends read.1) (fun _ _ => True) →
            Ends rest t (fun read u => ahead u → DueDraft W read.1 → DueDraft W after)
              fun _ u => W.rigid → ahead u → DueDraft W after := by
          intro rest kept
          apply kept.imp
          · exact fun read u more _ due written listed => due written (more.terms _ listed)
          · exact fun _ u _ rigid _ written _ part _ _ => lawful.expects rigid _ _
        cases progress with
        | done closedByBlock => exact owed (ends_pure (.of_terms rfl))
        | again => exact owed (ends_passes_extends lawful.named lawful.plain context count after t)
      · rintro ⟨after, progress⟩ t t' grown passed
        have heading := heading.given (DueDraft W after)
        have there : ahead t ∧ DueDraft W after → ahead s ∧ W.PassedOn s (after, progress) t t' :=
          fun known => passed known.1 known.2
        cases progress with
        -- The pass has been the last one.
        | done closedByBlock =>
            refine lock_pure fun isAhead _ => ⟨rfl, ?_⟩
            obtain ⟨_, passed⟩ := there isAhead
            refine ⟨passed.toPassed, ?_⟩
            rintro rfl
            exact passed.beyond (by rintro ⟨⟩)
        -- Each further pass has less of the text before it.
        | again =>
            apply (ih heading fun isAhead => ?_).imp
            · intro read u u' more isAhead _ all
              obtain ⟨_, passed⟩ := there (heading.later more isAhead)
              exact ⟨⟨all.toBeside, all.firm, Nat.le_trans passed.further all.further⟩,
                fun _ => Nat.lt_of_lt_of_le (passed.beyond (by rintro ⟨⟩)) all.further⟩
            · obtain ⟨isAhead, passed⟩ := there isAhead
              obtain ⟨before, behind, _, enough⟩ := given isAhead
              have beyond := passed.beyond (by rintro ⟨⟩)
              have fewer := before.fewer lawful passed.toBeside beyond
              exact ⟨passed.toBeside, by omega, passed.firm, by omega⟩
      · obtain ⟨beside, behind, firm, _⟩ := given isAhead
        exact ⟨beside, behind, firm⟩

/-! Segments -/

/-- What is made of the terms of a segment. -/
def finish (closedByBlock : Bool) (draft : Draft) : Option ItemId → Parse Segment
  | some item => do
      attachModifiers item draft.lead
      return ⟨some item, closedByBlock⟩
  | none =>
      if draft.lead.isEmpty then return ⟨none, closedByBlock⟩
      else return ⟨some (← misplaced draft.lead), closedByBlock⟩

/-- What `segmentWith` does behind the passes. -/
def settle (closedByBlock : Bool) (draft : Draft) : Parse Segment := do
  let after ← settlePending draft
  finish closedByBlock after (← resolve after.terms)

omit lawful heading inside in
theorem segmentWith_eq (grammar : Grammar) (inner : Inner) (context : Context) :
    segmentWith grammar inner context = (do
      let (draft, closedByBlock) ← passes grammar inner context ((← remaining) + 1) {}
      settle closedByBlock draft) := rfl

omit lawful heading inside in
theorem growing_finish (closedByBlock : Bool) (draft : Draft) (found : Option ItemId) :
    Growing (finish closedByBlock draft found) := by
  have attaches : ∀ owner, Growing (attachModifiers owner draft.lead) := fun owner =>
    growing_bind (growing_forM (growing_addPrefix owner)) fun _ => growing_forM (growing_addKeyword owner)
  cases found with
  | some item => exact growing_bind (attaches item) fun _ => growing_pure _
  | none =>
      apply growing_ite (growing_pure _)
      refine growing_bind ?_ fun _ => growing_pure _
      apply growing_bind growing_forest
      intro forest
      apply growing_bind (growing_report _ _ _)
      intro _
      apply growing_bind (growing_create _ _)
      intro series
      exact growing_bind (attaches series) fun _ => growing_pure series

omit lawful inside in
/-- In the end every word of a draft has become a token. -/
theorem ends_settle_due (closedByBlock : Bool) {draft : Draft}
    (filled : ∀ written, .operators written ∈ draft.terms → written.parts ≠ []) :
    Ends (settle closedByBlock draft) s (fun _ t => ahead t → DueDraft W draft) fun _ _ => True := by
  have each : ∀ i : OperatorMatch × (Nat × String), Ends (settle closedByBlock draft) s
      (fun _ t => .operators i.1 ∈ draft.terms → i.2 ∈ i.1.parts → Tokened t i.2) fun _ _ => True := by
    rintro ⟨written, word⟩
    by_cases listed : .operators written ∈ draft.terms ∧ word ∈ written.parts
    · apply (ends_settlePending_extends draft).bind _ fun _ _ _ => trivial
      intro after t extends_
      have filledAfter : ∀ written, .operators written ∈ after.terms → written.parts ≠ [] :=
        fun other member => (extends_.filled other member).elim (filled other) id
      have writes := writes_bind (writes_resolve filledAfter (extends_.terms _ listed.1) listed.2)
        (growing_finish closedByBlock after)
      exact (writes t).imp (fun _ _ tokened _ _ => tokened) fun _ _ _ => trivial
    · exact (ends_somehow _ s).imp (fun _ _ _ isTerm isWord => absurd ⟨isTerm, isWord⟩ listed)
        fun _ _ _ => trivial
  apply (Ends.all each).imp _ fun _ _ _ => trivial
  intro _ t tokened isAhead written isTerm part isPart filledPart
  obtain ⟨id, item, found, isToken, start, length⟩ := tokened (written, part) isTerm isPart
  have awaited := heading.awaited isAhead found isToken (length ▸ filledPart)
  rwa [start, length] at awaited

omit inside in
theorem lock_finish {closedByBlock : Bool} {draft : Draft} {found : Option Nat}
    (given : ahead s → W.Near s s' ∧ KnownModifiers s draft.lead ∧ ∀ item, found = some item → Known s item) :
    W.Locked ahead W.carrySegment s s' (finish closedByBlock draft found)
      (finish closedByBlock (W.carryDraft draft) (found.map W.rename)) fun segment t t' =>
        ((∀ item, segment.item = some item → Known t item) ∧ segment.closedByBlock = closedByBlock) ∧
          W.Stays s s' t t' := by
  cases found with
  | some item =>
      apply (lock_attachModifiers lawful heading draft.lead fun isAhead => ?_).bind heading
      · intro _ t t' grown attached
        refine lock_pure fun isAhead _ => ⟨rfl, ⟨?_, rfl⟩, (attached isAhead).2⟩
        rintro _ ⟨⟩
        exact ((given (attached isAhead).1).2.2 item rfl).later grown
      · obtain ⟨near, known, item⟩ := given isAhead
        exact ⟨near, (item _ rfl).1, known⟩
  | none =>
      apply lock_ite heading
      · intro _
        simp [carryDraft]
      · exact fun _ => lock_pure fun isAhead _ => ⟨rfl, ⟨fun _ => nofun, rfl⟩, (given isAhead).1.stays⟩
      · intro filled
        apply (lock_misplaced lawful heading draft.lead fun isAhead => ?_).bind heading
        · intro series t t' _ made
          refine lock_pure fun isAhead _ => ⟨rfl, ⟨?_, rfl⟩, (made isAhead).2.2⟩
          rintro _ ⟨⟩
          exact (made isAhead).2.1
        · obtain ⟨near, known, _⟩ := given isAhead
          exact ⟨near, known, by simpa using filled⟩

omit inside in
theorem lock_settle {closedByBlock : Bool} {draft : Draft}
    (given : ahead s → W.Near s s' ∧ FirmDraft W s draft) :
    W.Locked ahead W.carrySegment s s' (settle closedByBlock draft)
      (settle closedByBlock (W.carryDraft draft)) fun segment t t' =>
        ((∀ item, segment.item = some item → Known t item) ∧ segment.closedByBlock = closedByBlock) ∧
          W.Stays s s' t t' := by
  apply (lock_settlePending lawful heading given).bind heading
  intro after t t' _ settled
  apply (lock_resolve lawful heading fun isAhead => ?_).bind heading
  · intro found u u' grown resolved
    apply (lock_finish lawful heading fun isAhead => ?_).imp
    · rintro segment v v' more isAhead _ ⟨known, third⟩
      obtain ⟨isAhead, _, second⟩ := resolved (heading.later more isAhead)
      obtain ⟨_, _, first⟩ := settled isAhead
      exact ⟨known, (first.trans second).trans third⟩
    · obtain ⟨isAhead, known, stays⟩ := resolved isAhead
      obtain ⟨_, firm, _⟩ := settled isAhead
      exact ⟨stays.near, firm.lead.later grown, known⟩
  · obtain ⟨_, firm, stays⟩ := settled isAhead
    exact ⟨stays.near, firm.terms⟩

theorem lock_segmentWith (context : Context)
    (given : ahead s → W.Beside s s' ∧ start ≤ s.cursor.position) :
    W.Locked ahead W.carrySegment s s' (segmentWith W.grammar inner context)
      (segmentWith W.grammar inner' context) (W.Parsed s) := by
  rw [segmentWith_eq, segmentWith_eq, Locked, lock_remaining_bind]
  have passed : W.Lock ahead (fun read => DueDraft W read.1) W.carryPasses s s'
      (passes W.grammar inner context (s.cursor.remaining + 1) {})
      (passes W.grammar inner' context (s'.cursor.remaining + 1) {}) (W.PassedAll s) := by
    apply lock_passes lawful heading inside context
    intro isAhead
    obtain ⟨beside, behind⟩ := given isAhead
    exact ⟨beside, behind, ⟨fun _ => by rintro ⟨⟩, .empty s, .empty s⟩, Nat.lt_succ_self _⟩
  apply passed.bind_due heading
    (ends_passes_extends lawful.named lawful.plain context (s.cursor.remaining + 1) {} s)
  · rintro ⟨draft, closedByBlock⟩ t extends_
    have filled : ∀ written, .operators written ∈ draft.terms → written.parts ≠ [] := fun written member =>
      (extends_.filled written member).elim (by rintro ⟨⟩) id
    apply (ends_settle_due heading closedByBlock filled).imp
    · exact fun segment u due isAhead _ => due isAhead
    · exact fun _ u _ rigid _ written _ part _ _ => lawful.expects rigid _ _
  · rintro ⟨draft, closedByBlock⟩ t t' grown passed
    have heading := heading.given (DueDraft W draft)
    apply (lock_settle lawful heading fun isAhead => ?_).imp
    · rintro segment u u' more isAhead _ ⟨⟨known, closed⟩, stays⟩
      obtain ⟨isAhead, due⟩ := heading.later more isAhead
      obtain ⟨_, passed⟩ := passed isAhead due
      refine ⟨passed.toBeside.of_stays stays, known, ?_, fun isClosed => ?_⟩
      · rw [stays.cursor]
        exact passed.further
      · rw [stays.cursor]
        exact passed.beyond (closed.symm.trans isClosed)
    · obtain ⟨_, passed⟩ := passed isAhead.1 isAhead.2
      exact ⟨passed.toNear, passed.firm⟩

omit inside in
/-- The other parse needs room enough for the segments inside, and the first has it if it goes on. -/
theorem lock_segment (depth : Nat) : ∀ {depth' : Nat} {context : Context} {s s' : ParseState},
    (ahead s → W.Beside s s' ∧ s'.cursor.remaining < depth') →
    W.Locked ahead W.carrySegment s s' (segment W.grammar depth context)
      (segment W.grammar depth' context) (W.Parsed s) := by
  induction depth generalizing ahead with
  | zero => exact fun _ => lock_stuckHere heading
  | succ depth ih =>
      intro depth' context s s' given
      have filled : ahead s → depth' = depth' - 1 + 1 := by
        intro isAhead
        obtain ⟨_, enough⟩ := given isAhead
        omega
      apply lock_subst heading filled
      have inside : ∃ start, W.Inside start (segment W.grammar depth) (segment W.grammar (depth' - 1)) ∧
          (ahead s → start ≤ s.cursor.position) := by
        by_cases isAhead : ahead s
        · obtain ⟨beside, enough⟩ := given isAhead
          refine ⟨s.cursor.position, fun _ heading context t t' known => ?_, fun _ => Nat.le_refl _⟩
          apply ih heading
          intro isAhead
          obtain ⟨there, further⟩ := known isAhead
          have fewer := beside.fewer lawful there further
          exact ⟨there, by omega⟩
        · -- Behind the end of the text there is nothing.
          refine ⟨W.text.size, fun _ heading context t t' known => ?_, fun holds => absurd holds isAhead⟩
          apply ih heading
          intro isAhead
          obtain ⟨there, further⟩ := known isAhead
          exact absurd (lawful.inside _ there.rest).1 (Nat.not_le_of_lt further)
      obtain ⟨start, inside, behind⟩ := inside
      exact lock_segmentWith lawful heading inside context fun isAhead => ⟨(given isAhead).1, behind isAhead⟩

end Tandem

end ExprLang
