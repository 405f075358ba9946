import ExprLang.Proofs.Parse.Segments
import ExprLang.Proofs.Parse.Trailing

/-!
The passes of a segment. Between two of them the draft holds all that has been parsed: what leads the
expression, the terms and what is pending, in text order. Each pass that is followed by another one
consumes something, so there are always enough of them.
-/

namespace ExprLang

open Held (item hollow word ids)

namespace Modifiers

theorem held_empty : Modifiers.held {} = [] := rfl

theorem eq_empty_of_isEmpty {modifiers : Modifiers} (none : modifiers.isEmpty = true) :
    modifiers = {} := by
  obtain ⟨prefixes, keywords⟩ := modifiers
  simp only [isEmpty, Bool.and_eq_true, List.isEmpty_iff] at none
  obtain ⟨rfl, rfl⟩ := none
  rfl

theorem append_empty (modifiers : Modifiers) : Modifiers.append {} modifiers = modifiers := rfl

end Modifiers

namespace Draft

/-- What has been parsed, without what is pending. -/
def settled (draft : Draft) : List Held := draft.lead.held ++ draft.terms.flatMap Term.held

theorem settled_addTerm (draft : Draft) (term : Term) :
    (draft.addTerm term).settled = draft.settled ++ term.held := by
  simp [settled, addTerm]

end Draft

namespace ParseState

/-- The parser holds a draft and what stands behind it. -/
structure Drafted (grammar : Grammar) (full : Prop) (base s : ParseState) (draft : Draft)
    (more : List Held) : Prop where
  standing : Standing grammar full base s (draft.settled ++ draft.pending.held ++ more)
  filled : ∀ written, .operators written ∈ draft.terms → written.parts ≠ []

/-- If a single operand is all of the expression, there is room in it for what leads. -/
def Roomy (forest : Forest) (draft : Draft) : Prop :=
  ∀ root, draft.terms = [.operand root] → forest.Fresh draft.lead root

/-- What the parser holds between two passes: nothing leads the expression before its first term, and
no keywords are pending. -/
structure Rested (grammar : Grammar) (full : Prop) (base s : ParseState) (draft : Draft) :
    Prop extends Drafted grammar full base s draft [] where
  roomy : Roomy s.forest draft
  begins : draft.terms = [] → draft.lead = {}
  noKeywords : draft.pending.keywords = []

variable {grammar : Grammar} {full : Prop} {base s t : ParseState} {draft : Draft} {more : List Held}

/-- There is as much room as there was if nothing has been done to what was there. -/
theorem Roomy.untouched {left : List Held} {pending : Modifiers} (roomy : Roomy s.forest draft)
    (standing : Standing grammar full base s (draft.settled ++ left))
    (untouched : Forest.Untouched s.forest.size s.forest t.forest) :
    Roomy t.forest { draft with pending } := by
  intro root single
  have member : root ∈ ids (draft.settled ++ left) := by
    have only : draft.terms = [.operand root] := single
    simp [Draft.settled, only, Term.held]
  obtain ⟨parts, kind⟩ := untouched.same ((standing.held root).mp member).2.1
  obtain ⟨⟨found, here, complex⟩, noPrefixes, keywords⟩ := roomy root single
  obtain ⟨after, there, isKind⟩ := Option.map_eq_some_iff.mp (kind.trans (Forest.kind_of_get here))
  exact ⟨⟨after, there, by rw [Item.isToken, isKind]; exact complex⟩,
    parts ▸ noPrefixes, parts ▸ keywords⟩

theorem roomy_addTerm {forest : Forest} {term : Term}
    (fresh : draft.terms = [] → ∀ root, term = .operand root → forest.Fresh draft.lead root) :
    Roomy forest (draft.addTerm term) := by
  intro root single
  simp only [Draft.addTerm, List.append_eq_singleton_iff] at single
  rcases single with ⟨noTerms, isTerm⟩ | ⟨_, never⟩
  · exact fresh noTerms root (List.singleton_injective isTerm)
  · cases never

/-- A term goes behind the draft. -/
theorem Drafted.addTerm (term : Term) {rest : List Held}
    (drafted : Drafted grammar full base s draft (term.held ++ rest)) (none : draft.pending = {})
    (filled : ∀ written, term = .operators written → written.parts ≠ []) :
    Drafted grammar full base s (draft.addTerm term) rest where
  standing := by
    have standing := drafted.standing
    rw [none, Modifiers.held_empty] at standing
    rw [Draft.settled_addTerm]
    simpa [Draft.addTerm, none, Modifiers.held_empty] using standing
  filled written member := by
    rcases List.mem_append.mp member with old | new
    · exact drafted.filled written old
    · exact filled written (List.mem_singleton.mp new).symm

/-- Behind a term the next pass begins. -/
theorem Drafted.rested {term : Term} (drafted : Drafted grammar full base s (draft.addTerm term) [])
    (none : draft.pending = {}) (roomy : Roomy s.forest (draft.addTerm term)) :
    Rested grammar full base s (draft.addTerm term) where
  toDrafted := drafted
  roomy := roomy
  begins empty := absurd empty (by simp [Draft.addTerm])
  noKeywords := by simp [Draft.addTerm, none]

/-- Without terms what is pending leads the expression. -/
theorem Drafted.lead (drafted : Drafted grammar full base s draft more) (first : draft.terms = [])
    (begins : draft.lead = {}) : Drafted grammar full base s draft.leadWithPending more where
  standing := by
    have standing := drafted.standing
    simpa [Draft.leadWithPending, Draft.settled, first, begins, Modifiers.append_empty,
      Modifiers.held_empty] using standing
  filled := drafted.filled

end ParseState

open ParseState

namespace Parse

variable {grammar : Grammar} {full : Prop} {base s t : ParseState} {draft : Draft} {more : List Held}

/-- Nothing is pending any more. -/
theorem ends_settlePending (draft : Draft) (drafted : Drafted grammar full base s draft more)
    (begins : draft.terms = [] → draft.lead = {}) (roomy : Roomy s.forest draft) :
    Ends (settlePending draft) s
      (fun after t => Drafted grammar full base t after more ∧ after.pending = {} ∧
        Roomy t.forest after ∧ t.cursor = s.cursor) (fun _ _ => False) := by
  unfold settlePending
  split
  · rename_i none
    exact ends_pure ⟨drafted, Modifiers.eq_empty_of_isEmpty none, roomy, rfl⟩
  · rename_i some
    split
    · rename_i noTerms
      have first : draft.terms = [] := List.isEmpty_iff.mp noTerms
      refine ends_pure ⟨drafted.lead first (begins first), rfl, fun root single => ?_, rfl⟩
      exact absurd (first.symm.trans single) (by simp)
    · have placed := drafted.standing
      refine (ends_misplaced draft.settled more (Bool.eq_false_iff.mpr some)
        placed.toHolding fun _ => placed.inside).bind ?_ fun _ _ never => never.elim
      rintro series t ⟨holding, cursor⟩
      have standing := holding.standing (by rw [cursor]) (by rw [cursor]; exact placed.within)
      have without : Drafted grammar full base t { draft with pending := {} }
          ((Term.stray series).held ++ more) :=
        ⟨by simpa [Draft.settled, Modifiers.held_empty, Term.held] using standing, drafted.filled⟩
      exact ends_pure ⟨without.addTerm _ rfl (by simp), rfl, roomy_addTerm (by simp), cursor⟩

/-- Modifiers lead the expression with its first operand, or belong to a later one. -/
theorem ends_modifyOperand {id : Nat} (drafted : Drafted grammar full base s draft [item id])
    (begins : draft.terms = [] → draft.lead = {}) (fresh : s.forest.Fresh draft.pending id) :
    Ends (modifyOperand draft id) s
      (fun after t => Drafted grammar full base t after [item id] ∧ after.pending = {} ∧
        (after.terms = [] → t.forest.Fresh after.lead id) ∧
        (∃ found, t.forest.get? id = some found ∧ found.isToken = false) ∧
        t.cursor = s.cursor) (fun _ _ => False) := by
  unfold modifyOperand
  split
  · rename_i noTerms
    have first : draft.terms = [] := List.isEmpty_iff.mp noTerms
    refine ends_pure ⟨drafted.lead first (begins first), rfl, fun _ => ?_, fresh.complex, rfl⟩
    simpa [Draft.leadWithPending, begins first, Modifiers.append_empty] using fresh
  · rename_i terms
    have placed := drafted.standing
    refine (ends_attachModifiers draft.settled fresh placed.toHolding).bind ?_ fun _ _ never => never.elim
    rintro _ t ⟨holding, cursor, kind⟩
    refine ends_pure ⟨⟨?_, drafted.filled⟩, rfl, ?_, ?_, cursor⟩
    · have standing := holding.standing (by rw [cursor]) (by rw [cursor]; exact placed.within)
      simpa [Draft.settled, Modifiers.held_empty] using standing
    · exact fun none => absurd (List.isEmpty_iff.mpr none) terms
    · obtain ⟨found, here, complex⟩ := fresh.complex
      have same := kind.trans (Forest.kind_of_get here)
      obtain ⟨after, there, isKind⟩ := Option.map_eq_some_iff.mp same
      exact ⟨after, there, by rw [Item.isToken, isKind]; exact complex⟩

/-- A custom expression without a place goes behind the prefixes in front of it, which have no operand
either. -/
theorem ends_strayCustom (draft : Draft) {id : Nat} (drafted : Drafted grammar full base s draft [item id])
    (noKeywords : draft.pending.keywords = []) :
    Ends (if draft.pending.prefixes.isEmpty then
        return (draft.addTerm (.stray id), Progress.again)
      else do
        let stray ← misplaced { prefixes := draft.pending.prefixes }
        let draft := { draft with pending := {} }.addTerm (.stray stray)
        return (draft.addTerm (.stray id), .again)) s
      (fun result t => result.2 = .again ∧ Rested grammar full base t result.1 ∧
        t.cursor = s.cursor) (fun _ _ => False) := by
  split
  · rename_i noPrefixes
    have none : draft.pending = {} := Modifiers.eq_empty_of_isEmpty
      (by rw [Modifiers.isEmpty, noPrefixes, noKeywords]; rfl)
    have added := drafted.addTerm (.stray id) none (by simp)
    exact ends_pure ⟨rfl, added.rested none (roomy_addTerm (by simp)), rfl⟩
  · rename_i some
    have held : draft.pending.held = Modifiers.held { prefixes := draft.pending.prefixes } := by
      rw [Modifiers.held, noKeywords, Modifiers.held]
    have placed := drafted.standing
    rw [held] at placed
    refine (ends_misplaced draft.settled [item id] (by simpa [Modifiers.isEmpty] using some)
      placed.toHolding fun _ => placed.inside).bind ?_ fun _ _ never => never.elim
    rintro series t ⟨holding, cursor⟩
    have standing := holding.standing (by rw [cursor]) (by rw [cursor]; exact placed.within)
    have without : Drafted grammar full base t { draft with pending := {} }
        ((Term.stray series).held ++ ((Term.stray id).held ++ [])) :=
      ⟨by simpa [Term.held, Draft.settled, Modifiers.held_empty] using standing, drafted.filled⟩
    have first := without.addTerm _ rfl (by simp)
    have second := first.addTerm _ rfl (by simp)
    exact ends_pure ⟨rfl, second.rested rfl (roomy_addTerm (by simp)), cursor⟩

/-- How a pass leaves the draft. Unless a code block closed it, a segment is done at a terminator. -/
structure Passed (grammar : Grammar) (full : Prop) (base s : ParseState) (draft : Draft)
    (progress : Progress) (t : ParseState) : Prop extends Drafted grammar full base t draft [] where
  roomy : Roomy t.forest draft
  begins : draft.terms = [] → draft.lead = {}
  again : progress = .again → draft.pending.keywords = [] ∧ s.cursor.position < t.cursor.position
  done : progress = .done false → t.Settled ∧
    grammar.isTerminatorAt t.cursor.text t.cursor.position = true
  closed : progress = .done true → base.cursor.position < t.cursor.position

theorem drafted_withOperand {id : Nat} {rejected : Option ItemId}
    (drafted : Drafted grammar full base s draft (item id :: rejected.toList.map item))
    (none : draft.pending = {}) (fresh : draft.terms = [] → s.forest.Fresh draft.lead id) :
    Rested grammar full base s (withOperand draft id rejected) ∧
      (withOperand draft id rejected).pending = {} := by
  cases rejected with
  | none =>
      have roomy : Roomy s.forest (draft.addTerm (.operand id)) := roomy_addTerm fun first root same => by
        cases same
        exact fresh first
      exact ⟨(drafted.addTerm (.operand id) none nofun).rested none roomy, none⟩
  | some rejected =>
      have first := drafted.addTerm (.operand id) none nofun
      have second := first.addTerm (.stray rejected) none nofun
      exact ⟨second.rested none (roomy_addTerm nofun), none⟩

theorem Met.standing {left : List Held} {pending : Modifiers} {found : Found}
    (met : Met grammar full base left pending found s) : ∃ row, Standing grammar full base s row := by
  cases found <;> exact ⟨_, met.1⟩

/-- What a step adds leaves the operand alone that is all of the expression so far. -/
theorem ends_roomy {α : Type} {step : Parse α} {ok : α → ParseState → Prop}
    {stopped : Stopped → ParseState → Prop} {result : α → Prop} {left : List Held}
    (contained : Contained s.forest.size result step) (ends : Ends step t ok stopped)
    (standing : Standing grammar full base s (draft.settled ++ left)) (above : Above s.forest.size s t)
    (roomy : Roomy s.forest draft) :
    Ends step t (fun value u => ok value u ∧ Above s.forest.size s u ∧
      ∀ pending, Roomy u.forest { draft with pending }) stopped := by
  refine (ends.and (contained t above.holds)).imp ?_ fun _ _ both => both.1
  rintro value u ⟨holds, _, further, _⟩
  have all := above.trans further
  exact ⟨holds, all, fun _ => roomy.untouched standing all.untouched⟩

section Setting

variable {whole : Text} {depth : Nat} (setting : Setting grammar full whole depth)

include setting

theorem ends_afterOperand {id : Nat} (context : Context) (origin : ParseState) (draft : Draft)
    (drafted : Drafted grammar full base s draft [item id])
    (begins : draft.terms = [] → draft.lead = {}) (fresh : s.forest.Fresh draft.pending id)
    (moved : origin.cursor.position < s.cursor.position)
    (same : base.cursor.text = whole) (shallow : s.cursor.remaining ≤ depth) :
    Ends (afterOperand grammar (segment grammar depth) context draft id) s
      (fun result t => Passed grammar full base origin result.1 result.2 t)
      (fun _ t => Halted grammar full base t) := by
  unfold afterOperand
  refine (ends_modifyOperand drafted begins fresh).bind ?_ fun _ _ never => never.elim
  rintro draft t ⟨drafted, noPending, fresh, complex, cursor⟩
  simp only [ends_remaining_bind]
  refine (ends_postfixes setting context drafted.standing complex same (by rwa [cursor])).bind ?_
    fun _ _ halted => halted
  rintro ⟨closedByBlock, rejected⟩ u ⟨standing, keeps, further⟩
  obtain ⟨rested, none⟩ := drafted_withOperand ⟨standing, drafted.filled⟩ noPending fun first => keeps _ (fresh first)
  rw [cursor] at further
  have beyond : base.cursor.position < u.cursor.position := by
    have inside := standing.placed.inside (List.mem_append_right _ List.mem_cons_self)
    exact Nat.lt_of_le_of_lt inside.1 (Nat.lt_of_lt_of_le inside.2.1 inside.2.2)
  change Ends (if closedByBlock then pure (withOperand draft id rejected, Progress.done true) else _)
    u _ _
  split
  · exact ends_pure ⟨rested.toDrafted, rested.roomy, rested.begins, by rintro ⟨⟩, by rintro ⟨⟩, fun _ => beyond⟩
  · refine (standing_skipGap rested.standing).bind ?_ fun _ _ never => never.elim
    rintro _ v ⟨standing, settled, forest, text, more, _⟩
    have later : origin.cursor.position < v.cursor.position := by omega
    have roomy : Roomy v.forest (withOperand draft id rejected) := forest ▸ rested.roomy
    simp only [ends_position_bind, ends_text_bind]
    split
    · rename_i terminates
      exact ends_pure ⟨⟨standing, rested.filled⟩, roomy, rested.begins, by rintro ⟨⟩,
        fun _ => ⟨settled, terminates⟩, by rintro ⟨⟩⟩
    · split
      · exact ends_pure ⟨⟨standing, rested.filled⟩, roomy, rested.begins,
          fun _ => ⟨rested.noKeywords, later⟩, by rintro ⟨⟩, by rintro ⟨⟩⟩
      · rename_i written found
        refine (ends_operators setting.named standing settled found).bind ?_
          fun _ _ never => never.elim
        rintro _ w ⟨standing, filled, after, _⟩
        have drafted : Drafted grammar full base w (withOperand draft id rejected)
            ((Term.operators written).held ++ []) :=
          ⟨by simpa [none, Modifiers.held_empty, Term.held] using standing, rested.filled⟩
        have added := drafted.addTerm _ none fun other same => by cases same; exact filled
        have rested := added.rested none (roomy_addTerm (by simp))
        exact ends_pure ⟨added, rested.roomy, rested.begins,
          fun _ => ⟨rested.noKeywords, Nat.lt_trans later after⟩, by rintro ⟨⟩, by rintro ⟨⟩⟩

theorem ends_pass (context : Context) (rested : Rested grammar full base s draft)
    (same : base.cursor.text = whole) (shallow : s.cursor.remaining ≤ depth) :
    Ends (pass grammar (segment grammar depth) context draft) s
      (fun result t => Passed grammar full base s result.1 result.2 t)
      (fun _ t => Halted grammar full base t) := by
  have standing : Standing grammar full base s (draft.settled ++ draft.pending.held) := by
    simpa using rested.standing
  have inside := contained_segment grammar depth
  have floor := standing.sound.linked.closed.at_size
  unfold pass
  simp only [ends_remaining_bind]
  refine (ends_roomy (contained_modifiers inside _ _)
    (ends_modifiers setting.parses draft.settled same standing (fun some => absurd rested.noKeywords some)
      shallow (Nat.lt_succ_self _)) standing
    (above_of_eq floor rfl rfl) rested.roomy).bind ?_ fun _ _ halted => halted
  rintro ⟨pending, found⟩ t ⟨⟨there, further, moved, bare, nameable⟩, above, _⟩
  have text := there.text.trans rested.standing.text.symm
  have near := Nat.le_trans (Cursor.remaining_le text further) shallow
  cases found with
  | some id =>
      -- The braces among the prefixes were the operand.
      obtain ⟨bare, moved⟩ := bare id rfl
      exact ends_afterOperand setting context s { draft with pending }
        ⟨there, rested.filled⟩ rested.begins (bare.fresh pending) moved same near
  | none =>
      have there : Standing grammar full base t (draft.settled ++ pending.held) := by
        simpa using there
      have deeper : pending.keywords ≠ [] → t.cursor.remaining < depth := by
        intro some
        have moved := moved (by rintro rfl; exact some rested.noKeywords)
        exact Nat.lt_of_lt_of_le (Cursor.remaining_lt text moved there.within) shallow
      refine (ends_roomy (contained_operand inside _)
        (ends_operand setting { draft with pending } draft.settled same there
          (fun strict => nameable strict rfl) near deeper) standing above rested.roomy).bind ?_
            fun _ _ halted => halted
      rintro ⟨found, after⟩ u ⟨⟨met, more, consumed⟩, _, roomy⟩
      obtain ⟨_, here⟩ := met.standing
      have text := here.text.trans rested.standing.text.symm
      -- If keywords were found, they are what has been consumed.
      have beyond : found ≠ .nothing → s.cursor.position < u.cursor.position := by
        intro some
        by_cases none : pending.keywords = []
        · exact Nat.lt_of_le_of_lt further (consumed some none)
        · have moved := moved (by rintro rfl; exact none rested.noKeywords)
          exact Nat.lt_of_lt_of_le moved more
      cases found with
      | operand id =>
          obtain ⟨there, fresh⟩ := met
          have nearer := Nat.le_trans (Cursor.remaining_le text (Nat.le_trans further more)) shallow
          exact ends_afterOperand setting context s { draft with pending := after }
            ⟨there, rested.filled⟩ rested.begins fresh (beyond (by rintro ⟨⟩)) same nearer
      | operators written =>
          obtain ⟨there, filled⟩ := met
          refine (ends_settlePending { draft with pending := after }
            ⟨there, rested.filled⟩ rested.begins (roomy after)).bind ?_ fun _ _ never => never.elim
          rintro draft v ⟨drafted, none, _, cursor⟩
          have drafted : Drafted grammar full base v draft ((Term.operators written).held ++ []) := by
            simpa [Term.held] using drafted
          have added := drafted.addTerm _ none fun other same => by cases same; exact filled
          have rested := added.rested none (roomy_addTerm (by simp))
          exact ends_pure ⟨added, rested.roomy, rested.begins,
            fun _ => ⟨rested.noKeywords, by rw [cursor]; exact beyond (by rintro ⟨⟩)⟩,
            by rintro ⟨⟩, by rintro ⟨⟩⟩
      | stray id =>
          obtain ⟨there, noKeywords⟩ := met
          refine (ends_strayCustom { draft with pending := after }
            ⟨by simpa [Draft.settled] using there, rested.filled⟩ noKeywords).imp ?_
              fun _ _ never => never.elim
          rintro ⟨draft, progress⟩ v ⟨rfl, rested, cursor⟩
          exact ⟨rested.toDrafted, rested.roomy, rested.begins,
            fun _ => ⟨rested.noKeywords, by rw [cursor]; exact beyond (by rintro ⟨⟩)⟩,
            by rintro ⟨⟩, by rintro ⟨⟩⟩
      | prefixed id =>
          have noKeywords : after.keywords = [] := met.2
          have there : Standing grammar full base u (draft.settled ++ after.held ++ [item id]) := met.1
          refine ends_pure ⟨⟨?_, rested.filled⟩, roomy _, rested.begins,
            fun _ => ⟨noKeywords, beyond (by rintro ⟨⟩)⟩, by rintro ⟨⟩, by rintro ⟨⟩⟩
          simpa [Modifiers.held, noKeywords, Draft.settled] using there
      | nothing =>
          obtain ⟨there, settled, terminates⟩ := met
          exact ends_pure ⟨⟨by simpa [Draft.settled] using there, rested.filled⟩, roomy _, rested.begins,
            by rintro ⟨⟩, fun _ => ⟨settled, terminates⟩, by rintro ⟨⟩⟩

theorem ends_passes (context : Context) {count : Nat} (rested : Rested grammar full base s draft)
    (same : base.cursor.text = whole) (shallow : s.cursor.remaining ≤ depth)
    (enough : s.cursor.remaining < count) :
    Ends (passes grammar (segment grammar depth) context count draft) s
      (fun result t => ∃ origin, Passed grammar full base origin result.1 (.done result.2) t)
      (fun _ t => Halted grammar full base t) := by
  induction count generalizing s draft with
  | zero => exact absurd enough (Nat.not_lt_zero _)
  | succ count ih =>
      unfold passes
      refine (ends_pass setting context rested same shallow).bind ?_ fun _ _ halted => halted
      rintro ⟨draft, progress⟩ t passed
      cases progress with
      | again =>
          obtain ⟨noKeywords, moved⟩ := passed.again rfl
          have text := passed.standing.text.trans rested.standing.text.symm
          have fewer := Cursor.remaining_lt text moved passed.standing.within
          exact ih ⟨passed.toDrafted, passed.roomy, passed.begins, noKeywords⟩ (by omega) (by omega)
      | done closedByBlock => exact ends_pure ⟨s, passed⟩

/-- Everything that is held becomes one item. -/
theorem ends_segmentWith (context : Context) (ready : s.Ready grammar full)
    (same : s.cursor.text = whole) (shallow : s.cursor.remaining ≤ depth) :
    Ends (segmentWith grammar (segment grammar depth) context) s
      (fun result t => Segmented grammar full s t result) (fun _ t => Halted grammar full s t) := by
  have begins : Rested grammar full s s {} :=
    ⟨⟨by simpa [Draft.settled, Modifiers.held_empty] using ready.standing, nofun⟩, nofun,
      fun _ => rfl, rfl⟩
  unfold segmentWith
  simp only [ends_remaining_bind]
  refine (ends_passes setting context begins same shallow (Nat.lt_succ_self _)).bind ?_
    fun _ _ halted => halted
  rintro ⟨draft, closedByBlock⟩ t ⟨origin, passed⟩
  refine (ends_settlePending draft passed.toDrafted passed.begins passed.roomy).bind ?_
    fun _ _ never => never.elim
  rintro draft u ⟨drafted, none, roomy, cursor⟩
  have held : Standing grammar full s u (draft.lead.held ++ draft.terms.flatMap Term.held) := by
    simpa [Draft.settled, none, Modifiers.held_empty] using drafted.standing
  -- From here on the cursor stays where the last pass has left it.
  have segmented : ∀ {v : ParseState} {found : Option ItemId},
      Holding grammar full s v (found.toList.map item) u.cursor.position → v.cursor = u.cursor →
      Segmented grammar full s v ⟨found, closedByBlock⟩ := by
    intro v found holding same
    refine ⟨holding.standing (by rw [same]) (by rw [same]; exact held.within), fun goesOn => ?_,
      fun isClosed => ?_⟩
    · cases goesOn
      rw [ParseState.Settled, same, cursor]
      exact passed.done rfl
    · cases isClosed
      rw [same, cursor]
      exact passed.closed rfl
  refine (ends_resolve drafted.filled held.toHolding fun _ => held.inside).bind ?_ fun _ _ never => never.elim
  rintro found v ⟨same, ⟨rfl, noTerms, forest, holding⟩ | ⟨root, rfl, holding, known⟩⟩
  · by_cases noLead : draft.lead.isEmpty
    · rw [Modifiers.eq_empty_of_isEmpty noLead, Modifiers.held_empty] at holding
      simp only [noLead, if_true]
      exact ends_pure (segmented holding same)
    · simp only [noLead]
      refine (ends_misplaced [] [] (Bool.eq_false_iff.mpr noLead) (by simpa using holding)
        fun _ => held.inside).bind ?_
        fun _ _ never => never.elim
      rintro series w ⟨holding, still⟩
      exact ends_pure (segmented holding (still.trans same))
  · have fresh : v.forest.Fresh draft.lead root := by
      rcases known with ⟨single, forest⟩ | bare
      · exact forest ▸ roomy root single
      · exact bare.fresh _
    refine (ends_attachModifiers [] fresh (by simpa using holding)).bind ?_ fun _ _ never => never.elim
    rintro _ w ⟨holding, still, _⟩
    exact ends_pure (segmented holding (still.trans same))

end Setting

/-- Segments are parsed as deep as there are characters left. -/
theorem parses_segment {whole : Text} (named : grammar.Named) (plain : full → grammar.extensions = [])
    (tidy : grammar.Tidy whole) (depth : Nat) :
    (segment grammar depth).Parses grammar full whole depth := by
  induction depth with
  | zero => exact fun _ s _ _ none => absurd none (Nat.not_lt_zero _)
  | succ depth ih =>
      intro context s ready same shallow
      exact ends_segmentWith ⟨named, plain, tidy, ih⟩ context ready same (Nat.le_of_lt_succ shallow)

end Parse

end ExprLang
