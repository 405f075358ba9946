import ExprLang.Proofs.Parse.Arrangement
import ExprLang.Proofs.Parse.Holding

/-!
Where the faults of a reading are. A reading reports an operator, an operand, or the operators between two
operands; each of these stands in the row of the terms, so none of the faults reaches behind it.
-/

namespace ExprLang

open Held (item word)

/-- The first of a row starts before the last one ends. -/
theorem Forest.Row.lt_of_ends {forest : Forest} {a b : Nat} {row : List Held} {first last : Held}
    (placed : forest.Row a row b) (isFirst : row.head? = some first)
    (isLast : row.getLast? = some last) (filled : first.start forest < first.stop forest) :
    first.start forest < last.stop forest := by
  cases row with
  | nil => cases isFirst
  | cons held rest =>
      obtain rfl := Option.some.inj isFirst
      by_cases single : rest = []
      · rw [single] at isLast
        obtain rfl := Option.some.inj isLast
        exact filled
      · rw [List.getLast?_cons_of_ne_nil single] at isLast
        obtain ⟨after, stands, _⟩ := placed.2.2.inside (List.mem_of_getLast? isLast)
        have := Forest.start_le_stop_of_stands stands
        omega

/-- The fault ends no later than something in the row does. -/
structure Fault.Among (forest : Forest) (row : List Held) (fault : Fault) : Prop where
  reached : ∃ held ∈ row, fault.stop ≤ held.stop forest
  ahead : fault.cause.isDistance = true → 0 < fault.length

theorem Fault.Among.mono {forest : Forest} {row more : List Held} {fault : Fault}
    (among : fault.Among forest row) (further : row ⊆ more) : fault.Among forest more where
  reached := by
    obtain ⟨held, inRow, within⟩ := among.reached
    exact ⟨held, further inRow, within⟩
  ahead := among.ahead

namespace Reading

/-! What a reading can report -/

/-- All faults that the terms can be reported with. -/
structure Reports (startOf : ItemId → Nat) (terms : List Term) (holds : Fault → Prop) : Prop where
  alone : ∀ w : OperatorMatch, .operators w ∈ terms →
    holds ⟨w.start, w.length, .operandMissing w.text, false⟩
  beside : ∀ id, .operand id ∈ terms → holds ⟨startOf id, 0, .noSeparationBetweenSymbols, false⟩
  between : ∀ (gap : List OperatorMatch) (first last : OperatorMatch), gap.map .operators <:+: terms →
    gap.head? = some first → gap.getLast? = some last →
    holds ⟨first.start, last.stop - first.start, .binaryOperatorMissing, false⟩

/-- So far the faults are such ones, and the operators behind the last operand are the last terms. -/
structure Sited (holds : Fault → Prop) (seen : List Term) (reading : Reading) : Prop where
  faults : ∀ fault ∈ reading.faults, holds fault
  gap : reading.gap.map .operators <:+ seen

section Sited

variable {startOf : ItemId → Nat} {terms seen : List Term} {holds : Fault → Prop} {reading : Reading}
  {written : List OperatorMatch} (reports : Reports startOf terms holds)

include reports

theorem faults_withoutOperand (known : ∀ fault ∈ reading.faults, holds fault)
    (inTerms : ∀ w ∈ written, .operators w ∈ terms) :
    ∀ fault ∈ (reading.withoutOperand written).faults, holds fault := by
  rw [(reading.withoutOperand_fields written).2.1]
  intro fault member
  rcases List.mem_append.mp member with old | new
  · exact known fault old
  · obtain ⟨w, isWritten, rfl⟩ := List.mem_map.mp new
    exact reports.alone w (inTerms w isWritten)

variable (sited : Sited holds seen reading) (isPrefix : seen <+: terms)

include sited isPrefix

omit reports in
theorem mem_of_mem_gap {w : OperatorMatch} (member : w ∈ reading.gap) : .operators w ∈ terms :=
  isPrefix.subset (sited.gap.subset (List.mem_map_of_mem member))

theorem faults_endRun : ∀ fault ∈ reading.endRun.faults, holds fault := by
  have inTerms : ∀ w ∈ reading.gap, .operators w ∈ terms := fun _ => mem_of_mem_gap sited isPrefix
  unfold endRun
  dsimp only
  split
  · apply faults_withoutOperand reports
    · rw [(addPostfixes_fields _ _).2.1]
      exact sited.faults
    · intro w member
      apply inTerms
      rw [← (splitPostfixes_spec reading.gap).1]
      exact List.mem_append_right _ member
  · exact faults_withoutOperand reports sited.faults inTerms

theorem faults_startRun (operand : ItemId) : ∀ fault ∈ (reading.startRun operand).faults, holds fault := by
  apply faults_withoutOperand reports sited.faults
  intro w member
  apply mem_of_mem_gap sited isPrefix
  rw [← (splitPrefixes_spec reading.gap).1]
  exact List.mem_append_left _ member

theorem faults_goOn {operand : ItemId} (isOperand : .operand operand ∈ terms) :
    ∀ fault ∈ (reading.goOn operand (startOf operand)).faults, holds fault := by
  unfold goOn
  split
  · rename_i first last isFirst isLast
    split
    · have same : ∀ slot postfixes, ((reading.addPostfixes postfixes).addSlot slot).faults =
          reading.faults := fun _ postfixes => (addPostfixes_fields reading postfixes).2.1
      rw [same]
      exact sited.faults
    · have cut := reports.between reading.gap first last
        (sited.gap.isInfix.trans isPrefix.isInfix) isFirst isLast
      have same : ∀ slot postfixes between, (((addPostfixes (reading.report first.start
          (last.stop - first.start) .binaryOperatorMissing) postfixes).leaveOver between).addSlot
            slot).faults = reading.faults ++
              [⟨first.start, last.stop - first.start, .binaryOperatorMissing, false⟩] :=
        fun _ postfixes _ => (addPostfixes_fields _ postfixes).2.1
      rw [same]
      exact List.forall_mem_append.mpr ⟨sited.faults, List.forall_mem_singleton.mpr cut⟩
  · exact List.forall_mem_append.mpr
      ⟨sited.faults, List.forall_mem_singleton.mpr (reports.beside operand isOperand)⟩

end Sited

variable {startOf : ItemId → Nat} {terms seen : List Term} {holds : Fault → Prop} {reading : Reading}

theorem gap_goOn (reading : Reading) (operand : ItemId) (start : Nat) :
    (reading.goOn operand start).gap = [] := by
  unfold goOn
  split
  · split <;> rfl
  · rfl

theorem gap_endRun (reading : Reading) : reading.endRun.gap = [] := by
  unfold endRun
  dsimp only
  split
  · rw [(gap_withoutOperand _ _).1, (gap_addPostfixes _).1]
  · rw [(gap_withoutOperand _ _).1]

/-- A term more. Behind an operand or a stray item there are no operators yet. -/
theorem Sited.add (reports : Reports startOf terms holds) (sited : Sited holds seen reading) {term : Term}
    (isPrefix : seen ++ [term] <+: terms) : Sited holds (seen ++ [term]) (reading.add startOf term) := by
  have before := (List.prefix_append seen [term]).trans isPrefix
  have inTerms : term ∈ terms := isPrefix.subset (List.mem_append_right _ List.mem_cons_self)
  cases term with
  | operators written =>
      refine ⟨sited.faults, ?_⟩
      change (reading.gap ++ [written]).map Term.operators <:+ _
      obtain ⟨front, whole⟩ := sited.gap
      exact ⟨front, by rw [← whole, List.map_append, List.append_assoc]; rfl⟩
  | operand id =>
      unfold Reading.add
      dsimp only
      split
      · refine ⟨faults_goOn reports sited before inTerms, ?_⟩
        rw [gap_goOn]
        exact List.nil_suffix
      · exact ⟨faults_startRun reports sited before id, List.nil_suffix⟩
  | stray id =>
      refine ⟨faults_endRun reports sited before, ?_⟩
      change reading.endRun.gap.map Term.operators <:+ _
      rw [gap_endRun]
      exact List.nil_suffix

theorem Reports.of_ofTerms (reports : Reports startOf terms holds) :
    ∀ fault ∈ (ofTerms startOf terms).faults, holds fault := by
  have folded : ∀ (rest seen : List Term) (reading : Reading), seen ++ rest = terms →
      Sited holds seen reading → Sited holds terms (rest.foldl (add startOf) reading) := by
    intro rest
    induction rest with
    | nil =>
        intro seen reading whole sited
        rwa [← whole, List.append_nil]
    | cons term rest ih =>
        intro seen reading whole sited
        rw [List.append_cons] at whole
        exact ih _ _ whole (sited.add reports ⟨rest, whole⟩)
  have blank : Sited holds [] ({} : Reading) := ⟨nofun, List.nil_suffix⟩
  exact faults_endRun reports (folded terms [] {} rfl blank) (List.prefix_refl terms)

/-! In the row of the terms -/

section Gap

variable {gap : List OperatorMatch} {first last : OperatorMatch}

/-- The words of some operators begin where the first one does. -/
theorem head_words (filled : first.parts ≠ []) (isFirst : gap.head? = some first) :
    ∃ start text, (gap.flatMap OperatorMatch.held).head? = some (word start text) ∧ first.start = start := by
  obtain ⟨rest, rfl⟩ := List.head?_eq_some_iff.mp isFirst
  obtain ⟨front, parts⟩ := Option.isSome_iff_exists.mp (List.isSome_head?.mpr filled)
  exact ⟨front.1, front.2, by simp [OperatorMatch.held, List.head?_append, parts],
    by simp [OperatorMatch.start, parts]⟩

/-- They end where the last one does. -/
theorem last_words (filled : last.parts ≠ []) (isLast : gap.getLast? = some last) :
    ∃ start text, (gap.flatMap OperatorMatch.held).getLast? = some (word start text) ∧
      last.stop = start + text.length := by
  obtain ⟨rest, rfl⟩ := List.getLast?_eq_some_iff.mp isLast
  obtain ⟨back, parts⟩ := Option.isSome_iff_exists.mp (List.getLast?_isSome.mpr filled)
  exact ⟨back.1, back.2, by simp [OperatorMatch.held, List.getLast?_append, parts],
    by simp [OperatorMatch.stop, parts]⟩

end Gap

section Row

variable {forest : Forest} {a b : Nat}

variable {terms : List Term} (filled : ∀ written, .operators written ∈ terms → written.parts ≠ [])
  (placed : forest.Row a (terms.flatMap Term.held) b)

include filled placed

/-- Operators one behind the other, from the first word to the last. -/
theorem among_of_gap {gap : List OperatorMatch} {first last : OperatorMatch} {cause : Fault.Cause}
    (inTerms : gap.map .operators <:+: terms) (isFirst : gap.head? = some first)
    (isLast : gap.getLast? = some last) :
    Fault.Among forest (terms.flatMap Term.held) ⟨first.start, last.stop - first.start, cause, false⟩ := by
  have filledGap : ∀ w ∈ gap, w.parts ≠ [] := fun w member =>
    filled w (inTerms.subset (List.mem_map_of_mem member))
  -- The words of the gap are a part of the row.
  have inRow : gap.flatMap OperatorMatch.held <:+: terms.flatMap Term.held := by
    obtain ⟨before, after, whole⟩ := inTerms
    refine ⟨before.flatMap Term.held, after.flatMap Term.held, ?_⟩
    rw [← whole, List.flatMap_append, List.flatMap_append, List.flatMap_map]
    rfl
  obtain ⟨start, opening, isHead, starts⟩ := head_words (filledGap first (List.mem_of_head? isFirst)) isFirst
  obtain ⟨place, closing, isEnd, stops⟩ := last_words (filledGap last (List.mem_of_getLast? isLast)) isLast
  have stands : 0 < opening.length := (placed.inside (inRow.subset (List.mem_of_head? isHead))).2.1
  have forward : first.start < last.stop := by
    obtain ⟨before, after, whole⟩ := inRow
    rw [← whole] at placed
    obtain ⟨_, placedFront, _⟩ := Forest.row_append.mp placed
    obtain ⟨_, _, placedGap⟩ := Forest.row_append.mp placedFront
    rw [starts, stops]
    exact placedGap.lt_of_ends isHead isEnd (Nat.lt_add_of_pos_right stands)
  constructor
  · refine ⟨_, inRow.subset (List.mem_of_getLast? isEnd), ?_⟩
    rw [Fault.stop, Nat.add_sub_cancel' (Nat.le_of_lt forward), stops]
    exact Nat.le_refl _
  · exact fun _ => Nat.sub_pos_of_lt forward

theorem among_ofTerms :
    ∀ fault ∈ (ofTerms forest.start terms).faults, fault.Among forest (terms.flatMap Term.held) := by
  apply Reports.of_ofTerms
  constructor
  · intro w member
    obtain ⟨before, after, rfl⟩ := List.append_of_mem member
    have alone : [w].map Term.operators <:+: before ++ .operators w :: after :=
      ⟨before, after, by rw [List.map_singleton, List.append_assoc, List.singleton_append]⟩
    exact among_of_gap filled placed alone rfl rfl
  · intro id member
    have inRow : item id ∈ terms.flatMap Term.held :=
      List.mem_flatMap.mpr ⟨_, member, List.mem_cons_self⟩
    exact ⟨⟨_, inRow, Forest.start_le_stop_of_stands (placed.inside inRow).2.1⟩, nofun⟩
  · exact fun gap first last => among_of_gap filled placed

end Row

end Reading

end ExprLang
