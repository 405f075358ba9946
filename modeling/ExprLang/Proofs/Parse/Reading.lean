import ExprLang.Parse.Reading

/-!
What the steps of a reading do to each of its fields.
-/

namespace ExprLang

/-- Causes that do not stop the parser and stand for no skipped characters, in a gap or elsewhere. -/
def Fault.Cause.Quiet (cause : Fault.Cause) : Prop :=
  cause.code ≠ .parserImplementation ∧ cause.code ≠ .multipleOccurrencesOfKeyword ∧
    cause.code ≠ .unexpectedSymbol ∧ cause.code ≠ .commentNotClosed

/-- Faults of a segment that does not make one expression. -/
def Fault.Code.degrades : Fault.Code → Bool
  | binaryOperatorMissing | noSeparationBetweenSymbols | operandMissing
  | invalidUseOfPrefixesOrKeywords => true
  | _ => false

/-- The item of a term that is an operand. -/
def Term.operand? : Term → Option ItemId
  | .operand item => some item
  | _ => none

namespace Reading

variable (reading : Reading)

@[simp]
theorem slots_report (start length : Nat) (cause : Fault.Cause) :
    (reading.report start length cause).slots = reading.slots := rfl

@[simp]
theorem slots_leaveOver (written : List OperatorMatch) :
    (reading.leaveOver written).slots = reading.slots := rfl

theorem slots_foldl_report (written : List OperatorMatch) :
    (written.foldl (fun reading w => reading.report w.start w.length (.operandMissing w.text))
      reading).slots = reading.slots := by
  induction written generalizing reading with
  | nil => rfl
  | cons first rest ih => rw [List.foldl_cons, ih, slots_report]

@[simp]
theorem slots_withoutOperand (written : List OperatorMatch) :
    (reading.withoutOperand written).slots = reading.slots := by
  rw [withoutOperand, slots_leaveOver, slots_foldl_report]

@[simp]
theorem slots_addSlot (slot : Slot) : (reading.addSlot slot).slots = slot :: reading.slots := rfl

/-- The operands of the slots, the last one first. -/
def operands : List ItemId := reading.slots.map (·.operand)

@[simp]
theorem operands_addPostfixes (postfixes : List Chosen) :
    (reading.addPostfixes postfixes).operands = reading.operands := by
  unfold addPostfixes operands
  split <;> simp [*]

theorem operands_startRun (operand : ItemId) :
    (reading.startRun operand).operands = operand :: reading.operands := by
  simp [startRun, operands]

theorem operands_goOn (operand : ItemId) (start : Nat) :
    (reading.goOn operand start).operands = operand :: reading.operands := by
  have kept : ∀ (before : Reading) (postfixes : List Chosen),
      (before.addPostfixes postfixes).slots.map (·.operand) = before.slots.map (·.operand) :=
    fun before postfixes => before.operands_addPostfixes postfixes
  unfold goOn operands
  split
  · split <;> simp [kept]
  · simp

theorem operands_endRun : reading.endRun.operands = reading.operands := by
  have kept : ∀ (before : Reading) (postfixes : List Chosen),
      (before.addPostfixes postfixes).slots.map (·.operand) = before.slots.map (·.operand) :=
    fun before postfixes => before.operands_addPostfixes postfixes
  unfold endRun operands
  split <;> simp [kept]

theorem operands_add (startOf : ItemId → Nat) (term : Term) :
    (reading.add startOf term).operands = term.operand?.toList ++ reading.operands := by
  cases term with
  | operators written => rfl
  | stray item => exact reading.operands_endRun
  | operand item =>
      by_cases running : reading.running
      · simpa [add, running, Term.operand?] using reading.operands_goOn item (startOf item)
      · simpa [add, running, Term.operand?] using reading.operands_startRun item

/-- The slots have the operands of the terms, in their order. -/
theorem operands_ofTerms (startOf : ItemId → Nat) (terms : List Term) :
    (ofTerms startOf terms).operands.reverse = terms.filterMap Term.operand? := by
  have folded : ∀ reading : Reading, (terms.foldl (add startOf) reading).operands.reverse =
      reading.operands.reverse ++ terms.filterMap Term.operand? := by
    induction terms with
    | nil => simp
    | cons term rest ih =>
        intro reading
        rw [List.foldl_cons, ih, operands_add]
        cases found : term.operand? <;> simp [found]
  rw [ofTerms, operands_endRun, folded]
  simp [operands]

theorem operand_mem_of_slot (startOf : ItemId → Nat) {terms : List Term} {slot : Slot}
    (member : slot ∈ (ofTerms startOf terms).slots) : Term.operand slot.operand ∈ terms := by
  have listed : slot.operand ∈ (ofTerms startOf terms).operands.reverse :=
    List.mem_reverse.mpr (List.mem_map_of_mem member)
  rw [operands_ofTerms] at listed
  obtain ⟨term, inTerms, isOperand⟩ := List.mem_filterMap.mp listed
  cases term with
  | operand item =>
      cases isOperand
      exact inTerms
  | operators written => cases isOperand
  | stray item => cases isOperand

/-! Faults -/

/-- Only faults that the parser recovers from. -/
def IsCalm : Prop := ∀ fault ∈ reading.faults, fault.critical = false ∧ fault.cause.Quiet

variable {reading}

theorem isCalm_report {start length : Nat} {cause : Fault.Cause} (calm : reading.IsCalm)
    (quiet : cause.Quiet) : (reading.report start length cause).IsCalm := by
  intro fault member
  rcases List.mem_append.mp member with old | new
  · exact calm fault old
  · rw [List.mem_singleton.mp new]
    exact ⟨rfl, quiet⟩

theorem isCalm_addPostfixes {postfixes : List Chosen} (calm : reading.IsCalm) :
    (reading.addPostfixes postfixes).IsCalm := by
  unfold addPostfixes
  split <;> exact calm

theorem isCalm_withoutOperand (written : List OperatorMatch) (calm : reading.IsCalm) :
    (reading.withoutOperand written).IsCalm := by
  have folded : ∀ reading : Reading, reading.IsCalm → (written.foldl
      (fun reading w => reading.report w.start w.length (.operandMissing w.text))
      reading).IsCalm := by
    induction written with
    | nil => exact fun _ calm => calm
    | cons first rest ih => exact fun _ calm => ih _ (isCalm_report calm ⟨nofun, nofun, nofun, nofun⟩)
  exact folded reading calm

theorem isCalm_startRun {operand : ItemId} (calm : reading.IsCalm) :
    (reading.startRun operand).IsCalm :=
  isCalm_withoutOperand (splitPrefixes reading.gap).1 calm

theorem isCalm_goOn {operand : ItemId} {start : Nat} (calm : reading.IsCalm) :
    (reading.goOn operand start).IsCalm := by
  unfold goOn
  split
  · split
    · exact isCalm_addPostfixes calm
    · exact isCalm_addPostfixes (isCalm_report calm ⟨nofun, nofun, nofun, nofun⟩)
  · exact isCalm_report calm ⟨nofun, nofun, nofun, nofun⟩

theorem isCalm_endRun (calm : reading.IsCalm) : reading.endRun.IsCalm := by
  unfold endRun
  dsimp only
  split
  · exact isCalm_withoutOperand _ (isCalm_addPostfixes calm)
  · exact isCalm_withoutOperand _ calm

theorem isCalm_add (startOf : ItemId → Nat) {term : Term} (calm : reading.IsCalm) :
    (reading.add startOf term).IsCalm := by
  cases term with
  | operators written => exact calm
  | stray item => exact isCalm_endRun calm
  | operand item =>
      by_cases running : reading.running
      · simpa [add, running] using isCalm_goOn calm
      · simpa [add, running] using isCalm_startRun calm

theorem faults_ofTerms (startOf : ItemId → Nat) (terms : List Term) :
    (ofTerms startOf terms).IsCalm := by
  refine isCalm_endRun ?_
  have folded : ∀ reading : Reading, reading.IsCalm → (terms.foldl (add startOf) reading).IsCalm := by
    induction terms with
    | nil => exact fun _ calm => calm
    | cons term rest ih => exact fun _ calm => ih _ (isCalm_add startOf calm)
  exact folded {} (by simp [IsCalm])

/-! What the faults tell -/

/-- What links each slot to the one before. -/
def links (reading : Reading) : List (Option Chosen) := reading.slots.map (·.link)

/-- Operators are left over, and slots are cut from one another, with a fault only; and only faults of
that kind there are. -/
structure Shown (terms : List Term) (reading : Reading) : Prop where
  degrades : ∀ fault ∈ reading.faults, fault.code.degrades = true
  left : reading.leftOperators ≠ [] → reading.faults ≠ []
  filled : reading.faults ≠ [] → reading.links ≠ [] ∨ reading.leftOperators ≠ []
  linked : reading.faults = [] → reading.leftItems = [] → ∀ link ∈ reading.links.dropLast, link ≠ none
  stray : ∀ item ∈ reading.leftItems, Term.stray item ∈ terms

/-- A run ends at a stray item only. -/
structure Going (terms : List Term) (reading : Reading) : Prop extends Shown terms reading where
  running : reading.leftItems = [] → reading.links ≠ [] → reading.running = true

variable {terms : List Term}

@[simp]
theorem addPostfixes_fields (reading : Reading) (postfixes : List Chosen) :
    (reading.addPostfixes postfixes).links = reading.links ∧
      (reading.addPostfixes postfixes).faults = reading.faults ∧
      (reading.addPostfixes postfixes).leftOperators = reading.leftOperators ∧
      (reading.addPostfixes postfixes).leftItems = reading.leftItems := by
  unfold addPostfixes links
  split <;> simp [*]

@[simp]
theorem withoutOperand_fields (reading : Reading) (written : List OperatorMatch) :
    (reading.withoutOperand written).links = reading.links ∧
      (reading.withoutOperand written).faults = reading.faults ++
        written.map (fun w => ⟨w.start, w.length, .operandMissing w.text, false⟩) ∧
      (reading.withoutOperand written).leftOperators =
        reading.leftOperators ++ written.map .ofFirst ∧
      (reading.withoutOperand written).leftItems = reading.leftItems := by
  have reported : ∀ before : Reading,
      written.foldl (fun reading w => reading.report w.start w.length (.operandMissing w.text)) before =
        { before with faults := before.faults ++
            written.map fun w => ⟨w.start, w.length, .operandMissing w.text, false⟩ } := by
    induction written with
    | nil => simp
    | cons first rest ih =>
        intro before
        rw [List.foldl_cons, ih]
        simp [report]
  unfold withoutOperand
  rw [reported]
  exact ⟨rfl, rfl, rfl, rfl⟩

theorem Shown.of_fields {other : Reading} (shown : reading.Shown terms)
    (links : other.links = reading.links) (faults : other.faults = reading.faults)
    (operators : other.leftOperators = reading.leftOperators)
    (items : other.leftItems = reading.leftItems) : other.Shown terms where
  degrades := faults ▸ shown.degrades
  left := by rw [faults, operators]; exact shown.left
  filled := by rw [faults, links, operators]; exact shown.filled
  linked := by rw [faults, links, items]; exact shown.linked
  stray := items ▸ shown.stray

theorem Shown.withoutOperand (shown : reading.Shown terms) (written : List OperatorMatch) :
    (reading.withoutOperand written).Shown terms := by
  obtain ⟨links, faults, operators, items⟩ := reading.withoutOperand_fields written
  cases written with
  | nil =>
      rw [List.map_nil, List.append_nil] at faults operators
      exact shown.of_fields links faults operators items
  | cons first rest =>
      constructor
      · rw [faults]
        intro fault member
        rcases List.mem_append.mp member with old | new
        · exact shown.degrades fault old
        · obtain ⟨_, _, rfl⟩ := List.mem_map.mp new
          rfl
      · exact fun _ => by simp
      · exact fun _ => Or.inr (by simp)
      · exact fun none => by simp at none
      · exact items ▸ shown.stray

/-- A slot that is linked, or the first one, or one behind a reported cut. -/
theorem Shown.addSlot (shown : reading.Shown terms) {slot : Slot}
    (linked : reading.faults = [] → reading.leftItems = [] → reading.links ≠ [] → slot.link ≠ none) :
    (reading.addSlot slot).Going terms where
  degrades := shown.degrades
  left := shown.left
  filled _ := Or.inl (List.cons_ne_nil _ _)
  linked calm whole := by
    have links : (reading.addSlot slot).links = slot.link :: reading.links := rfl
    rw [links]
    cases before : reading.links with
    | nil => simp
    | cons first rest =>
        have here := linked calm whole (by simp [before])
        have earlier := shown.linked calm whole
        rw [before] at earlier
        simpa using ⟨here, earlier⟩
  stray := shown.stray
  running _ _ := rfl

/-- A cut is reported, and a slot follows. -/
theorem Shown.cut (shown : reading.Shown terms) {cut : Reading} {slot : Slot} {fault : Fault}
    (faults : cut.faults = reading.faults ++ [fault]) (degrades : fault.code.degrades = true)
    (items : cut.leftItems = reading.leftItems) : (cut.addSlot slot).Going terms := by
  have some : cut.faults ≠ [] := by simp [faults]
  constructor
  · constructor
    · intro other member
      have inAll : other ∈ cut.faults := member
      rw [faults] at inAll
      rcases List.mem_append.mp inAll with old | new
      · exact shown.degrades other old
      · exact List.mem_singleton.mp new ▸ degrades
    · exact fun _ => some
    · exact fun _ => Or.inl (List.cons_ne_nil _ _)
    · exact fun none => absurd none some
    · intro item member
      have inAll : item ∈ cut.leftItems := member
      exact shown.stray item (items ▸ inAll)
  · exact fun _ _ => rfl

theorem Going.goOn (going : reading.Going terms) (operand : ItemId) (start : Nat) :
    (reading.goOn operand start).Going terms := by
  unfold Reading.goOn
  split
  · split
    · rename_i gap _
      obtain ⟨links, faults, operators, items⟩ := reading.addPostfixes_fields gap.postfixes
      exact (going.toShown.of_fields links faults operators items).addSlot fun _ _ _ => nofun
    · rename_i first last _ _ _ _
      obtain ⟨_, faults, _, items⟩ := addPostfixes_fields
        (reading.report first.start (last.stop - first.start) .binaryOperatorMissing)
        ((splitPostfixes reading.gap).1.map (.ofKind .postfixOp))
      exact going.toShown.cut faults rfl items
  · exact going.toShown.cut rfl rfl rfl

theorem Going.startRun (going : reading.Going terms) (stopped : reading.running = false)
    (operand : ItemId) : (reading.startRun operand).Going terms := by
  obtain ⟨links, _, _, items⟩ := reading.withoutOperand_fields (splitPrefixes reading.gap).1
  refine (going.toShown.withoutOperand (splitPrefixes reading.gap).1).addSlot fun _ whole more => ?_
  rw [items] at whole
  rw [links] at more
  exact absurd ((going.running whole more).symm.trans stopped) nofun

theorem Shown.endRun (shown : reading.Shown terms) : reading.endRun.Shown terms := by
  have ended : Shown terms { reading with gap := [], running := false } :=
    shown.of_fields rfl rfl rfl rfl
  unfold Reading.endRun
  dsimp only
  split
  · obtain ⟨links, faults, operators, items⟩ := addPostfixes_fields
      { reading with gap := [], running := false }
      ((splitPostfixes reading.gap).1.map (.ofKind .postfixOp))
    exact (ended.of_fields links faults operators items).withoutOperand _
  · exact ended.withoutOperand _

theorem Going.add (startOf : ItemId → Nat) {term : Term} (going : reading.Going terms)
    (member : term ∈ terms) : (reading.add startOf term).Going terms := by
  cases term with
  | operators written => exact ⟨going.toShown.of_fields rfl rfl rfl rfl, going.running⟩
  | stray item =>
      have ended := going.toShown.endRun
      have some : reading.endRun.leftItems ++ [item] ≠ [] := by simp
      constructor
      · refine ⟨ended.degrades, ended.left, ended.filled, fun _ none => absurd none some, ?_⟩
        intro other inLeft
        rcases List.mem_append.mp inLeft with old | new
        · exact ended.stray other old
        · exact List.mem_singleton.mp new ▸ member
      · exact fun none => absurd none some
  | operand item =>
      unfold Reading.add
      dsimp only
      split
      · exact going.goOn item _
      · rename_i stopped
        exact going.startRun (by simpa using stopped) item

theorem shown_ofTerms (startOf : ItemId → Nat) (terms : List Term) :
    (ofTerms startOf terms).Shown terms := by
  have folded : ∀ (rest : List Term) (reading : Reading), (∀ term ∈ rest, term ∈ terms) →
      reading.Going terms → (rest.foldl (add startOf) reading).Going terms := by
    intro rest
    induction rest with
    | nil => exact fun _ _ going => going
    | cons term rest ih =>
        intro reading inside going
        exact ih _ (fun other member => inside other (List.mem_cons_of_mem term member))
          (going.add startOf (inside term List.mem_cons_self))
  have blank : ({} : Reading).Going terms :=
    ⟨⟨nofun, fun some => absurd rfl some, fun some => absurd rfl some, fun _ _ => nofun, nofun⟩,
      fun _ some => absurd rfl some⟩
  exact (folded terms {} (fun _ member => member) blank).toShown.endRun

end Reading

end ExprLang
