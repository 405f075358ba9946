import ExprLang.Proofs.Parse.Arrangement
import ExprLang.Proofs.Precedence.Run
import Mathlib.Data.List.TakeWhile

/-!
What a row of operands and operators can be read as. An operator that has several kinds gets one of
them, and then the row has to read

    prefix* operand postfix* (binary prefix* operand postfix*)*

which is a row of slots, with a binary operator between each two. The parser goes from the left and
decides at each operand what the operators before it are. It reports no fault exactly if there is a
reading, and then it has made the one with the longest runs of postfix operators.
-/

namespace ExprLang

/-- A kind that the written operator can have. -/
structure Chosen.Picks (kind : OperatorKind) (chosen : Chosen) : Prop where
  possible : chosen.written.canBe kind = true
  eq_ofKind : chosen = .ofKind kind chosen.written

namespace Slot

def terms (slot : Slot) : List Term :=
  (slot.link.toList ++ slot.prefixes).map (.operators ·.written) ++
    .operand slot.operand :: slot.postfixes.map (.operators ·.written)

/-- Each operator is read as one of the kind that its place asks for. -/
structure Picks (slot : Slot) : Prop where
  prefixes : ∀ chosen ∈ slot.prefixes, chosen.Picks .prefixOp
  postfixes : ∀ chosen ∈ slot.postfixes, chosen.Picks .postfixOp
  link : ∀ chosen ∈ slot.link, chosen.Picks .binary

/-- The slots are a reading of the terms. -/
structure Reads (terms : List Term) (slots : List Slot) : Prop where
  unbroken : Unbroken slots
  picks : ∀ slot ∈ slots, slot.Picks
  spelled : slots.flatMap Slot.terms = terms

/-- In no gap has any reading more postfix operators. -/
structure ReadsLongest (terms : List Term) (slots : List Slot) : Prop extends Reads terms slots where
  longest : ∀ other, Reads terms other →
    List.Forall₂ (fun slot other => other.postfixes.length ≤ slot.postfixes.length) slots other

end Slot

theorem Chosen.picks_ofKind {kind : OperatorKind} {written : OperatorMatch}
    (possible : written.canBe kind = true) : (Chosen.ofKind kind written).Picks kind :=
  ⟨possible, rfl⟩

theorem Chosen.picks_map {kind : OperatorKind} {written : List OperatorMatch}
    (possible : ∀ w ∈ written, w.canBe kind = true) (chosen : Chosen)
    (member : chosen ∈ written.map (.ofKind kind)) : chosen.Picks kind := by
  obtain ⟨w, inWritten, rfl⟩ := List.mem_map.mp member
  exact Chosen.picks_ofKind (possible w inWritten)

theorem Chosen.Picks.kind {kind : OperatorKind} {chosen : Chosen} (picks : chosen.Picks kind) :
    chosen.operator.kind = kind := by
  obtain ⟨operator, found⟩ := Option.isSome_iff_exists.mp picks.possible
  have named : (operator.kind == kind) = true :=
    List.find?_some (p := fun operator : Operator => operator.kind == kind) found
  rw [picks.eq_ofKind, Chosen.ofKind, found]
  exact eq_of_beq named

theorem Slot.Picks.fits {slot : Slot} (picks : slot.Picks) : slot.Fits :=
  ⟨fun chosen member => (picks.prefixes chosen member).kind,
    fun chosen member => (picks.postfixes chosen member).kind,
    fun chosen isLink => (picks.link chosen isLink).kind⟩

/-! Gaps -/

/-- Whatever way the operators of a gap can be read, they are read with as many postfix ones. -/
theorem readGap_longest {gap postfixes prefixes : List OperatorMatch} {binary : OperatorMatch}
    (parts : gap = postfixes ++ binary :: prefixes)
    (canPostfix : ∀ w ∈ postfixes, w.canBe .postfixOp = true) (canBinary : binary.canBe .binary = true)
    (canPrefix : ∀ w ∈ prefixes, w.canBe .prefixOp = true) :
    ∃ reading, readGap? gap = some reading ∧ postfixes.length ≤ reading.postfixes.length := by
  have splits : canSplitAt gap postfixes.length = true := by
    simp [canSplitAt, parts, canBinary, List.all_eq_true.mpr canPostfix, List.all_eq_true.mpr canPrefix]
  have inside : postfixes.length ∈ (List.range gap.length).reverse := by simp [parts]
  obtain ⟨place, found⟩ : ∃ place, (List.range gap.length).reverse.find? (canSplitAt gap) =
      some place := by
    rw [← Option.isSome_iff_exists, List.find?_isSome]
    exact ⟨_, inside, splits⟩
  -- The places are tried from the last one on, so none behind the one that is found fits.
  have further : postfixes.length ≤ place := by
    obtain ⟨_, before, behind, row, none⟩ := List.find?_eq_some_iff_append.mp found
    have descending : (List.range gap.length).reverse.Pairwise (· > ·) :=
      List.pairwise_reverse.mpr List.pairwise_lt_range
    rw [row] at inside descending
    rcases List.mem_append.mp inside with earlier | later
    · have fails := none _ earlier
      rw [splits] at fails
      cases fails
    · rcases List.mem_cons.mp later with same | later
      · exact Nat.le_of_eq same
      · have below := (List.pairwise_cons.mp (List.pairwise_append.mp descending).2.1).1
        exact Nat.le_of_lt (below _ later)
  have within : place < gap.length :=
    List.mem_range.mp (List.mem_reverse.mp (List.mem_of_find?_eq_some found))
  unfold readGap?
  rw [found]
  dsimp only
  rw [List.getElem?_eq_getElem within]
  refine ⟨_, rfl, ?_⟩
  simp only [List.length_map, List.length_take]
  omega

theorem splitPostfixes_all {gap : List OperatorMatch}
    (canPostfix : ∀ w ∈ gap, w.canBe .postfixOp = true) : splitPostfixes gap = (gap, []) := by
  rw [splitPostfixes, List.span_eq_takeWhile_dropWhile, List.takeWhile_eq_self_iff.mpr canPostfix,
    List.dropWhile_eq_nil_iff.mpr canPostfix]

theorem splitPrefixes_all {gap : List OperatorMatch}
    (canPrefix : ∀ w ∈ gap, w.canBe .prefixOp = true) : splitPrefixes gap = ([], gap) := by
  have whole : gap.reverse.takeWhile (·.canBe .prefixOp) = gap.reverse :=
    List.takeWhile_eq_self_iff.mpr fun w member => canPrefix w (List.mem_reverse.mp member)
  simp [splitPrefixes, whole]

namespace Reading

variable (startOf : ItemId → Nat) {reading : Reading} {slot : Slot} {before : List Slot}

/-! Faults stay -/

theorem faults_of_add {term : Term} (faultless : (reading.add startOf term).faults = [])
    (plain : ∀ item, term ≠ .stray item) : reading.faults = [] := by
  cases term with
  | operators written => exact faultless
  | stray item => exact (plain item rfl).elim
  | operand item =>
      unfold add at faultless
      dsimp only at faultless
      split at faultless
      · unfold goOn at faultless
        split at faultless
        · split at faultless
          · simpa [addSlot] using faultless
          · simp [addSlot, leaveOver, report] at faultless
        · simp [addSlot, report] at faultless
      · exact (List.append_eq_nil_iff.mp ((withoutOperand_fields _ _).2.1 ▸ faultless)).1

theorem faults_of_foldl {terms : List Term} (plain : ∀ item, .stray item ∉ terms)
    (faultless : (terms.foldl (add startOf) reading).faults = []) : reading.faults = [] := by
  induction terms generalizing reading with
  | nil => exact faultless
  | cons term rest ih =>
      refine faults_of_add startOf (ih (fun item member => plain item (List.mem_cons_of_mem _ member)) faultless)
        fun item same => plain item (same ▸ List.mem_cons_self)

theorem faults_of_endRun (faultless : reading.endRun.faults = []) : reading.faults = [] := by
  unfold endRun at faultless
  dsimp only at faultless
  split at faultless
  · rw [(withoutOperand_fields _ _).2.1, (addPostfixes_fields _ _).2.1] at faultless
    exact (List.append_eq_nil_iff.mp faultless).1
  · exact (List.append_eq_nil_iff.mp ((withoutOperand_fields _ _).2.1 ▸ faultless)).1

/-! Without a fault there is a reading -/

/-- What has been read so far is a reading of it, up to the operators behind the last operand. -/
structure Whole (terms : List Term) (reading : Reading) : Prop where
  spelled : reading.slots.reverse.flatMap Slot.terms ++ reading.gap.map .operators = terms
  picks : ∀ slot ∈ reading.slots, slot.Picks
  unbroken : reading.slots ≠ [] → Slot.Unbroken reading.slots.reverse
  running : reading.running = true ↔ reading.slots ≠ []

/-- Whether a row is unbroken is up to its links. -/
theorem unbroken_congr {slots others : List Slot} (links : slots.map (·.link) = others.map (·.link))
    (unbroken : Slot.Unbroken slots) : Slot.Unbroken others := by
  cases slots with
  | nil => cases unbroken
  | cons first rest =>
      cases others with
      | nil => cases links
      | cons first' rest' =>
          obtain ⟨same, sameRest⟩ := List.cons.inj links
          refine ⟨Eq.trans same.symm unbroken.1, fun slot member => ?_⟩
          have listed : slot.link ∈ rest'.map (·.link) := List.mem_map_of_mem member
          rw [← sameRest] at listed
          obtain ⟨old, inRest, isLink⟩ := List.mem_map.mp listed
          exact isLink ▸ unbroken.2 old inRest

/-- A slot behind others, which is linked to them. -/
theorem unbroken_snoc {slots : List Slot} (unbroken : slots ≠ [] → Slot.Unbroken slots)
    (link : slot.link.isSome ↔ slots ≠ []) : Slot.Unbroken (slots ++ [slot]) := by
  cases slots with
  | nil => exact ⟨by simpa using link, by simp⟩
  | cons first rest =>
      obtain ⟨noLink, linked⟩ := unbroken (List.cons_ne_nil _ _)
      refine ⟨noLink, fun other member => ?_⟩
      rcases List.mem_append.mp member with old | new
      · exact linked other old
      · rw [List.mem_singleton.mp new]
        exact link.mpr (List.cons_ne_nil _ _)

theorem Whole.addOperators {terms : List Term} (whole : reading.Whole terms) (written : OperatorMatch) :
    (reading.add startOf (.operators written)).Whole (terms ++ [.operators written]) where
  spelled := by simp [add, ← whole.spelled]
  picks := whole.picks
  unbroken := whole.unbroken
  running := whole.running

theorem Whole.startRun {terms : List Term} (whole : reading.Whole terms) (first : reading.slots = [])
    (operand : ItemId) (faultless : (reading.startRun operand).faults = []) :
    (reading.startRun operand).Whole (terms ++ [.operand operand]) := by
  obtain ⟨parts, possible⟩ := splitPrefixes_spec reading.gap
  have noOperators : (splitPrefixes reading.gap).1 = [] := by
    have faults := (withoutOperand_fields reading (splitPrefixes reading.gap).1).2.1
    exact List.map_eq_nil_iff.mp (List.append_eq_nil_iff.mp (faults ▸ faultless)).2
  rw [noOperators, List.nil_append] at parts
  have slots : (reading.startRun operand).slots =
      [{ operand, prefixes := reading.gap.map (.ofKind .prefixOp) }] := by
    unfold Reading.startRun
    simp [first, parts]
  have spelled := whole.spelled
  simp only [first, List.reverse_nil, List.flatMap_nil, List.nil_append] at spelled
  refine ⟨?_, ?_, ?_, ?_⟩
  · rw [slots, ← spelled]
    simp [Reading.startRun, addSlot, Slot.terms, Chosen.ofKind]
  · rw [slots]
    intro slot member
    obtain rfl := List.mem_singleton.mp member
    exact ⟨Chosen.picks_map (parts ▸ possible), by simp, by simp⟩
  · rw [slots]
    exact fun _ => ⟨rfl, by simp⟩
  · rw [slots]
    simp [Reading.startRun, addSlot]

/-- The last slot takes the first operators of the gap. -/
theorem Whole.addPostfixes {terms : List Term} (whole : reading.Whole terms)
    (begun : reading.slots ≠ []) {postfixes rest : List OperatorMatch}
    (parts : reading.gap = postfixes ++ rest) (possible : ∀ w ∈ postfixes, w.canBe .postfixOp = true) :
    Whole terms { reading.addPostfixes (postfixes.map (.ofKind .postfixOp)) with gap := rest } := by
  obtain ⟨slot, before, slots⟩ := List.exists_cons_of_ne_nil begun
  have picks := whole.picks
  have unbroken := whole.unbroken begun
  have spelled := whole.spelled
  unfold Reading.addPostfixes
  rw [slots] at picks unbroken spelled ⊢
  refine ⟨?_, ?_, fun _ => ?_, ?_⟩
  · rw [← spelled, parts]
    simp [Slot.terms, Chosen.ofKind, Function.comp_def]
  · refine List.forall_mem_cons.mpr ⟨?_, (List.forall_mem_cons.mp picks).2⟩
    obtain ⟨prefixes, old, link⟩ := (List.forall_mem_cons.mp picks).1
    refine ⟨prefixes, fun chosen member => ?_, link⟩
    exact (List.mem_append.mp member).elim (old chosen) (Chosen.picks_map possible chosen)
  · exact unbroken_congr (by simp) unbroken
  · simpa [slots] using whole.running

theorem Whole.addSlot {terms : List Term} (whole : reading.Whole terms) (begun : reading.slots ≠ [])
    {binary : OperatorMatch} {prefixes : List OperatorMatch}
    (parts : reading.gap = binary :: prefixes) (canBinary : binary.canBe .binary = true)
    (canPrefix : ∀ w ∈ prefixes, w.canBe .prefixOp = true) (operand : ItemId) :
    (reading.addSlot {
      operand
      prefixes := prefixes.map (.ofKind .prefixOp)
      link := some (.ofKind .binary binary) }).Whole (terms ++ [.operand operand]) where
  spelled := by
    rw [← whole.spelled, parts]
    simp [Reading.addSlot, Slot.terms, Chosen.ofKind, Function.comp_def]
  picks := by
    refine List.forall_mem_cons.mpr ⟨⟨Chosen.picks_map canPrefix, by simp, fun chosen isLink => ?_⟩,
      whole.picks⟩
    cases isLink
    exact Chosen.picks_ofKind canBinary
  unbroken _ := by
    rw [Reading.addSlot, List.reverse_cons]
    exact unbroken_snoc (fun _ => whole.unbroken begun) (by simpa using begun)
  running := by simp [Reading.addSlot]

theorem Whole.goOn {terms : List Term} (whole : reading.Whole terms) (begun : reading.slots ≠ [])
    (operand : ItemId) (start : Nat) (faultless : (reading.goOn operand start).faults = []) :
    (reading.goOn operand start).Whole (terms ++ [.operand operand]) := by
  unfold Reading.goOn at faultless ⊢
  split at faultless
  · rename_i first last isFirst isLast
    split at faultless
    · rename_i gap found
      obtain ⟨postfixes, binary, prefixes, parts, rfl, canPostfix, canBinary, canPrefix⟩ :=
        readGap_spec found
      have taken := whole.addPostfixes begun parts canPostfix
      have slots : (reading.addPostfixes (postfixes.map (.ofKind .postfixOp))).slots ≠ [] := by
        obtain ⟨slot, before, slots⟩ := List.exists_cons_of_ne_nil begun
        simp [Reading.addPostfixes, slots]
      exact taken.addSlot slots rfl canBinary canPrefix operand
    · simp [Reading.addSlot, leaveOver, report] at faultless
  · simp [Reading.addSlot, report] at faultless

theorem Whole.add {terms : List Term} (whole : reading.Whole terms) {term : Term}
    (plain : ∀ item, term ≠ .stray item) (faultless : (reading.add startOf term).faults = []) :
    (reading.add startOf term).Whole (terms ++ [term]) := by
  cases term with
  | operators written => exact whole.addOperators startOf written
  | stray item => exact (plain item rfl).elim
  | operand item =>
      unfold Reading.add at faultless ⊢
      dsimp only at faultless ⊢
      split at faultless
      · rename_i running
        rw [if_pos running]
        exact whole.goOn (whole.running.mp running) item _ faultless
      · rename_i stopped
        rw [if_neg stopped]
        exact whole.startRun (by simpa [whole.running] using stopped) item faultless

/-- At the end the gap has been taken as well. -/
theorem Whole.endRun {terms : List Term} (whole : reading.Whole terms)
    (faultless : reading.endRun.faults = []) :
    terms = [] ∨ Slot.Reads terms reading.endRun.slots.reverse := by
  have spelled := whole.spelled
  unfold Reading.endRun at faultless ⊢
  dsimp only at faultless ⊢
  split at faultless
  · rename_i running
    have begun := whole.running.mp running
    rw [if_pos running]
    obtain ⟨parts, possible⟩ := splitPostfixes_spec reading.gap
    have noOperators : (splitPostfixes reading.gap).2 = [] := by
      rw [(withoutOperand_fields _ _).2.1] at faultless
      exact List.map_eq_nil_iff.mp (List.append_eq_nil_iff.mp faultless).2
    rw [noOperators, List.append_nil] at parts
    rw [parts] at possible ⊢
    have ended := whole.addPostfixes begun (List.append_nil reading.gap).symm possible
    have slots : ∀ other : Reading, other.slots = reading.slots → ∀ postfixes,
        (other.addPostfixes postfixes).slots = (reading.addPostfixes postfixes).slots := by
      intro other same postfixes
      unfold Reading.addPostfixes
      rw [same]
      split <;> simp [*]
    rw [slots_withoutOperand, slots { reading with gap := [], running := false } rfl]
    refine Or.inr ⟨ended.unbroken ?_, fun slot member => ended.picks slot (List.mem_reverse.mp member), ?_⟩
    · obtain ⟨slot, before, slots⟩ := List.exists_cons_of_ne_nil begun
      simp [Reading.addPostfixes, slots]
    · simpa using ended.spelled
  · rename_i stopped
    have first : reading.slots = [] := by simpa [whole.running] using stopped
    have noGap : reading.gap = [] := by
      rw [(withoutOperand_fields _ _).2.1] at faultless
      exact List.map_eq_nil_iff.mp (List.append_eq_nil_iff.mp faultless).2
    refine Or.inl ?_
    simpa [first, noGap] using spelled.symm

/-- A row that is read without a fault has a reading. -/
theorem reads_of_faultless {terms : List Term} (plain : ∀ item, .stray item ∉ terms)
    (faultless : (ofTerms startOf terms).faults = []) :
    terms = [] ∨ Slot.Reads terms (ofTerms startOf terms).slots.reverse := by
  have folded : ∀ (rest done : List Term) (reading : Reading), (∀ item, .stray item ∉ rest) →
      (rest.foldl (add startOf) reading).faults = [] → reading.Whole done →
      (rest.foldl (add startOf) reading).Whole (done ++ rest) := by
    intro rest
    induction rest with
    | nil => exact fun _ _ _ _ whole => by simpa using whole
    | cons term rest ih =>
        intro done reading plain faultless whole
        have plainRest : ∀ item, .stray item ∉ rest := fun item member =>
          plain item (List.mem_cons_of_mem _ member)
        have here := whole.add startOf (fun item same => plain item (same ▸ List.mem_cons_self))
          (faults_of_foldl startOf plainRest faultless)
        simpa using ih _ _ plainRest faultless here
  have whole := folded terms [] {} plain (faults_of_endRun faultless) ⟨rfl, by simp, by simp, by simp⟩
  exact whole.endRun faultless

/-! Where there is a reading there is no fault -/

/-- The operators of a part of a slot, as they are written. -/
theorem possible_written {kind : OperatorKind} {chosens : List Chosen}
    (picks : ∀ chosen ∈ chosens, chosen.Picks kind) :
    ∀ w ∈ chosens.map (·.written), w.canBe kind = true := by
  intro w member
  obtain ⟨chosen, inChosens, rfl⟩ := List.mem_map.mp member
  exact (picks chosen inChosens).possible

theorem foldl_operators (written : List OperatorMatch) :
    (written.map Term.operators).foldl (add startOf) reading =
      { reading with gap := reading.gap ++ written } := by
  induction written generalizing reading with
  | nil => simp
  | cons first rest ih => simp [ih, add]

/-- The terms of a slot: the operand comes behind the operators before it. -/
theorem foldl_terms (slot : Slot) : slot.terms.foldl (add startOf) reading =
    let next := add startOf { reading with
      gap := reading.gap ++ (slot.link.toList ++ slot.prefixes).map (·.written) } (.operand slot.operand)
    { next with gap := next.gap ++ slot.postfixes.map (·.written) } := by
  have written : ∀ chosens : List Chosen, chosens.map (Term.operators ·.written) =
      (chosens.map (·.written)).map Term.operators := fun chosens => by
    rw [List.map_map]
    rfl
  rw [Slot.terms, written, written, List.foldl_append, foldl_operators, List.foldl_cons, foldl_operators]

/-- Behind the operators of its gap an operand goes on with the row, and the slot before gets at least
the postfix operators that it could get. -/
theorem goOn_longest {postfixes prefixes : List OperatorMatch} {binary : OperatorMatch}
    (gap : reading.gap = postfixes ++ binary :: prefixes) (slots : reading.slots = slot :: before)
    (canPostfix : ∀ w ∈ postfixes, w.canBe .postfixOp = true) (canBinary : binary.canBe .binary = true)
    (canPrefix : ∀ w ∈ prefixes, w.canBe .prefixOp = true) (operand : ItemId) (start : Nat) :
    ∃ found next, (reading.goOn operand start) =
        { reading with
          slots := next :: { slot with postfixes := slot.postfixes ++ found } :: before
          gap := []
          running := true } ∧
      next.postfixes = [] ∧ postfixes.length ≤ found.length := by
  obtain ⟨found, isFound, longest⟩ := readGap_longest gap canPostfix canBinary canPrefix
  refine ⟨found.postfixes, { operand, prefixes := found.prefixes, link := some found.binary }, ?_, rfl,
    longest⟩
  have first : ∃ w, reading.gap.head? = some w := by
    rw [← Option.isSome_iff_exists]
    simp [gap]
  have last : ∃ w, reading.gap.getLast? = some w := by
    rw [← Option.isSome_iff_exists]
    simp [gap]
  obtain ⟨first, isFirst⟩ := first
  obtain ⟨last, isLast⟩ := last
  simp only [goOn, isFirst, isLast, isFound, addPostfixes, slots, addSlot]

/-- The rest of a row, as some reading has it, behind a slot that still lacks its postfix operators.
Each slot of it gets at least as many as in that reading. -/
theorem reads_rest {others : List Slot} (picks : ∀ other ∈ others, other.Picks)
    (linked : ∀ other ∈ others, other.link.isSome) (running : reading.running = true)
    (slots : reading.slots = slot :: before) (bare : slot.postfixes = [])
    (canPostfix : ∀ w ∈ reading.gap, w.canBe .postfixOp = true) :
    ((others.flatMap Slot.terms).foldl (add startOf) reading).endRun.faults = reading.faults ∧
      ∃ built, ((others.flatMap Slot.terms).foldl (add startOf) reading).endRun.slots =
          built.reverse ++ before ∧
        List.Forall₂ (fun slot count => count ≤ slot.postfixes.length) built
          (reading.gap.length :: others.map fun other => other.postfixes.length) := by
  induction others generalizing reading slot before with
  | nil =>
      have ended : reading.endRun.slots =
          { slot with postfixes := slot.postfixes ++ reading.gap.map (.ofKind .postfixOp) } :: before := by
        simp [endRun, running, splitPostfixes_all canPostfix, addPostfixes, slots]
      refine ⟨?_, [_], ended, .cons (by simp) .nil⟩
      simp [endRun, running, splitPostfixes_all canPostfix]
  | cons other others ih =>
      obtain ⟨picksOther, picks⟩ := List.forall_mem_cons.mp picks
      obtain ⟨isLinked, linked⟩ := List.forall_mem_cons.mp linked
      obtain ⟨binary, isLink⟩ := Option.isSome_iff_exists.mp isLinked
      have spelled : ({ reading with
          gap := reading.gap ++ binary.written :: other.prefixes.map (·.written) } : Reading).gap = _ := rfl
      obtain ⟨found, next, isNext, bareNext, longest⟩ := goOn_longest spelled slots canPostfix
        (picksOther.link binary isLink).possible (possible_written picksOther.prefixes) other.operand
        (startOf other.operand)
      have step : other.terms.foldl (add startOf) reading =
          { reading with
            slots := next :: { slot with postfixes := slot.postfixes ++ found } :: before
            gap := other.postfixes.map (·.written) } := by
        rw [foldl_terms, isLink]
        simp only [add, Option.toList_some, List.singleton_append, List.map_cons]
        rw [if_pos running, isNext]
        simp [running]
      rw [List.flatMap_cons, List.foldl_append, step]
      obtain ⟨faults, built, isBuilt, lengths⟩ := @ih { reading with
          slots := next :: { slot with postfixes := slot.postfixes ++ found } :: before
          gap := other.postfixes.map (·.written) } _ _ picks linked running rfl bareNext
        (possible_written picksOther.postfixes)
      refine ⟨faults, { slot with postfixes := slot.postfixes ++ found } :: built, ?_, .cons ?_ ?_⟩
      · rw [isBuilt]
        simp
      · simpa [bare] using longest
      · simpa using lengths

/-- A reading of the terms keeps the parser from reporting anything. -/
theorem faultless_of_reads {terms : List Term} {others : List Slot} (reads : Slot.Reads terms others) :
    (ofTerms startOf terms).faults = [] ∧
      List.Forall₂ (fun slot other => other.postfixes.length ≤ slot.postfixes.length)
        (ofTerms startOf terms).slots.reverse others := by
  obtain ⟨unbroken, picks, rfl⟩ := reads
  cases others with
  | nil => cases unbroken
  | cons first others =>
      obtain ⟨noLink, linked⟩ := unbroken
      obtain ⟨picksFirst, picks⟩ := List.forall_mem_cons.mp picks
      have step : first.terms.foldl (add startOf) {} =
          { slots := [{
              operand := first.operand
              prefixes := (first.prefixes.map (·.written)).map (.ofKind .prefixOp) }]
            gap := first.postfixes.map (·.written)
            running := true } := by
        rw [foldl_terms, noLink]
        simp [add, startRun, splitPrefixes_all (possible_written picksFirst.prefixes), withoutOperand,
          leaveOver, addSlot]
      rw [ofTerms, List.flatMap_cons, List.foldl_append, step]
      obtain ⟨faults, built, isBuilt, lengths⟩ := @reads_rest startOf {
          slots := [{
            operand := first.operand
            prefixes := (first.prefixes.map (·.written)).map (.ofKind .prefixOp) }]
          gap := first.postfixes.map (·.written)
          running := true } _ [] _ picks linked rfl rfl rfl (possible_written picksFirst.postfixes)
      refine ⟨faults, ?_⟩
      rw [isBuilt, List.append_nil, List.reverse_reverse]
      simp only [List.length_map] at lengths
      have counts : (first.postfixes.length :: others.map fun other => other.postfixes.length) =
          (first :: others).map fun other => other.postfixes.length := rfl
      rw [counts] at lengths
      exact List.forall₂_map_right_iff.mp lengths

/-! One reading with given runs of postfix operators -/

/-- A row of terms has one first operand. -/
theorem operand_unique {before before' : List OperatorMatch} {first first' : ItemId}
    {behind behind' : List Term}
    (same : before.map Term.operators ++ .operand first :: behind =
      before'.map Term.operators ++ .operand first' :: behind') :
    before = before' ∧ first = first' ∧ behind = behind' := by
  induction before generalizing before' with
  | nil =>
      cases before' with
      | nil => simpa using same
      | cons w before' => simp at same
  | cons w before ih =>
      cases before' with
      | nil => simp at same
      | cons w' before' =>
          simp only [List.map_cons, List.cons_append, List.cons.injEq, Term.operators.injEq] at same
          obtain ⟨rfl, rest⟩ := same
          obtain ⟨rfl, rfl, rfl⟩ := ih rest
          exact ⟨rfl, rfl, rfl⟩

/-- Operators that are picked by kind are known by how they are written. -/
theorem chosens_unique {kind : OperatorKind} {chosens others : List Chosen}
    (picks : ∀ chosen ∈ chosens, chosen.Picks kind) (picksOthers : ∀ chosen ∈ others, chosen.Picks kind)
    (same : chosens.map (·.written) = others.map (·.written)) : chosens = others := by
  have known : ∀ {row : List Chosen}, (∀ chosen ∈ row, chosen.Picks kind) →
      row = (row.map (·.written)).map (.ofKind kind) := by
    intro row picks
    rw [List.map_map]
    exact (List.map_id row).symm.trans (List.map_congr_left fun chosen member =>
      (picks chosen member).eq_ofKind)
  rw [known picks, known picksOthers, same]

theorem slot_unique {other : Slot} (picks : slot.Picks) (picksOther : other.Picks)
    (links : slot.link.isSome = other.link.isSome)
    (front : (slot.link.toList ++ slot.prefixes).map (·.written) =
      (other.link.toList ++ other.prefixes).map (·.written))
    (operand : slot.operand = other.operand)
    (back : slot.postfixes.map (·.written) = other.postfixes.map (·.written)) : slot = other := by
  have postfixes := chosens_unique picks.postfixes picksOther.postfixes back
  have sides : slot.link.toList.map (·.written) = other.link.toList.map (·.written) ∧
      slot.prefixes.map (·.written) = other.prefixes.map (·.written) := by
    rw [List.map_append, List.map_append] at front
    refine List.append_inj front ?_
    cases link : slot.link <;> cases link' : other.link <;> simp_all
  have prefixes := chosens_unique picks.prefixes picksOther.prefixes sides.2
  have sameLink : slot.link.toList = other.link.toList :=
    chosens_unique (fun chosen member => picks.link chosen (Option.mem_toList.mp member))
      (fun chosen member => picksOther.link chosen (Option.mem_toList.mp member)) sides.1
  obtain ⟨item, front, back, link⟩ := slot
  obtain ⟨item', front', back', link'⟩ := other
  cases link <;> cases link' <;> simp_all

/-- With the numbers of postfix operators the reading of a row is known. -/
theorem reading_unique {slots others : List Slot} (picks : ∀ slot ∈ slots, slot.Picks)
    (picksOthers : ∀ slot ∈ others, slot.Picks)
    (alike : List.Forall₂ (fun slot other => slot.link.isSome = other.link.isSome ∧
      slot.postfixes.length = other.postfixes.length) slots others)
    (same : slots.flatMap Slot.terms = others.flatMap Slot.terms) : slots = others := by
  have written : ∀ chosens : List Chosen, chosens.map (Term.operators ·.written) =
      (chosens.map (·.written)).map Term.operators := fun chosens => by
    rw [List.map_map]
    rfl
  induction alike with
  | nil => rfl
  | @cons slot other slots others here _ ih =>
      obtain ⟨picksSlot, picks⟩ := List.forall_mem_cons.mp picks
      obtain ⟨picksOther, picksOthers⟩ := List.forall_mem_cons.mp picksOthers
      simp only [List.flatMap_cons, Slot.terms, List.append_assoc, List.cons_append, written] at same
      obtain ⟨front, operand, behind⟩ := operand_unique same
      obtain ⟨back, rest⟩ := List.append_inj behind (by simpa using here.2)
      have postfixes := List.map_injective_iff.mpr (fun _ _ => Term.operators.inj) back
      rw [slot_unique picksSlot picksOther here.1 front operand postfixes, ih picks picksOthers ?_]
      simpa only [Slot.terms, List.append_assoc, written] using rest

/-- Two readings link the same slots. -/
theorem links_alike {slots others : List Slot} (unbroken : Slot.Unbroken slots)
    (unbrokenOthers : Slot.Unbroken others) {rel : Slot → Slot → Prop}
    (related : List.Forall₂ rel slots others) :
    List.Forall₂ (fun slot other => slot.link.isSome = other.link.isSome ∧ rel slot other) slots others := by
  cases related with
  | nil => exact .nil
  | @cons first first' rest rest' here later =>
      obtain ⟨noLink, linked⟩ := unbroken
      obtain ⟨noLink', linked'⟩ := unbrokenOthers
      refine .cons ⟨by rw [noLink, noLink'], here⟩ ?_
      induction later with
      | nil => exact .nil
      | cons here _ ih =>
          obtain ⟨isLinked, linked⟩ := List.forall_mem_cons.mp linked
          obtain ⟨isLinked', linked'⟩ := List.forall_mem_cons.mp linked'
          exact .cons ⟨by rw [isLinked, isLinked'], here⟩ (ih linked linked')

end Reading

namespace Slot

variable {terms : List Term} {slots others : List Slot}

/-- There is no other reading with runs of postfix operators that are as long. -/
theorem ReadsLongest.unique (longest : ReadsLongest terms slots) (longestOther : ReadsLongest terms others) :
    slots = others := by
  have counts : List.Forall₂ (fun slot other : Slot => slot.postfixes.length = other.postfixes.length)
      slots others := by
    have left := longest.longest others longestOther.toReads
    have right := longestOther.longest slots longest.toReads
    rw [List.forall₂_iff_get] at left right ⊢
    exact ⟨left.1, fun i inside inside' => Nat.le_antisymm (right.2 i inside' inside) (left.2 i inside inside')⟩
  exact Reading.reading_unique longest.picks longestOther.picks
    (Reading.links_alike longest.unbroken longestOther.unbroken counts)
    (longest.spelled.trans longestOther.spelled.symm)

end Slot

namespace Reading

variable (startOf : ItemId → Nat) {terms : List Term}

/-- The parser reports nothing about a row without stray items exactly if the row is empty or has a
reading. -/
theorem faultless_iff (plain : ∀ item, .stray item ∉ terms) :
    (ofTerms startOf terms).faults = [] ↔ terms = [] ∨ ∃ slots, Slot.Reads terms slots := by
  constructor
  · exact fun faultless => (reads_of_faultless startOf plain faultless).imp_right fun reads => ⟨_, reads⟩
  · rintro (rfl | ⟨slots, reads⟩)
    · rfl
    · exact (faultless_of_reads startOf reads).1

/-- What it has then read is the reading with the longest runs of postfix operators. -/
theorem longest_of_faultless (plain : ∀ item, .stray item ∉ terms) (filled : terms ≠ [])
    (faultless : (ofTerms startOf terms).faults = []) :
    Slot.ReadsLongest terms (ofTerms startOf terms).slots.reverse where
  toReads := (reads_of_faultless startOf plain faultless).resolve_left filled
  longest _ reads := (faultless_of_reads startOf reads).2

end Reading

end ExprLang
