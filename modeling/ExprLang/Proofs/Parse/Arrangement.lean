import ExprLang.Proofs.Forest.Row
import ExprLang.Proofs.Parse.Reading

/-!
Where a reading puts the terms. Nothing is lost and nothing moves: slots, operators without a place
and items without one stand in a row in the order of the text, and a slot that is linked stands
directly behind another one.
-/

namespace ExprLang

open Held (item word)

def OperatorMatch.held (written : OperatorMatch) : List Held :=
  written.parts.map fun part => word part.1 part.2

def Term.held : Term → List Held
  | .operand id | .stray id => [item id]
  | .operators written => written.held

def Chosen.held (chosen : Chosen) : List Held := chosen.written.held

namespace Slot

def held (slot : Slot) : List Held :=
  slot.link.toList.flatMap Chosen.held ++ slot.prefixes.flatMap Chosen.held ++ [item slot.operand] ++
    slot.postfixes.flatMap Chosen.held

end Slot

/-- What stands in a row. -/
inductive Placed (α : Type) where
  | whole (value : α)
  /-- An operator without a place in an expression. -/
  | loose (chosen : Chosen)
  /-- An item without one. -/
  | left (id : ItemId)

namespace Placed

variable {α β : Type}

def held (heldOf : α → List Held) : Placed α → List Held
  | whole value => heldOf value
  | loose chosen => chosen.held
  | left id => [item id]

def whole? : Placed α → Option α
  | whole value => some value
  | _ => none

def loose? : Placed α → Option Chosen
  | loose chosen => some chosen
  | _ => none

def left? : Placed α → Option ItemId
  | left id => some id
  | _ => none

def isWhole (placed : Placed α) : Bool := placed.whole?.isSome

end Placed

/-- A row. -/
abbrev Arrangement (α : Type) := List (Placed α)

namespace Arrangement

variable {α : Type}

def held (heldOf : α → List Held) (row : Arrangement α) : List Held := row.flatMap (·.held heldOf)

def wholes (row : Arrangement α) : List α := row.filterMap (·.whole?)

def looses (row : Arrangement α) : List Chosen := row.filterMap (·.loose?)

def lefts (row : Arrangement α) : List ItemId := row.filterMap (·.left?)

/-- Whether a slot may be linked behind the row. -/
def endsWhole : Bool → Arrangement α → Bool
  | before, [] => before
  | _, placed :: rest => endsWhole placed.isWhole rest

/-- What is linked stands behind something whole. -/
def Linked (isLinked : α → Prop) : Bool → Arrangement α → Prop
  | _, [] => True
  | before, placed :: rest =>
      (∀ value, placed = .whole value → isLinked value → before = true) ∧
        Linked isLinked placed.isWhole rest

variable {heldOf : α → List Held} {isLinked : α → Prop} {row more : Arrangement α}

theorem mem_wholes {value : α} : value ∈ wholes row ↔ .whole value ∈ row := by
  constructor
  · intro member
    obtain ⟨placed, inRow, isWhole⟩ := List.mem_filterMap.mp member
    cases placed <;> cases isWhole
    exact inRow
  · exact fun member => List.mem_filterMap.mpr ⟨_, member, rfl⟩

theorem mem_looses {chosen : Chosen} : chosen ∈ looses row ↔ .loose chosen ∈ row := by
  constructor
  · intro member
    obtain ⟨placed, inRow, isLoose⟩ := List.mem_filterMap.mp member
    cases placed <;> cases isLoose
    exact inRow
  · exact fun member => List.mem_filterMap.mpr ⟨_, member, rfl⟩

theorem mem_lefts {id : ItemId} : id ∈ lefts row ↔ .left id ∈ row := by
  constructor
  · intro member
    obtain ⟨placed, inRow, isLeft⟩ := List.mem_filterMap.mp member
    cases placed <;> cases isLeft
    exact inRow
  · exact fun member => List.mem_filterMap.mpr ⟨_, member, rfl⟩

@[simp]
theorem held_append : (row ++ more).held heldOf = row.held heldOf ++ more.held heldOf :=
  List.flatMap_append

@[simp]
theorem wholes_append : wholes (row ++ more) = wholes row ++ wholes more := List.filterMap_append

@[simp]
theorem looses_append : looses (row ++ more) = looses row ++ looses more := List.filterMap_append

@[simp]
theorem lefts_append : lefts (row ++ more) = lefts row ++ lefts more := List.filterMap_append

@[simp]
theorem held_nil : held heldOf ([] : Arrangement α) = [] := rfl

@[simp]
theorem held_cons (placed : Placed α) :
    held heldOf (placed :: row) = placed.held heldOf ++ row.held heldOf := rfl

section Cons

variable (value : α) (chosen : Chosen) (id : ItemId)

@[simp]
theorem wholes_whole : wholes (.whole value :: row) = value :: wholes row := rfl

@[simp]
theorem wholes_loose : wholes (.loose chosen :: row) = wholes row := rfl

@[simp]
theorem wholes_left : wholes (.left id :: row) = wholes row := rfl

@[simp]
theorem looses_whole : looses (.whole value :: row) = looses row := rfl

@[simp]
theorem looses_loose : looses (.loose chosen :: row) = chosen :: looses row := rfl

@[simp]
theorem looses_left : looses (.left id :: row) = looses row := rfl

@[simp]
theorem lefts_whole : lefts (.whole value :: row) = lefts row := rfl

@[simp]
theorem lefts_loose : lefts (.loose chosen :: row) = lefts row := rfl

@[simp]
theorem lefts_left : lefts (.left id :: row) = id :: lefts row := rfl

end Cons

@[simp]
theorem wholes_nil : wholes ([] : Arrangement α) = [] := rfl

@[simp]
theorem looses_nil : looses ([] : Arrangement α) = [] := rfl

@[simp]
theorem lefts_nil : lefts ([] : Arrangement α) = [] := rfl

theorem endsWhole_append {before : Bool} :
    endsWhole before (row ++ more) = endsWhole (endsWhole before row) more := by
  induction row generalizing before with
  | nil => rfl
  | cons placed rest ih => exact ih

theorem linked_append {before : Bool} : Linked isLinked before (row ++ more) ↔
    Linked isLinked before row ∧ Linked isLinked (endsWhole before row) more := by
  induction row generalizing before with
  | nil => simp [Linked, endsWhole]
  | cons placed rest ih =>
      rw [List.cons_append, Linked, Linked, endsWhole, ih, and_assoc]

/-- What comes first is not linked. -/
theorem Linked.head (linked : Linked isLinked false row) {first : α} {rest : List α}
    (parts : wholes row = first :: rest) : ¬ isLinked first := by
  induction row with
  | nil => cases parts
  | cons placed others ih =>
      cases placed with
      | whole value =>
          cases parts
          exact fun isLinked => Bool.false_ne_true (linked.1 first rfl isLinked)
      | loose chosen => exact ih linked.2 parts
      | left id => exact ih linked.2 parts

theorem endsWhole_iff : endsWhole false row = true ↔ ∃ before value, row = before ++ [.whole value] := by
  constructor
  · intro ends
    rcases List.eq_nil_or_concat row with rfl | ⟨before, last, rfl⟩
    · cases ends
    · rw [List.concat_eq_append, endsWhole_append] at ends
      cases last with
      | whole value => exact ⟨before, value, List.concat_eq_append⟩
      | loose chosen => cases ends
      | left id => cases ends
  · rintro ⟨before, value, rfl⟩
    rw [endsWhole_append]
    rfl

/-- Operators without a place, as they stand. -/
def ofLoose (written : List OperatorMatch) : Arrangement α :=
  written.map fun w => .loose (.ofFirst w)

section Loose

variable (written : List OperatorMatch)

@[simp]
theorem held_ofLoose : (ofLoose written).held heldOf = written.flatMap OperatorMatch.held := by
  simp [ofLoose, held, List.flatMap_map, Placed.held, Chosen.held, Chosen.ofFirst]

@[simp]
theorem wholes_ofLoose : wholes (ofLoose written : Arrangement α) = [] := by
  simp [ofLoose, wholes, Placed.whole?]

@[simp]
theorem looses_ofLoose : looses (ofLoose written : Arrangement α) = written.map .ofFirst := by
  simp [ofLoose, looses, List.filterMap_map, Placed.loose?]

@[simp]
theorem lefts_ofLoose : lefts (ofLoose written : Arrangement α) = [] := by
  simp [ofLoose, lefts, Placed.left?]

theorem linked_ofLoose (before : Bool) : Linked isLinked before (ofLoose written) := by
  induction written generalizing before with
  | nil => trivial
  | cons first rest ih => exact ⟨fun _ isWhole => (nomatch isWhole), ih _⟩

end Loose

end Arrangement

/-! Readings -/

/-- The operator is of this kind and written somewhere. -/
structure Chosen.Is (kind : OperatorKind) (chosen : Chosen) : Prop where
  kind : chosen.operator.kind = kind
  filled : chosen.written.parts ≠ []

structure Slot.Proper (slot : Slot) : Prop where
  prefixes : ∀ chosen ∈ slot.prefixes, chosen.Is .prefixOp
  postfixes : ∀ chosen ∈ slot.postfixes, chosen.Is .postfixOp
  link : ∀ chosen ∈ slot.link, chosen.Is .binary

theorem Chosen.ofKind_is {kind : OperatorKind} {written : OperatorMatch}
    (possible : written.canBe kind = true) (filled : written.parts ≠ []) :
    (Chosen.ofKind kind written).Is kind := by
  obtain ⟨operator, found⟩ := Option.isSome_iff_exists.mp possible
  refine ⟨?_, filled⟩
  have named : (operator.kind == kind) = true :=
    List.find?_some (p := fun operator : Operator => operator.kind == kind) found
  rw [ofKind, found]
  exact eq_of_beq named

namespace Reading

/-- The row of what has been read, without the operators behind the last operand. -/
structure Arranged (reading : Reading) (done : List Held) (row : Arrangement Slot) : Prop where
  held : row.held Slot.held = done
  slots : row.wholes = reading.slots.reverse
  looses : row.looses = reading.leftOperators
  lefts : row.lefts = reading.leftItems
  linked : row.Linked (fun slot => slot.link.isSome = true) false
  proper : ∀ slot ∈ row.wholes, slot.Proper
  filled : ∀ chosen ∈ row.looses, chosen.written.parts ≠ []

namespace Arranged

variable {reading : Reading} {done : List Held} {row : Arrangement Slot}

theorem of_same (arranged : reading.Arranged done row) (other : Reading)
    (slots : other.slots = reading.slots) (operators : other.leftOperators = reading.leftOperators)
    (items : other.leftItems = reading.leftItems) : other.Arranged done row where
  held := arranged.held
  slots := slots ▸ arranged.slots
  looses := operators ▸ arranged.looses
  lefts := items ▸ arranged.lefts
  linked := arranged.linked
  proper := arranged.proper
  filled := arranged.filled

variable (arranged : reading.Arranged done row)

include arranged

theorem leaveOver {written : List OperatorMatch} (filled : ∀ w ∈ written, w.parts ≠ []) :
    (reading.leaveOver written).Arranged (done ++ written.flatMap OperatorMatch.held)
      (row ++ .ofLoose written) where
  held := by rw [Arrangement.held_append, arranged.held, Arrangement.held_ofLoose]
  slots := by rw [Arrangement.wholes_append, arranged.slots, Arrangement.wholes_ofLoose]; simp
  looses := by rw [Arrangement.looses_append, arranged.looses, Arrangement.looses_ofLoose]; rfl
  lefts := by rw [Arrangement.lefts_append, arranged.lefts, Arrangement.lefts_ofLoose]; simp [Reading.leaveOver]
  linked := Arrangement.linked_append.mpr ⟨arranged.linked, Arrangement.linked_ofLoose written _⟩
  proper := by simpa using arranged.proper
  filled chosen member := by
    rw [Arrangement.looses_append, Arrangement.looses_ofLoose] at member
    rcases List.mem_append.mp member with old | new
    · exact arranged.filled chosen old
    · obtain ⟨w, inWritten, rfl⟩ := List.mem_map.mp new
      exact filled w inWritten

theorem withoutOperand {written : List OperatorMatch} (filled : ∀ w ∈ written, w.parts ≠ []) :
    (reading.withoutOperand written).Arranged (done ++ written.flatMap OperatorMatch.held)
      (row ++ .ofLoose written) := by
  have reported : ∀ {reading : Reading}, reading.Arranged done row → (written.foldl
      (fun reading w => reading.report w.start w.length (.operandMissing w.text))
      reading).Arranged done row := by
    clear filled
    induction written with
    | nil => exact fun arranged => arranged
    | cons first rest ih => exact fun arranged => ih (arranged.of_same _ rfl rfl rfl)
  exact (reported arranged).leaveOver filled

/-- A slot behind the row. -/
theorem addSlot (slot : Slot) (proper : slot.Proper)
    (linked : slot.link.isSome = true → row.endsWhole false = true) :
    (reading.addSlot slot).Arranged (done ++ slot.held) (row ++ [.whole slot]) where
  held := by rw [Arrangement.held_append, arranged.held]; simp [Placed.held]
  slots := by
    simp [arranged.slots, Reading.addSlot]
  looses := by
    simp [arranged.looses, Reading.addSlot]
  lefts := by
    simp [arranged.lefts, Reading.addSlot]
  linked := by
    refine Arrangement.linked_append.mpr ⟨arranged.linked, ?_, trivial⟩
    intro value isWhole isLinked
    cases isWhole
    exact linked isLinked
  proper other member := by
    rw [Arrangement.wholes_append] at member
    rcases List.mem_append.mp member with old | new
    · exact arranged.proper other old
    · obtain rfl : other = slot := by simpa using new
      exact proper
  filled := by
    simpa using arranged.filled

theorem addLeft (id : ItemId) : Reading.Arranged
    { reading with leftItems := reading.leftItems ++ [id] } (done ++ [item id]) (row ++ [.left id]) where
  held := by rw [Arrangement.held_append, arranged.held]; simp [Placed.held]
  slots := by simp [arranged.slots]
  looses := by simp [arranged.looses]
  lefts := by simp [arranged.lefts]
  linked := Arrangement.linked_append.mpr ⟨arranged.linked, fun _ isWhole => (nomatch isWhole), trivial⟩
  proper := by simpa using arranged.proper
  filled := by simpa using arranged.filled

/-- The last slot of the row takes postfix operators. -/
theorem addPostfixes {postfixes : List Chosen} (ends : row.endsWhole false = true)
    (proper : ∀ chosen ∈ postfixes, chosen.Is .postfixOp) :
    ∃ row', (reading.addPostfixes postfixes).Arranged (done ++ postfixes.flatMap Chosen.held) row' ∧
      row'.endsWhole false = true := by
  obtain ⟨before, slot, rfl⟩ := Arrangement.endsWhole_iff.mp ends
  have slots := arranged.slots
  rw [Arrangement.wholes_append] at slots
  -- The last slot of the row is the first of the reading's, which has them in reverse.
  obtain ⟨rest, listed, behind⟩ : ∃ rest, reading.slots = slot :: rest ∧
      Arrangement.wholes before = rest.reverse := by
    cases given : reading.slots with
    | nil =>
        rw [given] at slots
        simp at slots
    | cons first rest =>
        rw [given, List.reverse_cons] at slots
        obtain ⟨same, last⟩ := List.append_inj' slots rfl
        obtain rfl : slot = first := by simpa using last
        exact ⟨rest, rfl, same⟩
  have given := arranged.proper slot (by simp)
  refine ⟨before ++ [.whole { slot with postfixes := slot.postfixes ++ postfixes }], ?_, ?_⟩
  · have held := arranged.held
    have linked := Arrangement.linked_append.mp arranged.linked
    have properBefore : ∀ other ∈ Arrangement.wholes before, other.Proper := by
      intro other member
      refine arranged.proper other ?_
      rw [Arrangement.wholes_append]
      exact List.mem_append_left _ member
    have looses : Arrangement.looses before = reading.leftOperators := by
      simpa using arranged.looses
    have lefts : Arrangement.lefts before = reading.leftItems := by
      simpa using arranged.lefts
    unfold Reading.addPostfixes
    rw [listed]
    refine ⟨?_, ?_, by simpa using looses, by simpa using lefts, ?_, ?_, ?_⟩
    · rw [← held, Arrangement.held_append]
      simp [Placed.held, Slot.held]
    · simp [behind]
    · refine Arrangement.linked_append.mpr ⟨linked.1, ?_, trivial⟩
      intro value isWhole isLinked
      cases isWhole
      exact linked.2.1 slot rfl isLinked
    · intro other member
      rw [Arrangement.wholes_append] at member
      rcases List.mem_append.mp member with old | new
      · exact properBefore other old
      · obtain rfl : other = { slot with postfixes := slot.postfixes ++ postfixes } := by
          simpa using new
        refine ⟨given.prefixes, ?_, given.link⟩
        intro chosen member
        rcases List.mem_append.mp member with old | new
        · exact given.postfixes chosen old
        · exact proper chosen new
    · simpa using arranged.filled
  · exact Arrangement.endsWhole_iff.mpr ⟨before, _, rfl⟩

end Arranged

/-! The operators between two operands -/

theorem splitPrefixes_spec (gap : List OperatorMatch) :
    (splitPrefixes gap).1 ++ (splitPrefixes gap).2 = gap ∧
      ∀ written ∈ (splitPrefixes gap).2, written.canBe .prefixOp = true := by
  unfold splitPrefixes
  simp only [List.splitAt_eq, List.take_append_drop, true_and]
  have whole := List.takeWhile_append_dropWhile (p := fun written : OperatorMatch =>
    written.canBe .prefixOp) (l := gap.reverse)
  have possible := List.all_takeWhile (p := fun written : OperatorMatch => written.canBe .prefixOp)
    (l := gap.reverse)
  generalize gap.reverse.takeWhile _ = last at whole possible ⊢
  generalize gap.reverse.dropWhile _ = first at whole
  have parts : gap = first.reverse ++ last.reverse := by
    rw [← List.reverse_append, whole, List.reverse_reverse]
  have behind : gap.drop (gap.length - last.length) = last.reverse := by
    have count : gap.length - last.length = first.reverse.length := by
      have total := congrArg List.length parts
      simp only [List.length_append, List.length_reverse] at total ⊢
      omega
    rw [count]
    conv_lhs => rw [parts]
    exact List.drop_left
  rw [behind]
  exact fun written member => List.all_eq_true.mp possible written (List.mem_reverse.mp member)

theorem splitPostfixes_spec (gap : List OperatorMatch) :
    (splitPostfixes gap).1 ++ (splitPostfixes gap).2 = gap ∧
      ∀ written ∈ (splitPostfixes gap).1, written.canBe .postfixOp = true := by
  unfold splitPostfixes
  rw [List.span_eq_takeWhile_dropWhile]
  refine ⟨List.takeWhile_append_dropWhile, fun written member => ?_⟩
  exact List.all_eq_true.mp List.all_takeWhile written member

/-- A reading of a gap takes all of it. -/
theorem readGap_spec {gap : List OperatorMatch} {reading : GapReading}
    (found : readGap? gap = some reading) : ∃ postfixes binary prefixes,
      gap = postfixes ++ binary :: prefixes ∧
      reading = ⟨postfixes.map (.ofKind .postfixOp), .ofKind .binary binary,
        prefixes.map (.ofKind .prefixOp)⟩ ∧
      (∀ written ∈ postfixes, written.canBe .postfixOp = true) ∧ binary.canBe .binary = true ∧
      ∀ written ∈ prefixes, written.canBe .prefixOp = true := by
  unfold readGap? at found
  split at found
  · cases found
  · rename_i place chosen
    obtain ⟨binary, here, rfl⟩ := Option.map_eq_some_iff.mp found
    have fits := List.find?_some chosen
    simp only [canSplitAt, Bool.and_eq_true, here, Option.any_some, List.all_eq_true] at fits
    obtain ⟨inside, rfl⟩ := List.getElem?_eq_some_iff.mp here
    refine ⟨gap.take place, gap[place], gap.drop (place + 1), ?_, rfl, fits.1.1, fits.1.2, fits.2⟩
    rw [List.cons_getElem_drop_succ, List.take_append_drop]

/-- What has been read, with the operators behind the last operand. -/
structure Covers (reading : Reading) (text : List Held) : Prop where
  arranged : ∃ done row, reading.Arranged done row ∧
    text = done ++ reading.gap.flatMap OperatorMatch.held ∧
    (reading.running = true → row.endsWhole false = true)
  filled : ∀ written ∈ reading.gap, written.parts ≠ []

theorem ofKind_proper {kind : OperatorKind} {written : List OperatorMatch}
    (filled : ∀ w ∈ written, w.parts ≠ []) (possible : ∀ w ∈ written, w.canBe kind = true)
    (chosen : Chosen) (member : chosen ∈ written.map (.ofKind kind)) : chosen.Is kind := by
  obtain ⟨w, inWritten, rfl⟩ := List.mem_map.mp member
  exact Chosen.ofKind_is (possible w inWritten) (filled w inWritten)

theorem held_ofKind (kind : OperatorKind) (written : List OperatorMatch) :
    (written.map (Chosen.ofKind kind)).flatMap Chosen.held = written.flatMap OperatorMatch.held :=
  List.flatMap_map _ _ _

theorem endsWhole_snoc (row : Arrangement Slot) (slot : Slot) :
    (row ++ [Placed.whole slot]).endsWhole false = true :=
  Arrangement.endsWhole_iff.mpr ⟨row, slot, rfl⟩

variable {reading : Reading} {text done : List Held} {row : Arrangement Slot}

theorem covers_startRun (covers : reading.Covers text) (operand : ItemId) :
    (reading.startRun operand).Covers (text ++ [item operand]) := by
  obtain ⟨done, row, arranged, rfl, _⟩ := covers.arranged
  obtain ⟨parts, possible⟩ := splitPrefixes_spec reading.gap
  have filled := covers.filled
  unfold startRun
  generalize splitPrefixes reading.gap = split at parts possible ⊢
  obtain ⟨before, prefixes⟩ := split
  dsimp only at parts possible ⊢
  rw [← parts] at filled ⊢
  have first := arranged.withoutOperand fun w member => filled w (List.mem_append_left _ member)
  have second := first.addSlot { operand, prefixes := prefixes.map (.ofKind .prefixOp) } ?_ ?_
  · refine ⟨⟨_, _, second, ?_, fun _ => endsWhole_snoc _ _⟩, by simp [addSlot]⟩
    simp [Slot.held, held_ofKind, addSlot]
  · refine ⟨?_, by simp, by simp⟩
    exact ofKind_proper (fun w member => filled w (List.mem_append_right _ member)) possible
  · simp

theorem covers_goOn (covers : reading.Covers text) (running : reading.running = true)
    (operand : ItemId) (start : Nat) : (reading.goOn operand start).Covers (text ++ [item operand]) := by
  obtain ⟨done, row, arranged, rfl, last⟩ := covers.arranged
  have filled := covers.filled
  unfold goOn
  split
  · split
    · rename_i gap found
      obtain ⟨postfixes, binary, prefixes, parts, rfl, canPostfix, canBinary, canPrefix⟩ :=
        -- The gap is read as postfixes, one binary operator, and prefixes.
        readGap_spec found
      rw [parts] at filled ⊢
      have filledBehind : ∀ w ∈ binary :: prefixes, w.parts ≠ [] := fun w member =>
        filled w (List.mem_append_right _ member)
      obtain ⟨row', first, ends⟩ := arranged.addPostfixes (last running)
        (ofKind_proper (fun w member => filled w (List.mem_append_left _ member)) canPostfix)
      have second := first.addSlot {
        operand
        prefixes := prefixes.map (.ofKind .prefixOp)
        link := some (.ofKind .binary binary) } ?_ fun _ => ends
      · refine ⟨⟨_, _, second, ?_, fun _ => endsWhole_snoc _ _⟩, by simp [addSlot]⟩
        simp [Slot.held, held_ofKind, addSlot, Chosen.held, Chosen.ofKind]
      · refine ⟨?_, by simp, ?_⟩
        · exact ofKind_proper (fun w member => filledBehind w (List.mem_cons_of_mem _ member)) canPrefix
        · intro chosen isLink
          cases isLink
          exact Chosen.ofKind_is canBinary (filledBehind binary List.mem_cons_self)
    -- There is no such reading. What stands between postfixes and prefixes is left over.
    · obtain ⟨parts, canPostfix⟩ := splitPostfixes_spec reading.gap
      generalize splitPostfixes reading.gap = split at parts canPostfix ⊢
      obtain ⟨postfixes, others⟩ := split
      obtain ⟨partsOthers, canPrefix⟩ := splitPrefixes_spec others
      dsimp only at parts canPostfix ⊢
      generalize splitPrefixes others = split at partsOthers canPrefix ⊢
      obtain ⟨between, prefixes⟩ := split
      dsimp only at partsOthers canPrefix ⊢
      rw [← parts, ← partsOthers] at filled ⊢
      have filledBehind : ∀ w ∈ between ++ prefixes, w.parts ≠ [] := fun w member =>
        filled w (List.mem_append_right _ member)
      obtain ⟨row', first, _⟩ := (arranged.of_same (reading.report _ _ _) rfl rfl rfl).addPostfixes
        (last running) (ofKind_proper (fun w member => filled w (List.mem_append_left _ member)) canPostfix)
      have second := first.leaveOver fun w member => filledBehind w (List.mem_append_left _ member)
      have third := second.addSlot { operand, prefixes := prefixes.map (.ofKind .prefixOp) }
        ?_ (by simp)
      · refine ⟨⟨_, _, third, ?_, fun _ => endsWhole_snoc _ _⟩, by simp [addSlot]⟩
        simp [Slot.held, held_ofKind, addSlot]
      · refine ⟨?_, by simp, by simp⟩
        exact ofKind_proper (fun w member => filledBehind w (List.mem_append_right _ member)) canPrefix
  -- There is nothing between the two operands.
  · rename_i none
    have empty : reading.gap = [] := by
      cases gap : reading.gap with
      | nil => rfl
      | cons first rest =>
          rw [gap] at none
          exact (none first ((first :: rest).getLast (by simp)) rfl (List.getLast?_eq_some_getLast _)).elim
    have second := (arranged.of_same (reading.report start 0 .noSeparationBetweenSymbols)
      rfl rfl rfl).addSlot { operand } ⟨by simp, by simp, by simp⟩ (by simp)
    refine ⟨⟨_, _, second, ?_, fun _ => endsWhole_snoc _ _⟩, by simp [addSlot]⟩
    simp [empty, Slot.held, addSlot]

theorem gap_addPostfixes (postfixes : List Chosen) :
    (reading.addPostfixes postfixes).gap = reading.gap ∧
      (reading.addPostfixes postfixes).running = reading.running := by
  unfold addPostfixes
  split <;> exact ⟨rfl, rfl⟩

theorem gap_withoutOperand (reading : Reading) (written : List OperatorMatch) :
    (reading.withoutOperand written).gap = reading.gap ∧
      (reading.withoutOperand written).running = reading.running := by
  have reported : ∀ before : Reading, (written.foldl
      (fun reading w => reading.report w.start w.length (.operandMissing w.text)) before).gap =
        before.gap ∧ (written.foldl
      (fun reading w => reading.report w.start w.length (.operandMissing w.text)) before).running =
        before.running := by
    induction written with
    | nil => exact fun _ => ⟨rfl, rfl⟩
    | cons first rest ih => exact fun before => ih (before.report _ _ _)
  exact reported reading

theorem covers_endRun (covers : reading.Covers text) :
    reading.endRun.Covers text ∧ reading.endRun.gap = [] ∧ reading.endRun.running = false := by
  obtain ⟨done, row, arranged, rfl, last⟩ := covers.arranged
  have filled := covers.filled
  unfold endRun
  dsimp only
  split
  · rename_i running
    obtain ⟨parts, canPostfix⟩ := splitPostfixes_spec reading.gap
    generalize splitPostfixes reading.gap = split at parts canPostfix ⊢
    obtain ⟨postfixes, others⟩ := split
    dsimp only at parts canPostfix ⊢
    rw [← parts] at filled ⊢
    obtain ⟨row', first, _⟩ := (arranged.of_same { reading with gap := [], running := false }
      rfl rfl rfl).addPostfixes (last running)
      (ofKind_proper (fun w member => filled w (List.mem_append_left _ member)) canPostfix)
    have second := first.withoutOperand fun w member => filled w (List.mem_append_right _ member)
    obtain ⟨gap, ended⟩ := gap_withoutOperand
      (Reading.addPostfixes { reading with gap := [], running := false }
        (postfixes.map (.ofKind .postfixOp))) others
    rw [(gap_addPostfixes _).1] at gap
    rw [(gap_addPostfixes _).2] at ended
    refine ⟨⟨⟨_, _, second, ?_, ?_⟩, ?_⟩, gap, ended⟩
    · simp [gap, held_ofKind]
    · simp [ended]
    · simp [gap]
  · have second := (arranged.of_same { reading with gap := [], running := false }
      rfl rfl rfl).withoutOperand filled
    obtain ⟨gap, ended⟩ := gap_withoutOperand
      { reading with gap := [], running := false } reading.gap
    refine ⟨⟨⟨_, _, second, ?_, ?_⟩, ?_⟩, gap, ended⟩
    · simp [gap]
    · simp [ended]
    · simp [gap]

theorem covers_add (startOf : ItemId → Nat) {term : Term} (covers : reading.Covers text)
    (filled : ∀ written, term = .operators written → written.parts ≠ []) :
    (reading.add startOf term).Covers (text ++ term.held) := by
  cases term with
  | operators written =>
      obtain ⟨done, row, arranged, rfl, last⟩ := covers.arranged
      refine ⟨⟨done, row, arranged.of_same _ rfl rfl rfl, ?_, last⟩, ?_⟩
      · simp [add, Term.held]
      · intro other member
        rcases List.mem_append.mp member with old | new
        · exact covers.filled other old
        · obtain rfl := List.mem_singleton.mp new
          exact filled other rfl
  | operand id =>
      unfold add
      dsimp only
      split
      · rename_i running
        exact covers_goOn covers running id _
      · exact covers_startRun covers id
  | stray id =>
      obtain ⟨ended, gap, running⟩ := covers_endRun covers
      obtain ⟨done, row, arranged, same, _⟩ := ended.arranged
      simp only [gap, List.flatMap_nil, List.append_nil] at same
      subst same
      refine ⟨⟨text ++ [item id], row ++ [.left id], ?_, ?_, ?_⟩, ?_⟩
      · exact arranged.addLeft id
      · simp [add, gap, Term.held]
      · simp [add, running]
      · simp [add, gap]

/-- A reading of a whole segment. -/
theorem arranged_ofTerms (startOf : ItemId → Nat) {terms : List Term}
    (filled : ∀ written, .operators written ∈ terms → written.parts ≠ []) :
    ∃ row, (ofTerms startOf terms).Arranged (terms.flatMap Term.held) row := by
  have folded : ∀ (rest : List Term) (reading : Reading) (text : List Held),
      (∀ written, .operators written ∈ rest → written.parts ≠ []) → reading.Covers text →
      (rest.foldl (add startOf) reading).Covers (text ++ rest.flatMap Term.held) := by
    intro rest
    induction rest with
    | nil => exact fun reading text _ covers => by simpa using covers
    | cons term rest ih =>
        intro reading text filled covers
        have first := covers_add startOf covers fun written isOperator =>
          filled written (isOperator ▸ List.mem_cons_self)
        have later := ih _ _ (fun written member => filled written (List.mem_cons_of_mem _ member)) first
        simpa using later
  have start : ({} : Reading).Covers [] :=
    ⟨⟨[], [], ⟨rfl, rfl, rfl, rfl, trivial, by simp, by simp⟩, rfl, by simp⟩, by simp⟩
  obtain ⟨ended, gap, _⟩ := covers_endRun (folded terms {} [] filled start)
  obtain ⟨done, row, arranged, same, _⟩ := ended.arranged
  refine ⟨row, ?_⟩
  simp only [gap, List.flatMap_nil, List.append_nil, List.nil_append] at same
  rw [same]
  exact arranged

end Reading

end ExprLang
