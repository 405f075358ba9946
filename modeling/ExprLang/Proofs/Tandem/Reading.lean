import ExprLang.Proofs.Tandem.Steps
import ExprLang.Proofs.Parse.Arrangement

/-!
Two rows of terms that lie beside one another are read in the same way: where an operator finds its
place depends on what it can be only, and not on where it stands or how it is written.
-/

namespace ExprLang

open Tandem (FaultAlike)

variable {α β : Type}

/-! Rows -/

theorem insertBy_map {le : α → α → Bool} {le' : β → β → Bool} {f : α → β} {value : α} {row : List α}
    (same : ∀ other ∈ row, le' (f value) (f other) = le value other) :
    insertBy le' (f value) (row.map f) = (insertBy le value row).map f := by
  induction row with
  | nil => rfl
  | cons other rest ih =>
      simp only [List.map_cons, insertBy, same other List.mem_cons_self]
      split
      · rfl
      · rw [ih fun x member => same x (List.mem_cons_of_mem _ member), List.map_cons]

theorem sortBy_map {le : α → α → Bool} {le' : β → β → Bool} {f : α → β} {row : List α}
    (same : ∀ a ∈ row, ∀ b ∈ row, le' (f a) (f b) = le a b) :
    sortBy le' (row.map f) = (sortBy le row).map f := by
  induction row with
  | nil => rfl
  | cons value rest ih =>
      simp only [List.map_cons, sortBy]
      rw [ih fun a memberA b memberB => same a (List.mem_cons_of_mem _ memberA) b
        (List.mem_cons_of_mem _ memberB)]
      apply insertBy_map
      intro other member
      exact same value List.mem_cons_self other (List.mem_cons_of_mem _ (sortBy_perm.mem_iff.mp member))

theorem mergeBy_map {le : α → α → Bool} {le' : β → β → Bool} {f : α → β}
    (same : ∀ a b, le' (f a) (f b) = le a b) (left right : List α) :
    mergeBy le' (left.map f) (right.map f) = (mergeBy le left right).map f := by
  induction left generalizing right with
  | nil => rfl
  | cons a as ih =>
      induction right with
      | nil => simp only [List.map_nil, mergeBy_nil]
      | cons b bs ihRight =>
          simp only [List.map_cons] at ihRight ⊢
          rw [mergeBy_cons_cons, mergeBy_cons_cons, same]
          split
          · rw [List.map_cons, ← ih (b :: bs), List.map_cons]
          · rw [List.map_cons, ← ihRight]

namespace Tandem

variable {W : Tandem} (lawful : W.Lawful)

/-! Images -/

def carryChosen (W : Tandem) (chosen : Chosen) : Chosen :=
  { chosen with written := W.carryMatch chosen.written }

def carrySlot (W : Tandem) (slot : Slot) : Slot where
  operand := W.rename slot.operand
  prefixes := slot.prefixes.map W.carryChosen
  postfixes := slot.postfixes.map W.carryChosen
  link := slot.link.map W.carryChosen

def carryTerm (W : Tandem) : Term → Term
  | .operand item => .operand (W.rename item)
  | .operators written => .operators (W.carryMatch written)
  | .stray item => .stray (W.rename item)

structure ReadingAlike (W : Tandem) (reading other : Reading) : Prop where
  slots : other.slots = reading.slots.map W.carrySlot
  gap : other.gap = reading.gap.map W.carryMatch
  running : other.running = reading.running
  leftOperators : other.leftOperators = reading.leftOperators.map W.carryChosen
  leftItems : other.leftItems = reading.leftItems.map W.rename
  faults : List.Forall₂ W.FaultAlike reading.faults other.faults
  filled : ∀ written ∈ reading.gap, written.parts ≠ []

/-! Operators -/

section Operators

variable {written : OperatorMatch}

theorem start_carryMatch (filled : written.parts ≠ []) :
    (W.carryMatch written).start = W.move written.start := by
  cases parts : written.parts with
  | nil => exact absurd parts filled
  | cons first rest => simp [OperatorMatch.start, carryMatch, parts]

theorem canBe_carryMatch (kind : OperatorKind) :
    (W.carryMatch written).canBe kind = written.canBe kind := rfl

@[simp]
theorem toList_word (text : String) : (W.word text).toList = text.toList.map W.fold := by
  simp [word]

include lawful

theorem stop_carryMatch (rigid : W.rigid) (filled : written.parts ≠ []) :
    (W.carryMatch written).stop = W.move written.stop := by
  obtain ⟨distance, moves, _⟩ := lawful.distance rigid
  obtain ⟨last, isLast⟩ := Option.ne_none_iff_exists'.mp (mt List.getLast?_eq_none_iff.mp filled)
  simp only [OperatorMatch.stop, carryMatch, List.getLast?_map, isLast, Option.map_some,
    Option.getD_some, length_word, moves]
  omega

theorem length_carryMatch (rigid : W.rigid) (filled : written.parts ≠ []) :
    (W.carryMatch written).length = written.length := by
  obtain ⟨distance, moves, _⟩ := lawful.distance rigid
  rw [OperatorMatch.length, OperatorMatch.length, start_carryMatch filled,
    stop_carryMatch lawful rigid filled, moves, moves]
  omega

theorem text_carryMatch : (W.carryMatch written).text = W.word written.text := by
  have joined : ∀ words : List String, joinWords (words.map W.word) = W.word (joinWords words) := by
    intro words
    apply String.toList_injective
    simp only [joinWords, String.toList_intercalate, List.map_map, toList_word, Function.comp_def]
    induction words with
    | nil => rfl
    | cons first rest ih =>
        cases rest with
        | nil => simp [List.intercalate]
        | cons second rest =>
            simp only [List.map_cons, List.intercalate_cons_cons, List.map_append] at ih ⊢
            rw [ih]
            simp [lawful.blank]
  simp only [OperatorMatch.text, carryMatch, List.map_map, Function.comp_def, ← joined]

end Operators

/-! Gaps between operands -/

theorem canSplitAt_map (gap : List OperatorMatch) (place : Nat) :
    canSplitAt (gap.map W.carryMatch) place = canSplitAt gap place := by
  simp only [canSplitAt, ← List.map_take, ← List.map_drop, List.all_map, List.getElem?_map,
    Option.any_map, Function.comp_def, canBe_carryMatch]

theorem ofKind_map (kind : OperatorKind) (gap : List OperatorMatch) :
    (gap.map W.carryMatch).map (Chosen.ofKind kind) = (gap.map (Chosen.ofKind kind)).map W.carryChosen := by
  rw [List.map_map, List.map_map]
  rfl

theorem ofFirst_map (gap : List OperatorMatch) :
    (gap.map W.carryMatch).map Chosen.ofFirst = (gap.map Chosen.ofFirst).map W.carryChosen := by
  rw [List.map_map, List.map_map]
  rfl

def carryGap (W : Tandem) (gap : GapReading) : GapReading where
  postfixes := gap.postfixes.map W.carryChosen
  binary := W.carryChosen gap.binary
  prefixes := gap.prefixes.map W.carryChosen

theorem readGap_map (gap : List OperatorMatch) :
    readGap? (gap.map W.carryMatch) = (readGap? gap).map W.carryGap := by
  have place : (List.range (gap.map W.carryMatch).length).reverse.find?
      (canSplitAt (gap.map W.carryMatch)) = (List.range gap.length).reverse.find? (canSplitAt gap) := by
    rw [List.length_map]
    exact congrArg (List.find? · _) (funext fun place => canSplitAt_map gap place)
  unfold readGap?
  rw [place]
  split
  · rfl
  · rw [List.getElem?_map, Option.map_map, Option.map_map]
    congr 1
    funext binary
    simp only [Function.comp_apply, carryGap, ← List.map_take, ← List.map_drop, ofKind_map]
    rfl

theorem splitPostfixes_map (gap : List OperatorMatch) : splitPostfixes (gap.map W.carryMatch) =
    ((splitPostfixes gap).1.map W.carryMatch, (splitPostfixes gap).2.map W.carryMatch) := by
  simp only [splitPostfixes, List.span_eq_takeWhile_dropWhile, List.takeWhile_map,
    List.dropWhile_map, Function.comp_def, canBe_carryMatch]

theorem splitPrefixes_map (gap : List OperatorMatch) : splitPrefixes (gap.map W.carryMatch) =
    ((splitPrefixes gap).1.map W.carryMatch, (splitPrefixes gap).2.map W.carryMatch) := by
  simp only [splitPrefixes, List.splitAt_eq, ← List.map_reverse, List.takeWhile_map,
    Function.comp_def, canBe_carryMatch, List.length_map, List.map_take, List.map_drop]

/-! Steps of a reading -/

namespace ReadingAlike

variable {reading other : Reading} (alike : W.ReadingAlike reading other)

include alike

theorem report {start length start' length' : Nat} {cause cause' : Fault.Cause}
    (same : W.rigid → start' = W.move start ∧ length' = length ∧ cause' = W.carryCause cause) :
    W.ReadingAlike (reading.report start length cause) (other.report start' length' cause') where
  slots := alike.slots
  gap := alike.gap
  running := alike.running
  leftOperators := alike.leftOperators
  leftItems := alike.leftItems
  faults := by
    refine List.rel_append alike.faults (List.Forall₂.cons (fun rigid => ?_) List.Forall₂.nil)
    obtain ⟨rfl, rfl, rfl⟩ := same rigid
    rfl
  filled := alike.filled

theorem leaveOver (written : List OperatorMatch) :
    W.ReadingAlike (reading.leaveOver written) (other.leaveOver (written.map W.carryMatch)) where
  slots := alike.slots
  gap := alike.gap
  running := alike.running
  leftOperators := by simp only [Reading.leaveOver, alike.leftOperators, ofFirst_map, List.map_append]
  leftItems := alike.leftItems
  faults := alike.faults
  filled := alike.filled

theorem addPostfixes (postfixes : List Chosen) :
    W.ReadingAlike (reading.addPostfixes postfixes)
      (other.addPostfixes (postfixes.map W.carryChosen)) := by
  have slots := alike.slots
  unfold Reading.addPostfixes
  cases here : reading.slots with
  | nil =>
      rw [here, List.map_nil] at slots
      rw [slots]
      exact alike
  | cons slot before =>
      rw [here, List.map_cons] at slots
      rw [slots]
      exact { alike with slots := by simp [carrySlot] }

theorem addSlot (slot : Slot) :
    W.ReadingAlike (reading.addSlot slot) (other.addSlot (W.carrySlot slot)) where
  slots := by simp [Reading.addSlot, alike.slots]
  gap := rfl
  running := rfl
  leftOperators := alike.leftOperators
  leftItems := alike.leftItems
  faults := alike.faults
  filled := by simp [Reading.addSlot]

include lawful

theorem withoutOperand {written : List OperatorMatch} (filled : ∀ w ∈ written, w.parts ≠ []) :
    W.ReadingAlike (reading.withoutOperand written)
      (other.withoutOperand (written.map W.carryMatch)) := by
  unfold Reading.withoutOperand
  apply leaveOver
  induction written generalizing reading other with
  | nil => exact alike
  | cons first rest ih =>
      have here := filled first List.mem_cons_self
      rw [List.map_cons, List.foldl_cons, List.foldl_cons]
      refine ih (alike.report fun rigid => ⟨?_, ?_, ?_⟩) fun w member =>
        filled w (List.mem_cons_of_mem _ member)
      · exact start_carryMatch here
      · exact length_carryMatch lawful rigid here
      · rw [text_carryMatch lawful]
        rfl

theorem startRun (operand : Nat) :
    W.ReadingAlike (reading.startRun operand) (other.startRun (W.rename operand)) := by
  unfold Reading.startRun
  rw [alike.gap, splitPrefixes_map]
  have filled : ∀ w ∈ (splitPrefixes reading.gap).1, w.parts ≠ [] := by
    intro w member
    apply alike.filled
    rw [splitPrefixes, List.splitAt_eq] at member
    exact List.mem_of_mem_take member
  have added := (alike.withoutOperand lawful filled).addSlot
    { operand, prefixes := (splitPrefixes reading.gap).2.map (.ofKind .prefixOp) }
  simpa only [carrySlot, ← ofKind_map, List.map_nil, Option.map_none] using added

theorem endRun : W.ReadingAlike reading.endRun other.endRun := by
  have ended : W.ReadingAlike { reading with gap := [], running := false }
      { other with gap := [], running := false } :=
    ⟨alike.slots, rfl, rfl, alike.leftOperators, alike.leftItems, alike.faults, by simp⟩
  unfold Reading.endRun
  dsimp only
  rw [alike.running, alike.gap, splitPostfixes_map]
  split
  · have filled : ∀ w ∈ (splitPostfixes reading.gap).2, w.parts ≠ [] := by
      intro w member
      apply alike.filled
      rw [splitPostfixes, List.span_eq_takeWhile_dropWhile] at member
      exact (List.dropWhile_sublist _).mem member
    have added := (ended.addPostfixes ((splitPostfixes reading.gap).1.map (.ofKind .postfixOp)))
      |>.withoutOperand lawful filled
    simpa only [← ofKind_map] using added
  · exact ended.withoutOperand lawful alike.filled

theorem goOn (operand : Nat) {start start' : Nat} (place : W.rigid → start' = W.move start) :
    W.ReadingAlike (reading.goOn operand start) (other.goOn (W.rename operand) start') := by
  unfold Reading.goOn
  rw [alike.gap, List.head?_map, List.getLast?_map]
  cases isFirst : reading.gap.head? with
  | none =>
      have reported : W.ReadingAlike (reading.report start 0 .noSeparationBetweenSymbols)
          (other.report start' 0 .noSeparationBetweenSymbols) :=
        alike.report fun rigid => ⟨place rigid, rfl, rfl⟩
      simpa [carrySlot] using reported.addSlot { operand }
  | some first =>
      cases isLast : reading.gap.getLast? with
      | none =>
          rw [List.getLast?_eq_none_iff.mp isLast] at isFirst
          cases isFirst
      | some last =>
          have filledFirst := alike.filled first (List.mem_of_head? isFirst)
          have filledLast := alike.filled last (List.mem_of_getLast? isLast)
          simp only [Option.map_some, readGap_map]
          cases readGap? reading.gap with
          | some gap =>
              simpa [carrySlot, carryGap] using (alike.addPostfixes gap.postfixes).addSlot
                { operand, prefixes := gap.prefixes, link := some gap.binary }
          | none =>
              have cut : W.ReadingAlike
                  (reading.report first.start (last.stop - first.start) .binaryOperatorMissing)
                  (other.report (W.carryMatch first).start
                    ((W.carryMatch last).stop - (W.carryMatch first).start) .binaryOperatorMissing) := by
                refine alike.report fun rigid => ⟨start_carryMatch filledFirst, ?_, rfl⟩
                obtain ⟨distance, moves, _⟩ := lawful.distance rigid
                rw [stop_carryMatch lawful rigid filledLast, start_carryMatch filledFirst, moves, moves]
                omega
              have kept := ((cut.addPostfixes ((splitPostfixes reading.gap).1.map (.ofKind .postfixOp))
                ).leaveOver (splitPrefixes (splitPostfixes reading.gap).2).1).addSlot
                { operand
                  prefixes := (splitPrefixes (splitPostfixes reading.gap).2).2.map (.ofKind .prefixOp) }
              simpa only [Option.map_none, splitPostfixes_map, splitPrefixes_map, ofKind_map, carrySlot,
                List.map_nil] using kept

/-- Only for reports the starts of the operands count. -/
theorem add {startOf startOf' : ItemId → Nat} {term : Term}
    (filled : ∀ written, term = .operators written → written.parts ≠ [])
    (starts : ∀ item, term = .operand item → W.rigid → startOf' (W.rename item) = W.move (startOf item)) :
    W.ReadingAlike (reading.add startOf term) (other.add startOf' (W.carryTerm term)) := by
  cases term with
  | operators written =>
      refine { alike with gap := ?_, filled := ?_ }
      · simp [Reading.add, alike.gap, carryTerm]
      · intro w member
        rcases List.mem_append.mp member with old | new
        · exact alike.filled w old
        · obtain rfl := List.mem_singleton.mp new
          exact filled _ rfl
  | operand item =>
      simp only [Reading.add, carryTerm, alike.running]
      split
      · exact alike.goOn lawful item (starts item rfl)
      · exact alike.startRun lawful item
  | stray item =>
      have ended := alike.endRun lawful
      exact { ended with leftItems := by simp [Reading.add, carryTerm, ended.leftItems] }

end ReadingAlike

include lawful

theorem alike_ofTerms {startOf startOf' : ItemId → Nat} {terms : List Term}
    (filled : ∀ written, .operators written ∈ terms → written.parts ≠ [])
    (starts : ∀ item, .operand item ∈ terms → W.rigid →
      startOf' (W.rename item) = W.move (startOf item)) :
    W.ReadingAlike (Reading.ofTerms startOf terms) (Reading.ofTerms startOf' (terms.map W.carryTerm)) := by
  have folded : ∀ reading other, W.ReadingAlike reading other → W.ReadingAlike
      (terms.foldl (Reading.add startOf) reading)
      ((terms.map W.carryTerm).foldl (Reading.add startOf') other) := by
    induction terms with
    | nil => exact fun _ _ alike => alike
    | cons term rest ih =>
        intro reading other alike
        apply ih (fun w member => filled w (List.mem_cons_of_mem _ member))
          (fun item member => starts item (List.mem_cons_of_mem _ member))
        apply alike.add lawful
        · rintro written rfl
          exact filled written List.mem_cons_self
        · rintro item rfl
          exact starts item List.mem_cons_self
  have begins : W.ReadingAlike {} {} := ⟨rfl, rfl, rfl, rfl, rfl, .nil, by simp⟩
  exact (folded _ _ begins).endRun lawful

end Tandem

end ExprLang
