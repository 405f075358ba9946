import ExprLang.Proofs.Checked
import Mathlib.Data.Nat.Nth

/-!
The numbers of the operators. A number that the table gives stays; every other operator gets the
smallest positive number that the table gives to none and no operator before it has got. The numbers to
give out are computed beforehand, so the operators without a number take them one after the other.
-/

namespace ExprLang.Grammar

/-- The numbers that a table gives, in table order. -/
def givenIds (entries : List OperatorEntry) : List Nat :=
  entries.filterMap fun entry => entry.id.map UInt32.toNat

/-- How many entries leave their number open. -/
def openEntries (entries : List OperatorEntry) : Nat := entries.countP (·.id.isNone)

/-- The numbers that can be given out. -/
def Free (used : List Nat) (id : Nat) : Prop := 0 < id ∧ id ∉ used

instance (used : List Nat) : DecidablePred (Free used) := fun id =>
  inferInstanceAs (Decidable (0 < id ∧ id ∉ used))

/-! Free numbers -/

section Free

theorem filter_range_eq_map_nth (p : Nat → Prop) [DecidablePred p] (size : Nat) :
    (List.range size).filter p = (List.range (Nat.count p size)).map (Nat.nth p) := by
  induction size with
  | zero => rfl
  | succ size ih =>
      rw [List.range_succ, List.filter_append, ih, Nat.count_succ]
      by_cases here : p size
      · simp [here, List.range_succ, Nat.nth_count]
      · simp [here]

/-- The search for unused numbers finds the free ones in ascending order. -/
theorem filter_unused_eq (used : List Nat) (size : Nat) :
    (List.range' 1 size).filter (· ∉ used) =
      (List.range (Nat.count (Free used) (size + 1))).map (Nat.nth (Free used)) := by
  -- Zero is no number to give out, so it makes no difference whether the search begins with it.
  rw [← filter_range_eq_map_nth, List.range_eq_range', List.range'_succ,
    List.filter_cons_of_neg (by simp [Free])]
  apply List.filter_congr
  intro id member
  have positive := (List.mem_range'_1.mp member).1
  exact decide_eq_decide.mpr ⟨fun unused => ⟨positive, unused⟩, And.right⟩

/-- Only a number in use is missing from the free ones. -/
theorem le_count_free (used : List Nat) (size : Nat) :
    size ≤ Nat.count (Free used) (size + 1) + used.length := by
  have taken : ((List.range' 1 size).filter fun id => !decide (id ∉ used)).length ≤ used.length := by
    apply List.Subperm.length_le
    apply List.subperm_of_subset (List.Nodup.filter _ List.nodup_range')
    intro id member
    simpa using (List.mem_filter.mp member).2
  have split := List.length_eq_length_filter_add (l := List.range' 1 size) fun id => decide (id ∉ used)
  rw [filter_unused_eq, List.length_map, List.length_range, List.length_range'] at split
  omega

theorem freeIds_eq (used : List Nat) (count : Nat) :
    freeIds used count = (List.range count).map (Nat.nth (Free used)) := by
  have enough := le_count_free used (count + used.length)
  rw [freeIds, filter_unused_eq, ← List.map_take, List.take_range, Nat.min_eq_left (by omega)]

end Free

/-! The numbers of a table -/

/-- The operator is the entry with its number. -/
def Numbers (entry : OperatorEntry) (operator : Operator) : Prop :=
  operator.nameParts = entry.nameParts ∧ operator.kind = entry.kind ∧
    operator.priority = entry.priority.toInt ∧ ∀ id ∈ entry.id, operator.id = id.toNat

/-- The numbers of the operators whose entries leave them open, in table order. -/
def openIds (entries : List OperatorEntry) (operators : List Operator) : List Nat :=
  ((entries.zip operators).filter (·.1.id.isNone)).map (·.2.id)

section Table

variable {free : List Nat} {entries : List OperatorEntry}

/-- Every operator keeps its place in the table and its number, if it has one. -/
theorem numbers_numberOperators (free : List Nat) (entries : List OperatorEntry) :
    List.Forall₂ Numbers entries (numberOperators free entries) := by
  induction entries generalizing free with
  | nil => exact List.Forall₂.nil
  | cons entry rest ih =>
      unfold numberOperators
      dsimp only
      split
      · rename_i id given
        refine List.Forall₂.cons ⟨rfl, rfl, rfl, fun other isId => ?_⟩ (ih _)
        rw [given] at isId
        rw [Option.mem_some.mp isId]
      · rename_i given
        exact List.Forall₂.cons ⟨rfl, rfl, rfl, by simp [given]⟩ (ih _)
      · rename_i given
        exact List.Forall₂.cons ⟨rfl, rfl, rfl, by simp [given]⟩ (ih _)

/-- The open numbers are taken from the front of those that are free. -/
theorem openIds_numberOperators (enough : openEntries entries ≤ free.length) :
    openIds entries (numberOperators free entries) = free.take (openEntries entries) := by
  induction entries generalizing free with
  | nil => simp [openIds, openEntries]
  | cons entry rest ih =>
      unfold numberOperators
      cases given : entry.id with
      | some id =>
          have same : openEntries (entry :: rest) = openEntries rest := by simp [openEntries, given]
          rw [same] at enough ⊢
          rw [← ih enough]
          simp [openIds, given]
      | none =>
          have more : openEntries (entry :: rest) = openEntries rest + 1 := by simp [openEntries, given]
          rw [more] at enough ⊢
          cases free with
          | nil => simp at enough
          | cons id free =>
              rw [List.take_succ_cons, ← ih (Nat.le_of_succ_le_succ enough)]
              simp [openIds, given]

/-- All numbers of the table are those that it gives and the open ones. -/
theorem ids_perm {operators : List Operator} (numbers : List.Forall₂ Numbers entries operators) :
    (operators.map (·.id)).Perm (givenIds entries ++ openIds entries operators) := by
  induction numbers with
  | nil => exact List.Perm.nil
  | @cons entry operator rest others here _ ih =>
      cases given : entry.id with
      | some id =>
          have same := here.2.2.2 id given
          simpa [givenIds, openIds, given, same] using ih
      | none =>
          simp only [givenIds, openIds, given, List.map_cons, List.zip_cons_cons, List.filterMap_cons,
            Option.map_none, List.filter_cons, Option.isNone_none, if_true]
          exact (ih.cons _).trans List.perm_middle.symm

end Table

/-- The check lets no number of the table pass twice. -/
theorem nodup_of_checkOperatorIds {ids : List UInt32} {entries : List OperatorEntry}
    (checked : checkOperatorIds ids entries = .ok ()) :
    (givenIds entries).Nodup ∧ ∀ id ∈ ids, id.toNat ∉ givenIds entries := by
  induction entries generalizing ids with
  | nil => exact ⟨List.nodup_nil, fun _ _ => List.not_mem_nil⟩
  | cons entry rest ih =>
      unfold checkOperatorIds at checked
      cases given : entry.id with
      | none =>
          rw [given] at checked
          simpa [givenIds, given] using ih checked
      | some id =>
          simp only [given] at checked
          by_cases seen : id ∈ ids
          · rw [if_pos seen] at checked
            cases checked
          · rw [if_neg seen] at checked
            obtain ⟨nodup, unseen⟩ := ih checked
            have here : givenIds (entry :: rest) = id.toNat :: givenIds rest := by simp [givenIds, given]
            rw [here]
            constructor
            · exact List.nodup_cons.mpr ⟨unseen id List.mem_cons_self, nodup⟩
            · intro other member again
              rcases List.mem_cons.mp again with same | later
              · exact seen (UInt32.toNat_inj.mp same ▸ member)
              · exact unseen other (List.mem_cons_of_mem _ member) later

/-- The table of operators as it is numbered. -/
structure Numbered (entries : List OperatorEntry) (operators : List Operator) : Prop where
  /-- In table order, and with the numbers that the table gives. -/
  table : List.Forall₂ Numbers entries operators
  distinct : (operators.map (·.id)).Nodup
  /-- The others get the smallest positive numbers that are nowhere in the table. -/
  others : openIds entries operators =
    (List.range (openEntries entries)).map (Nat.nth (Free (givenIds entries)))
  /-- No table of a size that can be numbered runs out of numbers. -/
  bounded : entries.length < UInt32.size → ∀ operator ∈ operators, operator.id < UInt32.size

section Free

variable {entries : List OperatorEntry}

theorem length_givenIds (entries : List OperatorEntry) :
    (givenIds entries).length + openEntries entries = entries.length := by
  induction entries with
  | nil => rfl
  | cons entry rest ih =>
      cases given : entry.id <;> simp [givenIds, openEntries, given] at ih ⊢ <;> omega

/-- The numbers that a table needs are free, and none of them is above its length. -/
theorem nth_free_spec {place : Nat} (isOpen : place < openEntries entries) :
    Free (givenIds entries) (Nat.nth (Free (givenIds entries)) place) ∧
      Nat.nth (Free (givenIds entries)) place ≤ entries.length := by
  have enough := le_count_free (givenIds entries) entries.length
  have lengths := length_givenIds entries
  have member : Nat.nth (Free (givenIds entries)) place ∈
      (List.range' 1 entries.length).filter (· ∉ givenIds entries) := by
    rw [filter_unused_eq]
    exact List.mem_map_of_mem (List.mem_range.mpr (by omega))
  obtain ⟨inRange, unused⟩ := List.mem_filter.mp member
  obtain ⟨positive, below⟩ := List.mem_range'_1.mp inRange
  exact ⟨⟨positive, of_decide_eq_true unused⟩, by omega⟩

/-- The operators of a table get different numbers, the open ones the smallest that are left. -/
theorem numbered_operatorsOf (nodup : (givenIds entries).Nodup) :
    Numbered entries (operatorsOf entries) := by
  have few : openEntries entries ≤ entries.length := List.countP_le_length
  have table : List.Forall₂ Numbers entries (operatorsOf entries) := numbers_numberOperators _ entries
  have taken : openIds entries (operatorsOf entries) =
      (freeIds (givenIds entries) entries.length).take (openEntries entries) := by
    apply openIds_numberOperators
    simpa [freeIds_eq] using few
  have others : openIds entries (operatorsOf entries) =
      (List.range (openEntries entries)).map (Nat.nth (Free (givenIds entries))) := by
    rw [taken, freeIds_eq, ← List.map_take, List.take_range, Nat.min_eq_left few]
  have free : ∀ id ∈ openIds entries (operatorsOf entries),
      Free (givenIds entries) id ∧ id ≤ entries.length := by
    intro id member
    rw [others] at member
    obtain ⟨place, inRange, rfl⟩ := List.mem_map.mp member
    exact nth_free_spec (List.mem_range.mp inRange)
  constructor
  · exact table
  · rw [(ids_perm table).nodup_iff]
    have ascending : (openIds entries (operatorsOf entries)).Nodup := by
      rw [taken]
      apply List.Nodup.sublist ((List.take_sublist _ _).trans (List.take_sublist _ _))
      exact List.Nodup.filter _ List.nodup_range'
    refine List.nodup_append.mpr ⟨nodup, ascending, fun id inGiven other inOpen same => ?_⟩
    exact (free other inOpen).1.2 (same ▸ inGiven)
  · exact others
  · intro fits operator member
    have among := (ids_perm table).mem_iff.mp (List.mem_map_of_mem member)
    rcases List.mem_append.mp among with inGiven | inOpen
    · obtain ⟨entry, _, given⟩ := List.mem_filterMap.mp inGiven
      obtain ⟨id, _, same⟩ := Option.map_eq_some_iff.mp given
      rw [← same]
      exact id.toNat_lt
    · exact Nat.lt_of_le_of_lt (free _ inOpen).2 fits

end Free

variable {config : Config} {isLiteralChar : Char → Nat → Bool} {extensions : List Extension}
  {grammar : Grammar}

/-- A table with numbers at both ends of what is possible, before and behind the open ones. -/
def scatteredConfig : Config := { sampleConfig with
  operators := [.ofName "+" .binary 4, { OperatorEntry.ofName "-" .binary 4 with id := some 1 },
    .ofName "-" .prefixOp 2, { OperatorEntry.ofName "*" .binary 3 with id := some 0 },
    { OperatorEntry.ofName "/" .binary 3 with id := some 4294967295 }, .ofName "!" .postfixOp 1] }

def scatteredGrammar : Grammar :=
  { sampleGrammar [] with operators := operatorsOf scatteredConfig.operators }

theorem build_scattered : build scatteredConfig stockLiteralChar [] = .ok scatteredGrammar := rfl

end ExprLang.Grammar
