import ExprLang.Text
import ExprLang.Unicode.Numeric
import Mathlib.Data.List.Chain

/-!
How the tables of characters belong together. A search in a table finds the code points of its ranges
and no others. A digit is numeric. What has a lowercase, or is the lowercase of something, is
alphabetic; so a character without case is the same as no other one.
-/

namespace ExprLang.Unicode

namespace Ranges

variable {ranges : Ranges} {code : Nat}

/-- Ranges that follow one another. -/
def Follows (a b : Nat × Nat) : Prop := a.1 ≤ a.2 ∧ a.2 < b.1 ∧ b.1 ≤ b.2

instance (a b : Nat × Nat) : Decidable (Follows a b) := inferInstanceAs (Decidable (_ ∧ _))

def covers (ranges : Ranges) (first last : Nat) : Bool :=
  ranges.toList.any fun (low, high) => low.ble first && last.ble high

theorem covers_iff {first last : Nat} : ranges.covers first last = true ↔
    ∃ range ∈ ranges.toList, range.1 ≤ first ∧ last ≤ range.2 := by
  simp only [covers, List.any_eq_true, Bool.and_eq_true, Nat.ble_eq]

theorem covers_of_holds (holds : ranges.holds code = true) : ranges.covers code code = true := by
  have found : ∀ steps low high, ranges.search code steps low high = true →
      ∃ range ∈ ranges.toList, range.1 ≤ code ∧ code ≤ range.2 := by
    intro steps
    induction steps with
    | zero => nofun
    | succ steps ih =>
        intro low high finds
        unfold search at finds
        split at finds
        · dsimp only at finds
          split at finds
          · cases finds
          · rename_i first last here
            split at finds
            · exact ih _ _ finds
            · split at finds
              · exact ih _ _ finds
              · refine ⟨(first, last), ?_, by omega, by omega⟩
                exact Array.mem_toList_iff.mpr (Array.mem_of_getElem? here)
        · cases finds
  exact covers_iff.mpr (found _ _ _ holds)

/-- The search keeps to the half where the range is. -/
theorem holds_of_covers (ascending : ranges.toList.IsChain Follows) {first last : Nat}
    (covers : ranges.covers first last = true) (above : first ≤ code) (below : code ≤ last) :
    ranges.holds code = true := by
  have follows : ∀ i j (_ : i < j) (_ : j < ranges.size), Follows ranges[i] ranges[j] := by
    have transitive : ∀ {a b c : Nat × Nat}, Follows a b → Follows b c → Follows a c := by
      intro a b c ab bc
      unfold Follows at *
      omega
    have : IsTrans (Nat × Nat) Follows := ⟨fun _ _ _ => transitive⟩
    have all := List.isChain_iff_pairwise.mp ascending
    intro i j less inside
    exact List.pairwise_iff_getElem.mp all i j (by simpa using Nat.lt_trans less inside)
      (by simpa using inside) less
  obtain ⟨range, member, holds⟩ := covers_iff.mp covers
  obtain ⟨i, inside, rfl⟩ := Array.mem_iff_getElem.mp (Array.mem_toList_iff.mp member)
  have found : ∀ steps low high, low ≤ i → i < high → high ≤ ranges.size → high - low < steps →
      ranges.search code steps low high = true := by
    intro steps
    induction steps with
    | zero => exact fun _ _ _ _ _ less => absurd less (Nat.not_lt_zero _)
    | succ steps ih =>
        intro low high left right bound enough
        have middle : (low + high) / 2 < ranges.size := by omega
        unfold search
        simp only [show low < high by omega, if_true, Array.getElem?_eq_getElem middle]
        rcases Nat.lt_trichotomy i ((low + high) / 2) with before | here | behind
        · obtain ⟨_, apart, _⟩ := follows i _ before middle
          rw [if_pos (by omega)]
          exact ih _ _ left before (by omega) (by omega)
        · subst here
          rw [if_neg (by omega), if_neg (by omega)]
        · obtain ⟨filled, apart, _⟩ := follows _ i behind inside
          rw [if_neg (by omega), if_pos (by omega)]
          exact ih _ _ behind right bound (by omega)
  exact found _ _ _ (Nat.zero_le i) inside (Nat.le_refl _) (Nat.lt_succ_self _)

end Ranges

theorem numericRanges_ascending : numericRanges.toList.IsChain Ranges.Follows := by decide +kernel

theorem alphabeticRanges_ascending : alphabeticRanges.toList.IsChain Ranges.Follows := by
  decide +kernel

theorem isNumeric_of_isDigit {c : Char} (digit : isDigit c = true) : isNumeric c = true := by
  have inNumeric : ∀ range ∈ digitRanges.toList, numericRanges.covers range.1 range.2 = true := by
    decide +kernel
  unfold isDigit at digit
  unfold isNumeric
  split at digit
  · rename_i ascii
    rwa [if_pos ascii]
  · rename_i beyond
    rw [if_neg beyond]
    obtain ⟨range, member, holds⟩ := Ranges.covers_iff.mp (Ranges.covers_of_holds digit)
    exact Ranges.holds_of_covers numericRanges_ascending (inNumeric range member) holds.1 holds.2

theorem not_alphanumeric_of_isBlank {c : Char} (blank : isBlank c = true) :
    isAlphanumeric c = false := by
  have none : ∀ range ∈ blankRanges, ∀ k ∈ List.range (range.2 - range.1 + 1),
      isAlphanumeric (Char.ofNat (range.1 + k)) = false := by decide +kernel
  obtain ⟨range, member, holds⟩ := List.any_eq_true.mp blank
  simp only [Bool.and_eq_true, decide_eq_true_eq] at holds
  have inRange := none range member (c.toNat - range.1) (List.mem_range.mpr (by omega))
  rwa [Nat.add_sub_cancel' holds.1, Char.ofNat_toNat] at inRange

/-! Characters with case -/

/-- The code points `first`, `first + stride`, … up to `last` are all alphabetic. -/
def Lettered (first last stride : Nat) : Prop :=
  alphabeticRanges.covers first last = true ∨
    ∀ k ∈ List.range ((last - first) / stride + 1), isAlphabetic (Char.ofNat (first + k * stride)) = true

instance (first last stride : Nat) : Decidable (Lettered first last stride) :=
  inferInstanceAs (Decidable (_ ∨ _))

theorem Lettered.isAlphabetic {first last stride code : Nat} (lettered : Lettered first last stride)
    (above : first ≤ code) (below : code ≤ last) (step : (code - first) % stride = 0) :
    isAlphabetic (Char.ofNat code) = true := by
  rcases lettered with covers | each
  · have valid : ∀ range ∈ alphabeticRanges.toList, 128 ≤ range.1 ∧
        (range.2 < 0xd800 ∨ 0xdfff < range.1 ∧ range.2 < 0x110000) := by decide +kernel
    obtain ⟨range, member, holds⟩ := Ranges.covers_iff.mp covers
    obtain ⟨high, isValid⟩ := valid range member
    have isValid : code.isValidChar := by
      unfold Nat.isValidChar
      omega
    have toNat : (Char.ofNat code).toNat = code := by
      rw [Char.ofNat, dif_pos isValid]
      rfl
    rw [Unicode.isAlphabetic, toNat, if_neg (by omega)]
    exact Ranges.holds_of_covers alphabeticRanges_ascending covers above below
  · have index : first + (code - first) / stride * stride = code := by
      have := Nat.div_add_mod (code - first) stride
      rw [step, Nat.add_zero, Nat.mul_comm] at this
      omega
    have listed : (code - first) / stride ∈ List.range ((last - first) / stride + 1) :=
      List.mem_range.mpr (Nat.lt_succ_of_le (Nat.div_le_div_right (by omega)))
    have := each _ listed
    rwa [index] at this

theorem lettered_lowercaseRuns {run : CaseRun} (member : run ∈ lowercaseRuns) :
    Lettered run.first run.last run.stride ∧
      Lettered (run.first + run.shift).toNat (run.last + run.shift).toNat run.stride ∧
      0 ≤ run.first + run.shift := by
  have each : ∀ run ∈ lowercaseRuns.toList, Lettered run.first run.last run.stride ∧
      Lettered (run.first + run.shift).toNat (run.last + run.shift).toNat run.stride ∧
      0 ≤ run.first + run.shift := by decide +kernel
  exact each run (Array.mem_toList_iff.mpr member)

-- To open the search Lean opens the table, too, which is long.
set_option maxRecDepth 8000 in
theorem lowercaseSearch_succ (code steps low high : Nat) : lowercaseSearch code (steps + 1) low high =
    if low < high then
      match lowercaseRuns[(low + high) / 2]? with
      | none => none
      | some run =>
          if code < run.first then lowercaseSearch code steps low ((low + high) / 2)
          else if run.last < code then lowercaseSearch code steps ((low + high) / 2 + 1) high
          else some run
    else none := rfl

theorem lowercaseSearch_mem {code : Nat} {run : CaseRun} (steps : Nat) : ∀ low high,
    lowercaseSearch code steps low high = some run →
      run ∈ lowercaseRuns ∧ run.first ≤ code ∧ code ≤ run.last := by
  induction steps with
  | zero =>
      intro low high finds
      cases finds
  | succ steps ih =>
      intro low high finds
      rw [lowercaseSearch_succ] at finds
      split at finds
      · split at finds
        · cases finds
        · rename_i other here
          split at finds
          · exact ih _ _ finds
          · split at finds
            · exact ih _ _ finds
            · cases finds
              exact ⟨Array.mem_of_getElem? here, by omega, by omega⟩
      · cases finds

theorem lowercaseRun_mem {code : Nat} {run : CaseRun} (found : lowercaseRun? code = some run) :
    run ∈ lowercaseRuns ∧ run.first ≤ code ∧ code ≤ run.last ∧
      (code - run.first) % run.stride = 0 := by
  unfold lowercaseRun? at found
  split at found
  · rename_i other search
    split at found
    · rename_i step
      cases found
      obtain ⟨member, above, below⟩ := lowercaseSearch_mem _ _ _ search
      exact ⟨member, above, below, step⟩
    · cases found
  · cases found

theorem toLower_of_not_isUpper {c : Char} (small : c.isUpper = false) : c.toLower = c := by
  exact dif_neg (of_decide_eq_false small)

/-- A character that is not alphabetic is its own lowercase. -/
theorem lowercase_of_plain {c : Char} (plain : isAlphabetic c = false) : lowercase c = [c] := by
  unfold lowercase
  split
  · rename_i ascii
    rw [isAlphabetic, if_pos ascii] at plain
    have small : c.isUpper = false := by
      cases isUpper : c.isUpper with
      | false => rfl
      | true =>
          have letter : c.isAlpha = true := Bool.or_eq_true_iff.mpr (Or.inl isUpper)
          exact letter.symm.trans plain
    rw [toLower_of_not_isUpper small]
  · split
    · rename_i dotted
      rw [← Char.ofNat_toNat c, dotted] at plain
      exact absurd plain (by decide +kernel)
    · split
      · rename_i run found
        obtain ⟨member, above, below, step⟩ := lowercaseRun_mem found
        have := (lettered_lowercaseRuns member).1.isAlphabetic above below step
        rw [Char.ofNat_toNat, plain] at this
        cases this
      · rfl

/-- The lowercase of a character is another one only if that is alphabetic. -/
theorem eq_of_lowercase {c d : Char} (plain : isAlphabetic d = false)
    (lower : lowercase c = [d]) : c = d := by
  unfold lowercase at lower
  split at lower
  · rename_i ascii
    have same : c.toLower = d := List.singleton_inj.mp lower
    cases isUpper : c.isUpper with
    | false => exact (toLower_of_not_isUpper isUpper).symm.trans same
    | true =>
        have letter : ∀ n < 128, (Char.ofNat n).isUpper = true →
            isAlphabetic (Char.ofNat n).toLower = true := by decide +kernel
        have := letter c.toNat ascii (by rwa [Char.ofNat_toNat])
        rw [Char.ofNat_toNat, same, plain] at this
        cases this
  · split at lower
    · cases lower
    · split at lower
      · rename_i run found
        obtain ⟨member, above, below, step⟩ := lowercaseRun_mem found
        obtain ⟨_, images, positive⟩ := lettered_lowercaseRuns member
        have : isAlphabetic (Char.ofNat (c.toNat + run.shift).toNat) = true := by
          apply images.isAlphabetic
          · omega
          · omega
          · have same : (c.toNat + run.shift).toNat - (run.first + run.shift).toNat =
                c.toNat - run.first := by omega
            exact (congrArg (· % run.stride) same).trans step
        cases lower
        rw [plain] at this
        cases this
      · exact List.singleton_inj.mp lower

/-- A character that is not alphabetic is up to case no other one. -/
theorem eq_of_sameChar {caseSensitive : Bool} {actual expected : Char}
    (plain : isAlphabetic actual = false) (same : sameChar caseSensitive actual expected = true) :
    expected = actual := by
  simp only [sameChar, Bool.or_eq_true, beq_iff_eq, Bool.and_eq_true] at same
  rcases same with rfl | ⟨_, same⟩
  · rfl
  · exact eq_of_lowercase plain (same.symm.trans (lowercase_of_plain plain))

end ExprLang.Unicode
