import ExprLang.Proofs.Exactness.Scientific

/-!
Writing decimal numbers. Dropping the zeros at the end changes no value, and the text that is written
denotes the value it is written for.
-/

namespace ExprLang.Decimal

open Numeral

variable {d : Decimal} {mantissa scale : Nat} {c : Char} {digits : List Char}

/-! Fewest places -/

theorem value_dropZeros :
    ((dropZeros mantissa scale).1 : ℚ) / 10 ^ (dropZeros mantissa scale).2 = mantissa / 10 ^ scale := by
  induction scale generalizing mantissa with
  | zero => rfl
  | succ scale ih =>
      rw [dropZeros]
      by_cases divides : mantissa % 10 = 0
      · obtain ⟨tens, rfl⟩ := Nat.dvd_of_mod_eq_zero divides
        rw [if_pos divides, ih, Nat.mul_div_cancel_left _ (by decide), pow_succ]
        push_cast
        field_simp
      · rw [if_neg divides]

theorem value_normalize (d : Decimal) : d.normalize.value = d.value := by
  rw [normalize, value_ofParts, mul_div_assoc, value_dropZeros, ← mul_div_assoc, Decimal.value]

theorem negative_normalize (positive : d.negative = false) : d.normalize.negative = false := by
  change (d.negative && _) = false
  rw [positive, Bool.false_and]

/-! Digits that are written -/

theorem isDigit_of_ascii (ascii : c.isDigit = true) : Unicode.isDigit c = true := by
  have small : c.toNat < 128 := by
    simp only [Char.isDigit, Bool.and_eq_true, decide_eq_true_eq] at ascii
    have : c.toNat ≤ 57 := ascii.2
    omega
  rwa [Unicode.isDigit, if_pos small]

theorem number_eq_ofDigitChars (ascii : ∀ c ∈ digits, c.isDigit = true) :
    number digits = Nat.ofDigitChars 10 digits 0 := by
  apply List.foldl_ext
  intro value c member
  rw [digitValue, if_pos (ascii c member)]

theorem number_zeros (count : Nat) : number (List.replicate count '0') = 0 := by
  induction count with
  | zero => rfl
  | succ count ih =>
      rw [List.replicate_succ, number_cons, ih]
      simp [digitValue]

/-- The digits of a mantissa with as many zeros before them as the point needs. -/
def padded (d : Decimal) : List Char :=
  List.replicate (d.scale + 1 - (Nat.toDigits 10 d.mantissa).length) '0' ++ Nat.toDigits 10 d.mantissa

theorem digits_padded (d : Decimal) : Digits d.padded := by
  intro c member
  apply isDigit_of_ascii
  rcases List.mem_append.mp member with zero | digit
  · rw [List.eq_of_mem_replicate zero]
    rfl
  · exact Nat.isDigit_of_mem_toDigits (by decide) (by decide) digit

theorem number_padded (d : Decimal) : number d.padded = d.mantissa := by
  have ascii : ∀ c ∈ Nat.toDigits 10 d.mantissa, c.isDigit = true := fun _ =>
    Nat.isDigit_of_mem_toDigits (by decide) (by decide)
  rw [padded, number_append, number_zeros, number_eq_ofDigitChars ascii,
    Nat.ofDigitChars_ten_toDigits, Nat.zero_mul, Nat.zero_add]

theorem lt_length_padded (d : Decimal) : d.scale < d.padded.length := by
  rw [padded, List.length_append, List.length_replicate]
  omega

/-! The text -/

theorem toText_eq (positive : d.negative = false) : d.toText.toList =
    if d.scale = 0 then d.padded.take (d.padded.length - d.scale)
    else d.padded.take (d.padded.length - d.scale) ++ '.' :: d.padded.drop (d.padded.length - d.scale) := by
  rw [toText, positive, String.toList_ofList, List.splitAt_eq]
  rfl

/-- The text is a number without exponent, of this value. -/
theorem fixed_toText (positive : d.negative = false) :
    Fixed d.toText.toList ∧ fixedValue d.toText.toList = d.value := by
  have value : d.value = d.mantissa / 10 ^ d.scale := by simp [Decimal.value, positive]
  have parts := List.take_append_drop (d.padded.length - d.scale) d.padded
  have before : Digits (d.padded.take (d.padded.length - d.scale)) := fun c member =>
    digits_padded d c (List.mem_of_mem_take member)
  have behind : Digits (d.padded.drop (d.padded.length - d.scale)) := fun c member =>
    digits_padded d c (List.mem_of_mem_drop member)
  have places : (d.padded.drop (d.padded.length - d.scale)).length = d.scale := by
    have := lt_length_padded d
    rw [List.length_drop]
    omega
  rw [toText_eq positive, value]
  by_cases none : d.scale = 0
  · have whole : d.padded.take (d.padded.length - d.scale) = d.padded := by
      rw [none, Nat.sub_zero, List.take_length]
    rw [if_pos none, whole, ← List.append_nil d.padded]
    refine ⟨.mk (digits_padded d) .none, ?_⟩
    rw [fixedValue_append (digits_padded d) .none, List.append_nil, number_padded, none, List.length_nil]
  · rw [if_neg none]
    refine ⟨.mk before (.point behind), ?_⟩
    rw [fixedValue_append before (.point behind), parts, places, number_padded]

theorem denoted_toText (positive : d.negative = false) : denoted d.toText.toList = d.value := by
  obtain ⟨isFixed, value⟩ := fixed_toText positive
  obtain ⟨same, none⟩ := isFixed.significand_eq
  rw [denoted, same, none, value]
  exact mul_one _

end ExprLang.Decimal
