import ExprLang.Proofs.Exactness.Reading
import Mathlib.Data.List.TakeWhile

/-!
Reading numbers with an exponent. The digits before the exponent are read like any others; the exponent
moves the point, to the right with new zeros, and never rounds.
-/

namespace ExprLang.Decimal

open Numeral

variable {d moved : Decimal} {places : Nat} {c : Char} {digits fixed exponent text : List Char}

/-! The places to move -/

theorem number_of_readNat {value : Nat} (read : readNat value digits = some places) :
    places = value * 10 ^ digits.length + number digits := by
  induction digits generalizing value with
  | nil => simpa [number] using (Option.some.inj read).symm
  | cons c rest ih =>
      rw [readNat] at read
      cases isDigit : digit? c with
      | none =>
          rw [isDigit] at read
          cases read
      | some digit =>
          rw [isDigit] at read
          rw [ih read, number_cons, digit_eq_some isDigit, List.length_cons]
          ring

theorem number_of_readExponent (isDigits : Digits digits) (read : readExponent digits = some places) :
    places = number digits := by
  have unsigned : readExponent digits =
      if digits.isEmpty then none else (readNat 0 digits).filter (· < UInt32.size) := by
    unfold readExponent
    split
    · exact absurd rfl (ne_of_isDigit (isDigits '+' List.mem_cons_self) '+' (by decide))
    · rfl
  rw [unsigned] at read
  by_cases empty : digits.isEmpty = true
  · rw [if_pos empty] at read
    cases read
  · rw [if_neg empty, Option.filter_eq_some_iff] at read
    have same := number_of_readNat read.1
    rwa [Nat.zero_mul, Nat.zero_add] at same

theorem number_of_readExponent_plus (isDigits : Digits digits)
    (read : readExponent ('+' :: digits) = some places) : places = number digits := by
  apply number_of_readExponent isDigits
  rw [← read]
  cases digits with
  | nil => rfl
  | cons c rest =>
      have other := ne_of_isDigit (isDigits c List.mem_cons_self) '+' (by decide)
      unfold readExponent
      split
      · exact absurd (List.cons.inj ‹_›).1 other
      · rfl

/-! Moving the point -/

structure MovedBy (d : Decimal) (places : ℤ) (moved : Decimal) : Prop where
  negative : moved.negative = d.negative
  value : moved.value = d.value * 10 ^ places

/-- The new scale is taken modulo the size of a word, so the places must not come near to that. -/
theorem movedBy_of_shiftLeft (near : d.scale + places < UInt32.size)
    (left : d.shiftLeft places = some moved) : MovedBy d (-places) moved := by
  unfold shiftLeft at left
  dsimp only at left
  rw [Nat.mod_eq_of_lt near] at left
  by_cases few : d.scale + places ≤ scaleLimit
  · rw [if_pos few] at left
    obtain rfl := Option.some.inj left
    refine ⟨rfl, ?_⟩
    rw [Decimal.value, Decimal.value, zpow_neg, zpow_natCast, pow_add]
    field_simp
  · rw [if_neg few] at left
    cases left

theorem movedBy_of_shiftRight (right : d.shiftRight places = some moved) : MovedBy d places moved := by
  unfold shiftRight at right
  by_cases few : places ≤ d.scale
  · rw [if_pos few] at right
    obtain rfl := Option.some.inj right
    obtain ⟨more, scale⟩ := Nat.exists_eq_add_of_le few
    refine ⟨rfl, ?_⟩
    rw [Decimal.value, Decimal.value, zpow_natCast, scale, Nat.add_sub_cancel_left, pow_add]
    field_simp
  · rw [if_neg few] at right
    by_cases far : scaleLimit < places
    · rw [if_pos far] at right
      cases right
    · rw [if_neg far] at right
      dsimp only at right
      by_cases room : d.mantissa * Nat.pow 10 (places - d.scale) < mantissaLimit
      · rw [if_pos room] at right
        obtain rfl := Option.some.inj right
        obtain ⟨more, rfl⟩ := Nat.exists_eq_add_of_le (Nat.le_of_not_le few)
        refine ⟨rfl, ?_⟩
        rw [Decimal.value, Decimal.value, zpow_natCast, Nat.add_sub_cancel_left, pow_add]
        push_cast [Nat.pow_eq]
        field_simp
      · rw [if_neg room] at right
        cases right

/-! Numbers with exponents -/

/-- Digits, maybe with a sign. -/
inductive Exponent : List Char → Prop
  | unsigned {digits : List Char} (isDigits : Digits digits) : Exponent digits
  | signed {sign : Char} {digits : List Char} (isSign : sign = '+' ∨ sign = '-') (isDigits : Digits digits) :
      Exponent (sign :: digits)

/-- The point is moved by the exponent. -/
def move (d : Decimal) : List Char → Option Decimal
  | '-' :: places => (readExponent places).bind d.shiftLeft
  | places => (readExponent places).bind d.shiftRight

theorem exponentValue_of_digits (isDigits : Digits digits) : exponentValue digits = number digits := by
  unfold exponentValue
  split
  · exact absurd rfl (ne_of_isDigit (isDigits '-' List.mem_cons_self) '-' (by decide))
  · exact absurd rfl (ne_of_isDigit (isDigits '+' List.mem_cons_self) '+' (by decide))
  · rfl

theorem move_of_digits (isDigits : Digits digits) :
    d.move digits = (readExponent digits).bind d.shiftRight := by
  unfold move
  split
  · exact absurd rfl (ne_of_isDigit (isDigits '-' List.mem_cons_self) '-' (by decide))
  · rfl

theorem movedBy_of_move (isExponent : Exponent exponent) (places : d.scale ≤ scaleLimit)
    (near : -(UInt32.size - scaleLimit : ℤ) < exponentValue exponent) (read : d.move exponent = some moved) :
    MovedBy d (exponentValue exponent) moved := by
  cases isExponent with
  | unsigned isDigits =>
      rw [move_of_digits isDigits] at read
      obtain ⟨count, isCount, right⟩ := Option.bind_eq_some_iff.mp read
      rw [exponentValue_of_digits isDigits, ← number_of_readExponent isDigits isCount]
      exact movedBy_of_shiftRight right
  | signed isSign isDigits =>
      rcases isSign with rfl | rfl
      · obtain ⟨count, isCount, right⟩ := Option.bind_eq_some_iff.mp read
        obtain rfl := number_of_readExponent_plus isDigits isCount
        exact movedBy_of_shiftRight right
      · obtain ⟨count, isCount, left⟩ := Option.bind_eq_some_iff.mp read
        obtain rfl := number_of_readExponent isDigits isCount
        apply movedBy_of_shiftLeft _ left
        change -(UInt32.size - scaleLimit : ℤ) < -(number _ : ℤ) at near
        omega

/-- No character of a number without exponent is taken for the E. -/
theorem Fixed.no_exponent (isFixed : Fixed text) : ∀ c ∈ text, (c != 'e' && c != 'E') = true := by
  have digit : ∀ c, Unicode.isDigit c = true → (c != 'e' && c != 'E') = true := by
    intro c isDigit
    have other := ne_of_isDigit isDigit
    simp [other 'e' (by decide), other 'E' (by decide)]
  obtain ⟨isDigits, isTail⟩ := isFixed
  intro c member
  rcases List.mem_append.mp member with whole | tail
  · exact digit c (isDigits c whole)
  · cases isTail with
    | none => cases tail
    | point isDigits =>
        rcases List.mem_cons.mp tail with rfl | fraction
        · rfl
        · exact digit c (isDigits c fraction)

section

variable (isFixed : Fixed fixed) (isE : c = 'e' ∨ c = 'E')

include isFixed

theorem Fixed.significand_eq : significand fixed = fixed ∧ Numeral.exponent fixed = [] := by
  have before := isFixed.no_exponent
  constructor
  · rw [significand, List.takeWhile_eq_self_iff.mpr before]
  · rw [Numeral.exponent, List.dropWhile_eq_nil_iff.mpr before]
    rfl

/-- Without an exponent there is only one way to read. -/
theorem Fixed.read_eq : Decimal.read fixed = readFixed fixed := by
  have none : readScientific fixed = none := by
    unfold readScientific
    rw [List.span_eq_takeWhile_dropWhile, List.dropWhile_eq_nil_iff.mpr isFixed.no_exponent]
  rw [Decimal.read, none, Option.orElse_eq_orElse, Option.orElse_eq_or, Option.or_none]

include isE

theorem Fixed.significand_append :
    significand (fixed ++ c :: exponent) = fixed ∧ Numeral.exponent (fixed ++ c :: exponent) = exponent := by
  have before := isFixed.no_exponent
  constructor
  · rw [significand, List.takeWhile_append_of_pos before]
    rcases isE with rfl | rfl <;> simp
  · rw [Numeral.exponent, List.dropWhile_append_of_pos before]
    rcases isE with rfl | rfl <;> rfl

theorem Fixed.readScientific_append :
    readScientific (fixed ++ c :: exponent) = (readFixed fixed).bind fun d => d.move exponent := by
  have before := isFixed.no_exponent
  unfold readScientific
  rw [List.span_eq_takeWhile_dropWhile, List.takeWhile_append_of_pos before,
    List.dropWhile_append_of_pos before]
  have stops : (c != 'e' && c != 'E') = false := by
    rcases isE with rfl | rfl <;> rfl
  rw [List.takeWhile_cons_of_neg (by simp [stops]), List.dropWhile_cons_of_neg (by simp [stops]),
    List.append_nil]
  dsimp only
  cases readFixed fixed <;> rfl

end

end ExprLang.Decimal
