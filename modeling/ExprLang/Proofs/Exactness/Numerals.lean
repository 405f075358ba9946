import ExprLang.Decimal
import ExprLang.Unicode.Numeric
import Mathlib.Algebra.Field.Rat
import Mathlib.Tactic.FieldSimp
import Mathlib.Tactic.Positivity
import Mathlib.Tactic.Ring

/-!
Numbers as they are written, and decimal numbers as they are read. A text denotes a rational number,
however many digits it has. Reading takes as many digits as fit; if what is left over is more than zeros,
there is no decimal number with this value at all, so a number that can be represented is read as it is.
-/

namespace ExprLang

/-! What a text denotes -/

namespace Numeral

variable {c : Char} {a b digits : List Char}

/-- The value of a decimal digit. In each script the ten digits stand in a row. -/
def digitValue (c : Char) : Nat :=
  if c.isDigit then c.toNat - '0'.toNat
  else
    let row := Unicode.digitRanges.toList.find? fun range => range.1 ≤ c.toNat && c.toNat ≤ range.2
    row.elim 0 fun range => (c.toNat - range.1) % 10

def Digits (chars : List Char) : Prop := ∀ c ∈ chars, Unicode.isDigit c = true

/-- The number that is written with these digits. -/
def number (digits : List Char) : Nat := digits.foldl (fun value c => 10 * value + digitValue c) 0

/-- A number with a point in it or without one. -/
def fixedValue (text : List Char) : ℚ :=
  let whole := text.takeWhile (· != '.')
  let fraction := (text.dropWhile (· != '.')).tail
  number (whole ++ fraction) / 10 ^ fraction.length

def exponentValue : List Char → ℤ
  | '-' :: places => -number places
  | '+' :: places => number places
  | places => number places

/-- What stands before the exponent. -/
def significand (text : List Char) : List Char := text.takeWhile fun c => c != 'e' && c != 'E'

def exponent (text : List Char) : List Char := (text.dropWhile fun c => c != 'e' && c != 'E').tail

/-- The rational number that a text denotes, with an exponent or without one. -/
def denoted (text : List Char) : ℚ :=
  fixedValue (significand text) * 10 ^ exponentValue (exponent text)

theorem digitValue_lt (c : Char) : digitValue c < 10 := by
  unfold digitValue
  by_cases ascii : c.isDigit = true
  · rw [if_pos ascii]
    simp only [Char.isDigit, Bool.and_eq_true, decide_eq_true_eq] at ascii
    have : c.toNat ≤ 57 := ascii.2
    change c.toNat - 48 < 10
    omega
  · rw [if_neg ascii]
    dsimp only
    cases Unicode.digitRanges.toList.find? _ with
    | none => exact Nat.succ_pos 9
    | some range => exact Nat.mod_lt _ (by decide)

theorem number_append : number (a ++ b) = number a * 10 ^ b.length + number b := by
  have shifted : ∀ (digits : List Char) (value : Nat),
      digits.foldl (fun value c => 10 * value + digitValue c) value =
        value * 10 ^ digits.length + number digits := by
    intro digits
    induction digits with
    | nil => simp [number]
    | cons c rest ih =>
        intro value
        rw [number, List.foldl_cons, List.foldl_cons, ih, ih, List.length_cons]
        ring
  rw [number, List.foldl_append, shifted]
  rfl

theorem number_cons : number (c :: digits) = digitValue c * 10 ^ digits.length + number digits := by
  rw [← List.singleton_append, number_append]
  simp [number]

theorem number_lt (digits : List Char) : number digits < 10 ^ digits.length := by
  induction digits with
  | nil => simp [number]
  | cons c rest ih =>
      have first : digitValue c * 10 ^ rest.length ≤ 9 * 10 ^ rest.length :=
        Nat.mul_le_mul_right _ (Nat.le_of_lt_succ (digitValue_lt c))
      rw [number_cons, List.length_cons, Nat.pow_succ]
      omega

end Numeral

/-! What can be represented -/

namespace Decimal

open Numeral

variable {d : Decimal} {amount : ℚ} {mantissa scale : Nat}

def value (d : Decimal) : ℚ := (if d.negative then -1 else 1) * d.mantissa / 10 ^ d.scale

/-- The mantissa has room for all digits, and none of them is too far behind the point. -/
def Representable (amount : ℚ) : Prop :=
  ∃ mantissa scale : Nat, mantissa < mantissaLimit ∧ scale ≤ scaleLimit ∧ amount = mantissa / 10 ^ scale

/-- What has been read for a number is a decimal number without sign, and the number itself if that can be
represented. -/
structure ReadsAs (amount : ℚ) (d : Decimal) : Prop where
  positive : d.negative = false
  fits : d.mantissa < mantissaLimit
  places : d.scale ≤ scaleLimit
  exact : Representable amount → d.value = amount

/-- It is the number itself only if that can be represented. -/
theorem ReadsAs.exact_iff (reads : ReadsAs amount d) : d.value = amount ↔ Representable amount := by
  constructor
  · rintro rfl
    refine ⟨d.mantissa, d.scale, reads.fits, reads.places, ?_⟩
    simp [Decimal.value, reads.positive]
  · exact reads.exact

theorem value_ofParts (negative : Bool) : (ofParts negative mantissa scale).value =
    (if negative then -1 else 1) * mantissa / 10 ^ scale := by
  by_cases zero : mantissa = 0
  · simp [ofParts, Decimal.value, zero]
  · simp [ofParts, Decimal.value, zero]

theorem value_ofParts_false : (ofParts false mantissa scale).value = mantissa / 10 ^ scale := by
  simp [value_ofParts]

/-- With all digits there is nothing to round. -/
theorem readsAs_ofParts (fits : mantissa < mantissaLimit) (places : scale ≤ scaleLimit) :
    ReadsAs (mantissa / 10 ^ scale) (ofParts false mantissa scale) :=
  ⟨rfl, fits, places, fun _ => value_ofParts_false⟩

/-- If the next digit does not fit, only zeros can be left over of a number that can be represented. -/
theorem eq_zero_of_representable {left count : Nat} (few : left < 10 ^ (count + 1))
    (full : scale = scaleLimit ∨ mantissaLimit * 10 ^ count ≤ mantissa * 10 ^ (count + 1) + left)
    (representable : Representable
      ((mantissa * 10 ^ (count + 1) + left : Nat) / 10 ^ (scale + (count + 1)))) : left = 0 := by
  obtain ⟨other, places, fits, inside, same⟩ := representable
  have crossed : (mantissa * 10 ^ (count + 1) + left) * 10 ^ places =
      other * 10 ^ (scale + (count + 1)) := by
    rw [div_eq_div_iff (by positivity) (by positivity)] at same
    exact_mod_cast same
  by_cases less : places ≤ scale
  · -- The fraction ends where the digits have been taken to.
    obtain ⟨more, rfl⟩ := Nat.exists_eq_add_of_le less
    have whole : mantissa * 10 ^ (count + 1) + left = other * 10 ^ more * 10 ^ (count + 1) := by
      apply Nat.eq_of_mul_eq_mul_right (Nat.pow_pos (n := places) (Nat.succ_pos 9))
      rw [crossed]
      ring
    have divides : 10 ^ (count + 1) ∣ left :=
      (Nat.dvd_add_right (Nat.dvd_mul_left _ mantissa)).mp ⟨other * 10 ^ more, by rw [whole, Nat.mul_comm]⟩
    exact Nat.eq_zero_of_dvd_of_lt divides few
  · -- Then a digit more would have to fit into the mantissa.
    have beyond := full.resolve_left (by omega)
    obtain ⟨more, rfl⟩ : ∃ more, places = scale + 1 + more := ⟨places - scale - 1, by omega⟩
    have shorter : (mantissa * 10 ^ (count + 1) + left) * 10 ^ more = other * 10 ^ count := by
      apply Nat.eq_of_mul_eq_mul_right (Nat.pow_pos (n := scale + 1) (Nat.succ_pos 9))
      calc (mantissa * 10 ^ (count + 1) + left) * 10 ^ more * 10 ^ (scale + 1)
          = (mantissa * 10 ^ (count + 1) + left) * 10 ^ (scale + 1 + more) := by ring
        _ = other * 10 ^ (scale + (count + 1)) := crossed
        _ = other * 10 ^ count * 10 ^ (scale + 1) := by ring
    have bound : mantissaLimit * 10 ^ count ≤ other * 10 ^ count :=
      beyond.trans (shorter ▸ Nat.le_mul_of_pos_right _ (Nat.pow_pos (Nat.succ_pos 9)))
    have := Nat.le_of_mul_le_mul_right bound (Nat.pow_pos (Nat.succ_pos 9))
    omega

end Decimal

end ExprLang
