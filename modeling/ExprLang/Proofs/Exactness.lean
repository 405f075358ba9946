import ExprLang.Output.TreeJson
import ExprLang.Proofs.Exactness.Rendering
import ExprLang.Proofs.Exactness.Spelling
import ExprLang.Proofs.Stock

/-!
The numbers that are shown. A default pattern finds digits with a point or an exponent; the number that is
read for them, and written behind `number`, is the one they denote whenever the digits before the exponent
fit into a decimal number. If they do not fit they are rounded.
-/

namespace ExprLang

open Decimal Numeral

/-! What the default patterns find -/

namespace Pattern

variable {p : Pattern} {set : CharSet} {min : Nat} {max : Option Nat} {eager : Bool} {chars : List Char}

theorem Spells.of_anchored (spells : Spells (anchored p) chars) : Spells p chars := by
  cases spells with
  | sequence first second =>
      cases first
      exact second

theorem Spells.char_holds (spells : Spells (.char set) chars) : ∃ c, chars = [c] ∧ set.holds c = true := by
  cases spells with
  | char holds => exact ⟨_, rfl, holds⟩

/-- Each character of a repetition is in the set that is repeated. -/
theorem Spells.holds_of_mem (spells : Spells (.repetition (.char set) min max eager) chars) :
    ∀ c ∈ chars, set.holds c = true := by
  cases spells with
  | repetition each _ _ =>
      intro c member
      obtain ⟨piece, isPiece, inside⟩ := List.mem_flatten.mp member
      obtain ⟨other, rfl, holds⟩ := (each piece isPiece).char_holds
      rwa [List.mem_singleton.mp inside]

/-- What may be missing is there once or not at all. -/
theorem Spells.of_optional (spells : Spells (.repetition p 0 (some 1) eager) chars) :
    chars = [] ∨ Spells p chars := by
  cases spells with
  | @repetition _ _ _ _ pieces each _ few =>
      have atMost : pieces.length ≤ 1 := few 1 rfl
      by_cases none : pieces = []
      · rw [none]
        exact Or.inl rfl
      · obtain ⟨piece, rfl⟩ := List.length_eq_one_iff.mp
          (Nat.le_antisymm atMost (List.length_pos_of_ne_nil none))
        rw [List.flatten_singleton]
        exact Or.inr (each piece List.mem_cons_self)

theorem Spells.digits (spells : Spells digits chars) : Digits chars := spells.holds_of_mem

theorem eq_of_holds_single {c other : Char} (holds : (CharSet.single other).holds c = true) : c = other := by
  simp only [CharSet.single, CharSet.holds, Bool.and_eq_true, decide_eq_true_eq] at holds
  exact Char.toNat_inj.mp (Nat.le_antisymm holds.2 holds.1)

theorem eq_of_holds_oneOf {a b c : Char} (holds : (oneOf a b).holds c = true) : c = a ∨ c = b := by
  simp only [oneOf, CharSet.holds, Bool.or_eq_true, Bool.false_or] at holds
  exact holds.imp eq_of_holds_single eq_of_holds_single

theorem Spells.point (spells : Spells point chars) : chars = ['.'] := by
  obtain ⟨c, rfl, holds⟩ := spells.char_holds
  rw [eq_of_holds_single holds]

theorem Spells.fraction (spells : Spells fraction chars) : ∃ fraction, Tail chars fraction := by
  cases spells with
  | sequence first second =>
      rw [first.point]
      exact ⟨_, .point second.digits⟩

theorem Spells.exponent (spells : Spells exponent chars) :
    ∃ c rest, chars = c :: rest ∧ (c = 'e' ∨ c = 'E') ∧ Exponent rest := by
  cases spells with
  | sequence first second =>
      obtain ⟨c, rfl, holds⟩ := first.char_holds
      refine ⟨c, _, rfl, eq_of_holds_oneOf holds, ?_⟩
      cases second with
      | sequence sign places =>
          rcases sign.of_optional with rfl | sign
          · exact .unsigned places.digits
          · obtain ⟨mark, rfl, holds⟩ := sign.char_holds
            exact .signed (eq_of_holds_oneOf holds) places.digits

end Pattern

/-- A number of this kind is written with these characters. -/
inductive Shaped : NumericKind → List Char → Prop
  | fixed {kind : NumericKind} {chars : List Char} (isKind : kind = .integer ∨ kind = .decimal)
      (isFixed : Fixed chars) : Shaped kind chars
  | scientific {fixed exponent : List Char} {c : Char} (isFixed : Fixed fixed) (isE : c = 'e' ∨ c = 'E')
      (isExponent : Exponent exponent) : Shaped .scientific (fixed ++ c :: exponent)

theorem shaped_of_defaults {chars : List Char} : ∀ rule ∈ NumericRule.defaults,
    Pattern.Spells rule.pattern chars → Shaped rule.kind chars := by
  have scientific : ∀ {fixed more : List Char}, Fixed fixed → Pattern.Spells .exponent more →
      Shaped .scientific (fixed ++ more) := by
    intro fixed more isFixed spells
    obtain ⟨c, exponent, rfl, isE, isExponent⟩ := spells.exponent
    exact .scientific isFixed isE isExponent
  simp only [NumericRule.defaults, List.forall_mem_cons]
  refine ⟨fun spells => ?_, fun spells => ?_, fun spells => ?_, fun spells => ?_, fun spells => ?_,
    List.forall_mem_nil _⟩
  · cases spells.of_anchored with
    | sequence whole more =>
        cases more with
        | sequence tail places =>
            rw [← List.append_assoc]
            rcases tail.of_optional with rfl | tail
            · exact scientific (.mk whole.digits .none) places
            · obtain ⟨fraction, isTail⟩ := tail.fraction
              exact scientific (.mk whole.digits isTail) places
  · cases spells.of_anchored with
    | sequence point more =>
        cases more with
        | sequence fraction places =>
            rw [point.point, ← List.append_assoc]
            exact scientific (@Fixed.mk [] _ _ (List.forall_mem_nil _) (.point fraction.digits)) places
  · cases spells.of_anchored with
    | sequence whole tail =>
        obtain ⟨fraction, isTail⟩ := tail.fraction
        exact .fixed (Or.inr rfl) (.mk whole.digits isTail)
  · obtain ⟨fraction, isTail⟩ := spells.of_anchored.fraction
    exact .fixed (Or.inr rfl) (@Fixed.mk [] _ _ (List.forall_mem_nil _) isTail)
  · have isFixed := Fixed.mk spells.of_anchored.digits .none
    rw [List.append_nil] at isFixed
    exact .fixed (Or.inl rfl) isFixed

/-! What is read and shown for them -/

/-- What is read is what has been read for the digits before the exponent, with the point moved. -/
theorem movedBy_of_numericValue {kind : NumericKind} {text : String} {d : Decimal}
    (shaped : Shaped kind text.toList) (value : numericValue text kind = some d)
    (near : -(UInt32.size - scaleLimit : ℤ) < exponentValue (exponent text.toList)) :
    ∃ digits, ReadsAs (fixedValue (significand text.toList)) digits ∧
      MovedBy digits (exponentValue (exponent text.toList)) d := by
  generalize chars : text.toList = written at shaped near ⊢
  cases shaped with
  | fixed isKind isFixed =>
      have read : readFixed written = some d := by
        rw [← isFixed.read_eq, ← chars]
        rcases isKind with rfl | rfl <;> exact value
      obtain ⟨same, none⟩ := isFixed.significand_eq
      rw [same, none]
      exact ⟨d, readsAs_of_readFixed isFixed read, rfl, (mul_one _).symm⟩
  | scientific isFixed isE isExponent =>
      obtain ⟨before, behind⟩ := isFixed.significand_append isE
      rw [behind] at near
      rw [before, behind]
      rw [numericValue, chars, isFixed.readScientific_append isE] at value
      obtain ⟨digits, read, moved⟩ := Option.bind_eq_some_iff.mp value
      have reads := readsAs_of_readFixed isFixed read
      exact ⟨digits, reads, movedBy_of_move isExponent reads.places near moved⟩

namespace Grammar

/-- The number that is read for a default pattern is the number written, if the digits before the exponent
fit into a decimal number, and only then; and the number that is shown is always the one that is read. -/
theorem numbers_are_exact {input : Text} {rules : List NumericRule} {rule : NumericRule} {start stop : Nat}
    {d : Decimal} (read : readNumericRules NumericType.defaults = .ok rules) (member : rule ∈ rules)
    (found : rule.pattern.find? input = some (start, stop))
    (value : numericValue (input.slice start stop) rule.kind = some d)
    (near : -(UInt32.size - scaleLimit : ℤ) < exponentValue (exponent (input.slice start stop).toList)) :
    (d.value = denoted (input.slice start stop).toList ↔
      Representable (fixedValue (significand (input.slice start stop).toList))) ∧
    ∀ (forest : Forest) (type : NumericTypeId) (shown : String),
      ("number", Json.string shown) ∈ forest.kindFields (.numeric (input.slice start stop) type rule.kind) →
        denoted shown.toList = d.value := by
  have isDefault : rule ∈ NumericRule.defaults := by
    rw [readNumericRules_defaults] at read
    rwa [Except.ok.inj read]
  have spells := Pattern.spells_of_find found
  have same : Pattern.between input start stop = (input.slice start stop).toList :=
    (String.toList_ofList).symm
  rw [same] at spells
  obtain ⟨digits, reads, moved⟩ :=
    movedBy_of_numericValue (shaped_of_defaults rule isDefault spells) value near
  constructor
  · rw [moved.value, denoted, mul_left_inj' (zpow_ne_zero _ (by decide))]
    exact reads.exact_iff
  · intro forest type shown isField
    have positive : d.negative = false := moved.negative.trans reads.positive
    have same : shown = d.normalize.toText := by
      simpa [Forest.kindFields, value, Json.ofOption] using isField
    rw [same, denoted_toText (negative_normalize positive), value_normalize]

/-- A number with point and exponent, and something behind it. -/
def readingNumber : Text := Text.ofString "12.50e+3 + y"

theorem number_with_exponent : ∃ rule ∈ NumericRule.defaults, ∃ d,
    rule.pattern.find? readingNumber = some (0, 8) ∧
    numericValue (readingNumber.slice 0 8) rule.kind = some d ∧
    d.value = denoted "12.50e+3".toList ∧ denoted "12500".toList = d.value := by
  let rule : NumericRule := NumericRule.defaults.head (List.cons_ne_nil _ _)
  have member : rule ∈ NumericRule.defaults := List.mem_cons_self
  have found : rule.pattern.find? readingNumber = some (0, 8) := by decide +kernel
  have value : numericValue (readingNumber.slice 0 8) rule.kind = some ⟨false, 12500, 0⟩ := by decide +kernel
  have shown : (normalize ⟨false, 12500, 0⟩).toText = "12500" := by decide +kernel
  have exact := numbers_are_exact readNumericRules_defaults member found value (by decide +kernel)
  have representable : Representable (fixedValue (significand (readingNumber.slice 0 8).toList)) :=
    ⟨1250, 2, by decide +kernel, by decide, by decide +kernel⟩
  exact ⟨rule, member, _, found, value, exact.1.mpr representable,
    exact.2 {} 3 "12500" (by simp [Forest.kindFields, value, Json.ofOption, shown])⟩

/-- More digits behind the point than there is room for. -/
def longFraction : Text := Text.ofString "0.1234567890123456789012345678901"

theorem long_fraction_is_rounded : readNumericRules NumericType.defaults = .ok NumericRule.defaults ∧
    ∃ rule ∈ NumericRule.defaults, ∃ d,
      rule.pattern.find? longFraction = some (0, 33) ∧
      numericValue (longFraction.slice 0 33) rule.kind = some d ∧
      d.value ≠ denoted "0.1234567890123456789012345678901".toList :=
  ⟨readNumericRules_defaults,
    ⟨2, .decimal, Pattern.anchored (.sequence Pattern.digits Pattern.fraction)⟩,
    by simp [NumericRule.defaults], ⟨false, 1234567890123456789012345679, 28⟩,
    by decide +kernel, by decide +kernel, by decide +kernel⟩

end Grammar

end ExprLang
