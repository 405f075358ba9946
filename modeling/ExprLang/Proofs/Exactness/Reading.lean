import ExprLang.Proofs.Exactness.Numerals

/-!
Reading decimal numbers. The digits before the point and behind it are gathered in one mantissa until one
of them does not fit; an exponent moves the point, so it changes no digit.
-/

namespace ExprLang.Decimal

open Numeral

variable {d : Decimal} {amount : ℚ} {mantissa scale : Nat} {c : Char} {rest digits fraction text : List Char}

/-! Digits -/

theorem digit_eq_some {digit : Nat} (isDigit : digit? c = some digit) : digitValue c = digit := by
  unfold digit? at isDigit
  by_cases ascii : c.isDigit = true
  · rw [if_pos ascii] at isDigit
    rw [digitValue, if_pos ascii]
    exact Option.some.inj isDigit
  · rw [if_neg ascii] at isDigit
    cases isDigit

/-- The characters that have a meaning of their own are no digits. -/
theorem not_isDigit : ∀ c ∈ ['.', '_', '+', '-', 'e', 'E'], Unicode.isDigit c = false := by
  simp only [List.forall_mem_cons]
  exact ⟨rfl, rfl, rfl, rfl, rfl, rfl, List.forall_mem_nil _⟩

theorem ne_of_isDigit (isDigit : Unicode.isDigit c = true) :
    ∀ other ∈ ['.', '_', '+', '-', 'e', 'E'], c ≠ other := by
  rintro other member rfl
  exact Bool.false_ne_true ((not_isDigit c member).symm.trans isDigit)

/-- A number is rounded to what fits and has as many places, and not at all if the next digit is zero. -/
theorem roundAt_spec (fits : mantissa < mantissaLimit) (places : scale ≤ scaleLimit)
    (isDigit : Unicode.isDigit c = true) (rounded : roundAt false mantissa scale c = some d) :
    d.negative = false ∧ d.mantissa < mantissaLimit ∧ d.scale ≤ scaleLimit ∧
      (digitValue c = 0 → d = ofParts false mantissa scale) := by
  have other := ne_of_isDigit isDigit
  unfold roundAt at rounded
  rw [if_neg (not_or.mpr ⟨other '_' (by decide), other '.' (by decide)⟩)] at rounded
  cases ascii : digit? c with
  | none =>
      rw [ascii] at rounded
      cases rounded
  | some dropped =>
      rw [ascii] at rounded
      dsimp only at rounded
      rw [digit_eq_some ascii]
      by_cases down : dropped < 5
      · rw [if_pos down] at rounded
        obtain rfl := Option.some.inj rounded
        exact ⟨rfl, fits, places, fun _ => rfl⟩
      · have up : ∀ {exact : Prop}, dropped = 0 → exact := fun zero => absurd (zero ▸ Nat.succ_pos 4) down
        rw [if_neg down] at rounded
        by_cases room : mantissa + 1 < mantissaLimit
        · rw [if_pos room] at rounded
          obtain rfl := Option.some.inj rounded
          exact ⟨rfl, room, places, up⟩
        · rw [if_neg room] at rounded
          by_cases none : scale = 0
          · rw [if_pos none] at rounded
            cases rounded
          · rw [if_neg none] at rounded
            obtain rfl := Option.some.inj rounded
            have shorter : (mantissa + 5) / 10 < mantissaLimit := by omega
            exact ⟨rfl, shorter, Nat.le_trans (Nat.sub_le _ _) places, up⟩

/-- The digits that are left over are nothing but zeros, or there is no such decimal number. -/
theorem number_eq_zero_of_representable
    (full : scale = scaleLimit ∨ mantissaLimit ≤ 10 * mantissa + digitValue c)
    (representable : Representable ((mantissa * 10 ^ (rest.length + 1) + number (c :: rest) : Nat) /
      10 ^ (scale + (rest.length + 1)))) : number (c :: rest) = 0 := by
  apply eq_zero_of_representable (number_lt (c :: rest)) (full.imp_right fun beyond => ?_) representable
  calc mantissaLimit * 10 ^ rest.length
      ≤ (10 * mantissa + digitValue c) * 10 ^ rest.length := Nat.mul_le_mul_right _ beyond
    _ = mantissa * 10 ^ (rest.length + 1) + digitValue c * 10 ^ rest.length := by ring
    _ ≤ mantissa * 10 ^ (rest.length + 1) + number (c :: rest) := by
        rw [number_cons]
        omega

/-- The first digit that does not fit rounds the others. -/
theorem readsAs_roundAt (fits : mantissa < mantissaLimit) (places : scale ≤ scaleLimit)
    (isDigits : Digits (c :: rest))
    (full : scale = scaleLimit ∨ mantissaLimit ≤ 10 * mantissa + digitValue c)
    (rounded : roundAt false mantissa scale c = some d) :
    ReadsAs ((mantissa * 10 ^ (rest.length + 1) + number (c :: rest) : Nat) /
      10 ^ (scale + (rest.length + 1))) d := by
  obtain ⟨positive, room, few, kept⟩ := roundAt_spec fits places (isDigits c List.mem_cons_self) rounded
  refine ⟨positive, room, few, fun representable => ?_⟩
  have zeros := number_eq_zero_of_representable full representable
  have first : digitValue c = 0 := by
    rw [number_cons] at zeros
    exact (Nat.mul_eq_zero.mp (Nat.eq_zero_of_add_eq_zero_right zeros)).resolve_right
      (Nat.ne_of_gt (Nat.pow_pos (by decide)))
  have shift : (10 : ℚ) ^ (rest.length + 1) ≠ 0 := by positivity
  rw [kept first, value_ofParts_false, zeros, Nat.add_zero]
  push_cast
  rw [pow_add _ scale, mul_div_mul_right _ _ shift]

/-! One character at a time -/

section Step

variable {negative seenPoint seenDigit : Bool}

theorem seen_of_readDigits_nil (read : readDigits negative seenPoint seenDigit mantissa scale [] = some d) :
    d = ofParts negative mantissa scale := by
  unfold readDigits at read
  by_cases seen : seenDigit = true
  · rw [if_pos seen] at read
    exact (Option.some.inj read).symm
  · rw [if_neg seen] at read
    cases read

theorem readDigits_full (full : scaleLimit ≤ scale) :
    readDigits negative seenPoint seenDigit mantissa scale (c :: rest) =
      roundAt negative mantissa scale c := by
  rw [readDigits, if_pos full]

theorem readDigits_point :
    readDigits negative false seenDigit mantissa 0 ('.' :: rest) =
      readDigits negative true seenDigit mantissa 0 rest := rfl

/-- A digit of another script is none that is read. -/
theorem digit_of_readDigits (places : scale < scaleLimit) (isDigit : Unicode.isDigit c = true)
    (read : readDigits negative seenPoint seenDigit mantissa scale (c :: rest) = some d) :
    if 10 * mantissa + digitValue c < mantissaLimit then
      readDigits negative seenPoint true (10 * mantissa + digitValue c)
        (if seenPoint then scale + 1 else scale) rest = some d
    else seenPoint = true ∧ roundAt negative mantissa scale c = some d := by
  have other := ne_of_isDigit isDigit
  rw [readDigits, if_neg (Nat.not_le_of_lt places)] at read
  cases ascii : digit? c with
  | none => simp [ascii, other '.' (by decide), other '_' (by decide)] at read
  | some digit =>
      simp only [ascii] at read
      rw [digit_eq_some ascii]
      by_cases room : 10 * mantissa + digit < mantissaLimit
      · rwa [if_pos room] at read ⊢
      · rw [if_neg room] at read ⊢
        cases seenPoint with
        | false => cases read
        | true => exact ⟨rfl, read⟩

end Step

/-! Numbers without exponents -/

/-- Digits behind the point. -/
theorem readsAs_fraction {seenDigit : Bool} (fits : mantissa < mantissaLimit) (places : scale ≤ scaleLimit)
    (isDigits : Digits fraction) (read : readDigits false true seenDigit mantissa scale fraction = some d) :
    ReadsAs ((mantissa * 10 ^ fraction.length + number fraction : Nat) / 10 ^ (scale + fraction.length))
      d := by
  induction fraction generalizing mantissa scale seenDigit with
  | nil =>
      obtain rfl := seen_of_readDigits_nil read
      simpa [number] using readsAs_ofParts fits places
  | cons c rest ih =>
      obtain ⟨isDigit, areDigits⟩ := List.forall_mem_cons.mp isDigits
      by_cases last : scaleLimit ≤ scale
      · rw [readDigits_full last] at read
        exact readsAs_roundAt fits places isDigits (Or.inl (Nat.le_antisymm places last)) read
      · have next := digit_of_readDigits (Nat.lt_of_not_le last) isDigit read
        by_cases room : 10 * mantissa + digitValue c < mantissaLimit
        · rw [if_pos room, if_pos rfl] at next
          have reads := ih room (show scale + 1 ≤ scaleLimit by omega) areDigits next
          have same : (10 * mantissa + digitValue c) * 10 ^ rest.length + number rest =
              mantissa * 10 ^ (rest.length + 1) + number (c :: rest) := by
            rw [number_cons]
            ring
          rwa [same, Nat.add_assoc, Nat.add_comm 1] at reads
        · rw [if_neg room] at next
          exact readsAs_roundAt fits places isDigits (Or.inr (Nat.le_of_not_lt room)) next.2

/-- What can stand behind the digits before the point, with the digits behind it. -/
inductive Tail : List Char → List Char → Prop
  | none : Tail [] []
  | point {fraction : List Char} (isDigits : Digits fraction) : Tail ('.' :: fraction) fraction

theorem readsAs_tail {tail : List Char} {seenDigit : Bool} (fits : mantissa < mantissaLimit)
    (isTail : Tail tail fraction) (read : readDigits false false seenDigit mantissa 0 tail = some d) :
    ReadsAs ((mantissa * 10 ^ fraction.length + number fraction : Nat) / 10 ^ fraction.length) d := by
  cases isTail with
  | none =>
      obtain rfl := seen_of_readDigits_nil read
      simpa [number] using readsAs_ofParts fits (Nat.zero_le _)
  | point isDigits =>
      rw [readDigits_point] at read
      simpa using readsAs_fraction fits (Nat.zero_le _) isDigits read

theorem readsAs_whole {whole tail : List Char} {seenDigit : Bool} (fits : mantissa < mantissaLimit)
    (isDigits : Digits whole) (isTail : Tail tail fraction)
    (read : readDigits false false seenDigit mantissa 0 (whole ++ tail) = some d) :
    ReadsAs ((mantissa * 10 ^ (whole ++ fraction).length + number (whole ++ fraction) : Nat) /
      10 ^ fraction.length) d := by
  induction whole generalizing mantissa seenDigit with
  | nil => exact readsAs_tail fits isTail read
  | cons c rest ih =>
      obtain ⟨isDigit, areDigits⟩ := List.forall_mem_cons.mp isDigits
      have next := digit_of_readDigits (by decide) isDigit read
      by_cases room : 10 * mantissa + digitValue c < mantissaLimit
      · rw [if_pos room] at next
        have reads := ih room areDigits next
        have same : (10 * mantissa + digitValue c) * 10 ^ (rest ++ fraction).length +
            number (rest ++ fraction) =
            mantissa * 10 ^ ((rest ++ fraction).length + 1) + number (c :: (rest ++ fraction)) := by
          rw [number_cons]
          ring
        rwa [same] at reads
      · rw [if_neg room] at next
        cases next.1

/-- Digits, maybe with a point among them or before them. -/
inductive Fixed : List Char → Prop
  | mk {whole tail fraction : List Char} (isDigits : Digits whole) (isTail : Tail tail fraction) :
      Fixed (whole ++ tail)

/-- No sign stands at the front. -/
theorem Fixed.readFixed_eq (isFixed : Fixed text) :
    readFixed text = readDigits false false false 0 0 text := by
  cases isFixed with
  | @mk whole tail fraction isDigits isTail =>
      cases whole with
      | nil => cases isTail <;> rfl
      | cons c rest =>
          have other := ne_of_isDigit (isDigits c List.mem_cons_self)
          unfold readFixed
          split
          · exact absurd (List.cons.inj ‹_›).1 (other '-' (by decide))
          · exact absurd (List.cons.inj ‹_›).1 (other '+' (by decide))
          · rfl

theorem fixedValue_append {whole tail : List Char} (isDigits : Digits whole) (isTail : Tail tail fraction) :
    fixedValue (whole ++ tail) = number (whole ++ fraction) / 10 ^ fraction.length := by
  have before : ∀ c ∈ whole, (c != '.') = true := fun c member =>
    bne_iff_ne.mpr (ne_of_isDigit (isDigits c member) '.' (by decide))
  rw [fixedValue, List.takeWhile_append_of_pos before, List.dropWhile_append_of_pos before]
  cases isTail <;> simp

theorem readsAs_of_readFixed (isFixed : Fixed text) (read : readFixed text = some d) :
    ReadsAs (fixedValue text) d := by
  rw [isFixed.readFixed_eq] at read
  cases isFixed with
  | mk isDigits isTail =>
      rw [fixedValue_append isDigits isTail]
      simpa using readsAs_whole (by decide) isDigits isTail read

end ExprLang.Decimal
