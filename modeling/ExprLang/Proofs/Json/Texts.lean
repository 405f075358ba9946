import ExprLang.Json.Reader
import Mathlib.Data.List.TakeDrop
import Mathlib.Data.List.TakeWhile

/-!
JSON texts. The text that is written for a value, compact or with line breaks, is read as that value,
whatever its strings are. An escaped character is read as the character, a number as far as its digits
go; the rest of the text is left. Every item takes at least one character, so the length of a text is
enough room to read it in.
-/

namespace ExprLang.Json

/-! Blanks -/

theorem toList_pushn (text : String) (c : Char) (count : Nat) :
    (text.pushn c count).toList = text.toList ++ List.replicate count c := by
  rw [String.pushn]
  induction count with
  | zero => simp [Nat.repeat]
  | succ count ih => simp [Nat.repeat, ih, List.replicate_succ']

theorem skipSpaces_solid {c : Char} (solid : isSpace c = false) (rest : List Char) :
    skipSpaces (c :: rest) = c :: rest := List.dropWhile_cons_of_neg (by simp [solid])

/-- A line break is blank. -/
theorem skipSpaces_lineBreak (pretty : Bool) (depth : Nat) (rest : List Char) :
    skipSpaces ((lineBreak pretty depth).toList ++ rest) = skipSpaces rest := by
  refine List.dropWhile_append_of_pos fun c member => ?_
  cases pretty with
  | false => simp [lineBreak] at member
  | true =>
      rw [lineBreak, if_pos rfl, toList_pushn, List.mem_append, List.mem_replicate] at member
      rcases member with feed | ⟨_, rfl⟩
      · obtain rfl : c = '\n' := by simpa using feed
        rfl
      · rfl

/-- What is read does not depend on the blanks in front of it. -/
theorem readValue_lineBreak (pretty : Bool) (depth steps : Nat) (rest : List Char) :
    readValue (steps + 1) ((lineBreak pretty depth).toList ++ rest) = readValue (steps + 1) rest := by
  rw [readValue, readValue, skipSpaces_lineBreak]

/-! Strings -/

theorem hexDigit_read : ∀ digit < 16, hexDigit? (hexDigit digit) = some digit := by decide

/-- An escaped character is read as the character. -/
theorem readString_escapeChar (c : Char) (steps : Nat) (read rest : List Char) :
    readString (steps + 1) (some read) (escapeChar c ++ rest) = readString steps (some (c :: read)) rest := by
  unfold escapeChar
  split
  case h_6 quote backslash feed carriage tab =>
    by_cases isBack : c.toNat = 8
    · obtain rfl : c = '\x08' := Char.toNat_inj.mp isBack
      rfl
    · by_cases isForm : c.toNat = 12
      · obtain rfl : c = '\x0c' := Char.toNat_inj.mp isForm
        rfl
      · by_cases isControl : c.toNat < 32
        · have high := hexDigit_read (c.toNat / 16) (by omega)
          have low := hexDigit_read (c.toNat % 16) (by omega)
          have unit : unit? '0' '0' (hexDigit (c.toNat / 16)) (hexDigit (c.toNat % 16)) = some c.toNat := by
            have zero : hexDigit? '0' = some 0 := rfl
            simp only [unit?, zero, high, low, bind, Option.bind, pure, Option.some.injEq]
            omega
          have notHigh : isHighHalf c.toNat = false := by
            simp only [isHighHalf, Bool.and_eq_false_iff, decide_eq_false_iff_not]
            omega
          have notLow : isLowHalf c.toNat = false := by
            simp only [isLowHalf, Bool.and_eq_false_iff, decide_eq_false_iff_not]
            omega
          simp only [isBack, isForm, isControl, if_false, if_true]
          simp [readString, unit, notHigh, notLow, Char.ofNat_toNat]
        · have notQuote : c ≠ '"' := fun same => quote same
          have notBackslash : c ≠ '\\' := fun same => backslash same
          simp [isBack, isForm, isControl, readString, notQuote, notBackslash]
  all_goals rfl

theorem length_escapeChar (c : Char) : 0 < (escapeChar c).length := by
  unfold escapeChar
  split
  case h_6 => split_ifs <;> simp
  all_goals simp

theorem length_le_escaped (chars : List Char) : chars.length ≤ (chars.flatMap escapeChar).length := by
  induction chars with
  | nil => exact Nat.le_refl _
  | cons c rest ih =>
      have first := length_escapeChar c
      rw [List.flatMap_cons, List.length_append, List.length_cons]
      omega

theorem readString_escaped {chars read rest : List Char} {steps : Nat} (enough : chars.length < steps) :
    readString steps (some read) (chars.flatMap escapeChar ++ '"' :: rest) =
      .ok (some (String.ofList (read.reverse ++ chars)), rest) := by
  induction chars generalizing read steps with
  | nil =>
      obtain ⟨steps, rfl⟩ := Nat.exists_eq_succ_of_ne_zero (Nat.ne_zero_of_lt enough)
      simp [readString]
  | cons c more ih =>
      obtain ⟨steps, rfl⟩ := Nat.exists_eq_succ_of_ne_zero (Nat.ne_zero_of_lt enough)
      rw [List.flatMap_cons, List.append_assoc, readString_escapeChar,
        ih (Nat.lt_of_succ_lt_succ enough)]
      simp

theorem toList_quote (text : String) (rest : List Char) :
    (quote text).toList ++ rest = '"' :: (text.toList.flatMap escapeChar ++ '"' :: rest) := by
  simp [quote]

/-- Behind its opening quote a quoted text is read to its end. -/
theorem readString_quoted (text : String) (rest : List Char) :
    readString ((text.toList.flatMap escapeChar ++ '"' :: rest).length + 1) (some [])
      (text.toList.flatMap escapeChar ++ '"' :: rest) = .ok (some text, rest) := by
  have room := length_le_escaped text.toList
  rw [readString_escaped (by rw [List.length_append]; omega)]
  simp

/-! Numbers -/

/-- Nothing that follows could belong to a number. -/
def Parted (rest : List Char) : Prop :=
  ∀ c ∈ rest.head?, c.isDigit = false ∧ c ≠ '.' ∧ c ≠ 'e' ∧ c ≠ 'E'

theorem span_digits {digits rest : List Char} (all : ∀ c ∈ digits, c.isDigit = true)
    (parted : Parted rest) : (digits ++ rest).span Char.isDigit = (digits, rest) := by
  have none : rest.takeWhile Char.isDigit = [] ∧ rest.dropWhile Char.isDigit = rest := by
    cases rest with
    | nil => exact ⟨rfl, rfl⟩
    | cons c more =>
        have noDigit := (parted c rfl).1
        exact ⟨List.takeWhile_cons_of_neg (by simp [noDigit]),
          List.dropWhile_cons_of_neg (by simp [noDigit])⟩
  rw [List.span_eq_takeWhile_dropWhile, List.takeWhile_append_of_pos all,
    List.dropWhile_append_of_pos all, none.1, none.2, List.append_nil]

theorem readReal_nothing {rest : List Char} (parted : Parted rest) : readReal rest = .ok ([], rest) := by
  cases rest with
  | nil => rfl
  | cons c more =>
      obtain ⟨_, noPoint, noSmall, noCapital⟩ := parted c rfl
      simp [readReal, noPoint, noSmall, noCapital]

/-- A number above zero does not begin with a zero. -/
theorem head_toDigits {n : Nat} (positive : 0 < n) : (Nat.toDigits 10 n).head? ≠ some '0' := by
  induction n using Nat.strong_induction_on with
  | _ n ih =>
      by_cases small : n < 10
      · rw [Nat.toDigits_of_lt_base small]
        have others : ∀ n < 10, 0 < n → [n.digitChar].head? ≠ some '0' := by decide
        exact others n small positive
      · rw [Nat.toDigits_of_base_le (by decide) (Nat.le_of_not_lt small)]
        have front := ih (n / 10) (by omega) (by omega)
        cases digits : Nat.toDigits 10 (n / 10) with
        | nil => exact absurd digits (Nat.toDigits_ne_nil)
        | cons c more =>
            rw [digits] at front
            simpa using front

/-- The digits of a number are read as the number. -/
theorem readNumber_digits (negative : Bool) (n : Nat) {rest : List Char} (parted : Parted rest) :
    readNumber negative (Nat.toDigits 10 n ++ rest) =
      if negative then if n = 0 then .ok (.real "-0", rest) else .ok (.int (-(n : Int)), rest)
      else .ok (.int n, rest) := by
  have value : natOfDigits (Nat.toDigits 10 n) = n := Nat.ofDigitChars_ten_toDigits
  unfold readNumber
  rw [span_digits (fun c => Nat.isDigit_of_mem_toDigits (by decide) (by decide)) parted]
  split
  · rename_i none
    exact absurd (congrArg Prod.fst none) Nat.toDigits_ne_nil
  · rename_i c more left zeros
    obtain ⟨digits, rfl⟩ := Prod.mk.inj zeros
    rcases Nat.eq_zero_or_pos n with rfl | positive
    · simp at digits
    · exact absurd (by rw [digits]; rfl) (head_toDigits positive)
  · rename_i digits left _ _ same
    obtain ⟨rfl, rfl⟩ := Prod.mk.inj same
    rw [readReal_nothing parted, value]

/-! Values -/

/-- Every number in it is whole and every string is a text. -/
inductive Plain : Json → Prop
  | null : Plain null
  | bool (value : Bool) : Plain (bool value)
  | int (value : Int) : Plain (int value)
  | string (value : String) : Plain (string value)
  | array {items : List Json} : (∀ item ∈ items, Plain item) → Plain (array items)
  | object {entries : List (String × Json)} : (∀ entry ∈ entries, Plain entry.2) → Plain (object entries)

theorem toList_natural (n : Nat) : (toString (n : Int)).toList = Nat.toDigits 10 n := by
  rw [Int.toString_eq_repr]
  exact Nat.toList_repr

theorem toList_negative (n : Nat) :
    (toString (Int.negSucc n)).toList = '-' :: Nat.toDigits 10 (n + 1) := by
  rw [Int.toString_eq_repr, Int.repr, String.toList_append, Nat.toList_repr]
  rfl

/-- A text that is not blank and does not close a list begins with this character. -/
def Opens (c : Char) : Prop := isSpace c = false ∧ c ≠ ']'

instance (c : Char) : Decidable (Opens c) := inferInstanceAs (Decidable (_ ∧ _))

theorem opens_digit {c : Char} (digit : c.isDigit = true) : Opens c := by
  refine ⟨?_, ?_⟩
  · by_contra space
    rw [Bool.not_eq_false, isSpace] at space
    simp only [Bool.or_eq_true, beq_iff_eq] at space
    rcases space with ((rfl | rfl) | rfl) | rfl <;> exact absurd digit (by decide)
  · rintro rfl
    exact absurd digit (by decide)

theorem toDigits_eq_cons (n : Nat) : ∃ c more, Nat.toDigits 10 n = c :: more ∧ Opens c := by
  cases digits : Nat.toDigits 10 n with
  | nil => exact absurd digits Nat.toDigits_ne_nil
  | cons c more =>
      have member : c ∈ Nat.toDigits 10 n := by rw [digits]; exact List.mem_cons_self
      exact ⟨c, more, rfl, opens_digit (Nat.isDigit_of_mem_toDigits (by decide) (by decide) member)⟩

theorem render_opens (pretty : Bool) (depth : Nat) {json : Json} (plain : json.Plain) :
    ∃ c more, (render pretty depth json).toList = c :: more ∧ Opens c := by
  cases plain with
  | null => exact ⟨'n', _, by rw [render]; rfl, by decide⟩
  | bool value =>
      cases value with
      | false => exact ⟨'f', _, by rw [render]; rfl, by decide⟩
      | true => exact ⟨'t', _, by rw [render]; rfl, by decide⟩
  | string value => exact ⟨'"', _, by simp [render, quote]; rfl, by decide⟩
  | int value =>
      cases value with
      | ofNat n =>
          obtain ⟨c, more, digits, opens⟩ := toDigits_eq_cons n
          exact ⟨c, more, by rw [render, Int.ofNat_eq_natCast, toList_natural, digits], opens⟩
      | negSucc n => exact ⟨'-', _, by rw [render, toList_negative], by decide⟩
  | @array items _ =>
      cases items with
      | nil => exact ⟨'[', _, by rw [render]; rfl, by decide⟩
      | cons => exact ⟨'[', _, by simp [render]; rfl, by decide⟩
  | @object entries _ =>
      cases entries with
      | nil => exact ⟨'\x7b', _, by rw [render]; rfl, by decide⟩
      | cons => exact ⟨'\x7b', _, by simp [render]; rfl, by decide⟩

theorem readValue_digits (steps n : Nat) {rest : List Char} (parted : Parted rest) :
    readValue (steps + 1) (Nat.toDigits 10 n ++ rest) = .ok (.int n, rest) := by
  have read := readNumber_digits false n parted
  rw [if_neg Bool.false_ne_true] at read
  cases digits : Nat.toDigits 10 n with
  | nil => exact absurd digits Nat.toDigits_ne_nil
  | cons c more =>
      have member : c ∈ Nat.toDigits 10 n := by rw [digits]; exact List.mem_cons_self
      have digit := Nat.isDigit_of_mem_toDigits (by decide) (by decide) member
      rw [digits] at read
      rw [← read, readValue, List.cons_append, skipSpaces_solid (opens_digit digit).1]
      split <;> first | rfl | simp_all

theorem readValue_negative (steps n : Nat) {rest : List Char} (parted : Parted rest) :
    readValue (steps + 1) ('-' :: (Nat.toDigits 10 (n + 1) ++ rest)) = .ok (.int (.negSucc n), rest) := by
  have read := readNumber_digits true (n + 1) parted
  rw [if_pos rfl, if_neg (Nat.succ_ne_zero n)] at read
  rw [readValue, skipSpaces_solid (by decide)]
  exact read

theorem readValue_quoted (steps : Nat) (text : String) (rest : List Char) :
    readValue (steps + 1) ((quote text).toList ++ rest) = .ok (.string text, rest) := by
  rw [toList_quote, readValue, skipSpaces_solid (by decide)]
  simp only [readString_quoted]

/-! Lists and objects -/

theorem Parted.of_cons {c : Char} {rest : List Char}
    (apart : c.isDigit = false ∧ c ≠ '.' ∧ c ≠ 'e' ∧ c ≠ 'E') : Parted (c :: rest) := by
  rintro _ ⟨⟩
  exact apart

/-- A line break and what closes a list, or a comma, end a number. -/
theorem Parted.lineBreak (pretty : Bool) (depth : Nat) {rest : List Char} (parted : Parted rest) :
    Parted ((lineBreak pretty depth).toList ++ rest) := by
  cases pretty with
  | false => simpa [Json.lineBreak] using parted
  | true =>
      rw [Json.lineBreak, if_pos rfl, toList_pushn]
      exact .of_cons (by decide)

theorem Parted.items (pretty : Bool) (depth : Nat) (items : List Json) {rest : List Char}
    (parted : Parted rest) : Parted ((renderItems pretty depth items).toList ++ rest) := by
  cases items with
  | nil => simpa [renderItems] using parted
  | cons item more =>
      simp only [renderItems, String.toList_append, List.append_assoc]
      exact .of_cons (by decide)

theorem Parted.entries (pretty : Bool) (depth : Nat) (entries : List (String × Json))
    {rest : List Char} (parted : Parted rest) :
    Parted ((renderEntries pretty depth entries).toList ++ rest) := by
  cases entries with
  | nil => simpa [renderEntries] using parted
  | cons entry more =>
      simp only [renderEntries, String.toList_append, List.append_assoc]
      exact .of_cons (by decide)

theorem readItems_lineBreak (pretty : Bool) (depth steps : Nat) (read : List Json)
    (rest : List Char) :
    readItems (steps + 2) read ((lineBreak pretty depth).toList ++ rest) =
      readItems (steps + 2) read rest := by
  rw [readItems, readItems, readValue_lineBreak]

theorem readEntries_lineBreak (pretty : Bool) (depth steps : Nat) (read : List (String × Json))
    (rest : List Char) :
    readEntries (steps + 1) read ((lineBreak pretty depth).toList ++ rest) =
      readEntries (steps + 1) read rest := by
  rw [readEntries, readEntries, skipSpaces_lineBreak]

/-- Behind the opening bracket the items are read. -/
theorem readValue_items (pretty : Bool) (depth steps : Nat) {c : Char} {more : List Char}
    (opens : Opens c) :
    readValue (steps + 1) ('[' :: ((lineBreak pretty depth).toList ++ c :: more)) =
      readItems steps [] (c :: more) := by
  rw [readValue, skipSpaces_solid (by decide)]
  simp only [skipSpaces_lineBreak, skipSpaces_solid opens.1]
  split
  · rename_i closed
    exact absurd (List.cons.inj closed).1 opens.2
  · rfl

theorem readValue_entries (pretty : Bool) (depth steps : Nat) (more : List Char) :
    readValue (steps + 1) ('\x7b' :: ((lineBreak pretty depth).toList ++ '"' :: more)) =
      readEntries steps [] ('"' :: more) := by
  rw [readValue, skipSpaces_solid (by decide)]
  simp only [skipSpaces_lineBreak, skipSpaces_solid (show isSpace '"' = false by decide)]
  rfl

/-- One entry is read up to its value. -/
theorem readEntries_entry (pretty : Bool) (steps : Nat) (read : List (String × Json)) (name : String)
    (rest : List Char) :
    readEntries (steps + 2) read
        ((quote name).toList ++ ((if pretty then ": " else ":").toList ++ rest)) =
      match readValue (steps + 1) rest with
      | .error e => .error e
      | .ok (value, rest) =>
          match skipSpaces rest with
          | ',' :: rest => readEntries (steps + 1) ((name, value) :: read) rest
          | '\x7d' :: rest => .ok (.object ((name, value) :: read).reverse, rest)
          | rest => refuse rest := by
  rw [toList_quote, readEntries, skipSpaces_solid (by decide)]
  simp only [readString_quoted]
  have colon (more : List Char) : skipSpaces (':' :: more) = ':' :: more :=
    skipSpaces_solid (by decide) more
  have blank (more : List Char) : readValue (steps + 1) (' ' :: more) = readValue (steps + 1) more := by
    rw [readValue, readValue]
    rfl
  have separator : (if pretty then ": " else ":").toList = ':' :: (if pretty then [' '] else []) := by
    cases pretty <;> rfl
  have value : readValue (steps + 1) ((if pretty then [' '] else []) ++ rest) = readValue (steps + 1) rest := by
    cases pretty with
    | false => rfl
    | true => exact blank rest
  simp only [separator, List.cons_append, colon]
  generalize readValue (steps + 1) ((if pretty then [' '] else []) ++ rest) = found at value ⊢
  subst value
  rfl

/-- Wherever the text of the value stands, the value is read and what follows is left. -/
def ReadsBack (json : Json) : Prop :=
  ∀ (pretty : Bool) (depth steps : Nat) (rest : List Char), Parted rest →
    (render pretty depth json).toList.length ≤ steps →
    readValue steps ((render pretty depth json).toList ++ rest) = .ok (json, rest)

/-- A text is never empty, so that there is room for one step. -/
theorem Plain.readsBack_of {json : Json} (plain : json.Plain)
    (read : ∀ (pretty : Bool) (depth steps : Nat) (rest : List Char), Parted rest →
      (render pretty depth json).toList.length ≤ steps + 1 →
      readValue (steps + 1) ((render pretty depth json).toList ++ rest) = .ok (json, rest)) :
    json.ReadsBack := by
  intro pretty depth steps rest parted enough
  obtain ⟨c, more, text, _⟩ := render_opens pretty depth plain
  cases steps with
  | zero => simp [text] at enough
  | succ steps => exact read pretty depth steps rest parted enough

/-- Without room nothing is read. -/
theorem ReadsBack.length_pos {json : Json} (back : json.ReadsBack) (pretty : Bool) (depth : Nat) :
    0 < (render pretty depth json).toList.length := by
  by_contra none
  exact nomatch back pretty depth 0 [] (by rintro _ ⟨⟩) (Nat.le_of_not_lt none)

theorem readItems_render (pretty : Bool) (outer depth : Nat) (rest : List Char) {item : Json}
    {items : List Json} (first : item.ReadsBack) (others : ∀ item ∈ items, item.ReadsBack) {steps : Nat}
    (read : List Json) (enough : (render pretty depth item).toList.length +
      (renderItems pretty depth items).toList.length < steps) :
    readItems steps read ((render pretty depth item).toList ++
      ((renderItems pretty depth items).toList ++ ((lineBreak pretty outer).toList ++ ']' :: rest))) =
      .ok (.array (read.reverse ++ item :: items), rest) := by
  have positive := first.length_pos pretty depth
  induction items generalizing item steps read with
  | nil =>
      obtain ⟨steps, rfl⟩ := Nat.exists_eq_add_one.mpr (Nat.zero_lt_of_lt enough)
      have closing : skipSpaces (']' :: rest) = ']' :: rest := skipSpaces_solid (by decide) rest
      have now := first pretty depth steps ((lineBreak pretty outer).toList ++ ']' :: rest)
        (.lineBreak pretty outer (.of_cons (by decide))) (by omega)
      simp [readItems, renderItems, now, skipSpaces_lineBreak, closing]
  | cons next items ih =>
      have back := others next List.mem_cons_self
      have further := back.length_pos pretty depth
      have shorter : (render pretty depth next).toList.length +
          (renderItems pretty depth items).toList.length + 1 < steps := by
        simp only [renderItems, String.toList_append, List.length_append] at enough
        have : ",".toList.length = 1 := rfl
        omega
      obtain ⟨steps, rfl⟩ : ∃ less, steps = less + 3 := Nat.exists_eq_add_of_le' (by omega)
      have comma (more : List Char) : skipSpaces (',' :: more) = ',' :: more :=
        skipSpaces_solid (by decide) more
      have now := first pretty depth (steps + 2)
        ((renderItems pretty depth (next :: items)).toList ++
          ((lineBreak pretty outer).toList ++ ']' :: rest))
        (.items pretty depth _ (.lineBreak pretty outer (.of_cons (by decide)))) (by omega)
      have more := ih back (fun item member => others item (List.mem_cons_of_mem _ member))
        (item :: read) (Nat.lt_of_succ_lt_succ shorter) further
      rw [readItems, now]
      simpa [renderItems, comma, readItems_lineBreak] using more

theorem readEntries_render (pretty : Bool) (outer depth : Nat) (rest : List Char) (name : String)
    {value : Json} {entries : List (String × Json)} (first : value.ReadsBack)
    (others : ∀ entry ∈ entries, entry.2.ReadsBack) {steps : Nat} (read : List (String × Json))
    (enough : (render pretty depth value).toList.length +
      (renderEntries pretty depth entries).toList.length < steps) :
    readEntries steps read ((quote name).toList ++ ((if pretty then ": " else ":").toList ++
      ((render pretty depth value).toList ++ ((renderEntries pretty depth entries).toList ++
        ((lineBreak pretty outer).toList ++ '\x7d' :: rest))))) =
      .ok (.object (read.reverse ++ (name, value) :: entries), rest) := by
  have positive := first.length_pos pretty depth
  induction entries generalizing name value steps read with
  | nil =>
      obtain ⟨steps, rfl⟩ : ∃ less, steps = less + 2 := Nat.exists_eq_add_of_le' (by omega)
      have closing : skipSpaces ('\x7d' :: rest) = '\x7d' :: rest := skipSpaces_solid (by decide) rest
      have now := first pretty depth (steps + 1) ((lineBreak pretty outer).toList ++ '\x7d' :: rest)
        (.lineBreak pretty outer (.of_cons (by decide))) (by omega)
      rw [readEntries_entry]
      simp [renderEntries, now, skipSpaces_lineBreak, closing]
  | cons next entries ih =>
      have back := others next List.mem_cons_self
      have shorter : (render pretty depth next.2).toList.length +
          (renderEntries pretty depth entries).toList.length + 1 < steps := by
        simp only [renderEntries, renderEntry, String.toList_append, List.length_append] at enough
        have : ",".toList.length = 1 := rfl
        omega
      obtain ⟨steps, rfl⟩ : ∃ less, steps = less + 2 := Nat.exists_eq_add_of_le' (by omega)
      have comma (more : List Char) : skipSpaces (',' :: more) = ',' :: more :=
        skipSpaces_solid (by decide) more
      have now := first pretty depth (steps + 1)
        ((renderEntries pretty depth (next :: entries)).toList ++
          ((lineBreak pretty outer).toList ++ '\x7d' :: rest))
        (.entries pretty depth _ (.lineBreak pretty outer (.of_cons (by decide)))) (by omega)
      have more := ih next.1 back
        (fun entry member => others entry (List.mem_cons_of_mem _ member)) ((name, value) :: read)
        (Nat.lt_of_succ_lt_succ shorter) (back.length_pos pretty depth)
      rw [readEntries_entry, now]
      simpa [renderEntries, renderEntry, comma, readEntries_lineBreak] using more

theorem readsBack_array {items : List Json} (plain : ∀ item ∈ items, item.Plain)
    (back : ∀ item ∈ items, item.ReadsBack) : (array items).ReadsBack := by
  refine (Plain.array plain).readsBack_of fun pretty depth steps rest _ enough => ?_
  cases items with
  | nil =>
      rw [render]
      rfl
  | cons item items =>
      obtain ⟨c, more, text, opens⟩ := render_opens pretty (depth + 1) (plain item List.mem_cons_self)
      have room : (render pretty (depth + 1) item).toList.length +
          (renderItems pretty (depth + 1) items).toList.length < steps := by
        simp [render] at enough
        omega
      have read := readItems_render pretty depth (depth + 1) rest (back item List.mem_cons_self)
        (fun item member => back item (List.mem_cons_of_mem _ member)) [] room
      rw [text, List.cons_append, ← readValue_items pretty (depth + 1) steps opens] at read
      simpa [render, text] using read

theorem readsBack_object {entries : List (String × Json)} (plain : ∀ entry ∈ entries, entry.2.Plain)
    (back : ∀ entry ∈ entries, entry.2.ReadsBack) : (object entries).ReadsBack := by
  refine (Plain.object plain).readsBack_of fun pretty depth steps rest _ enough => ?_
  cases entries with
  | nil =>
      rw [render]
      rfl
  | cons entry entries =>
      obtain ⟨name, value⟩ := entry
      have room : (render pretty (depth + 1) value).toList.length +
          (renderEntries pretty (depth + 1) entries).toList.length < steps := by
        simp [render, renderEntry] at enough
        omega
      have read := readEntries_render pretty depth (depth + 1) rest name
        (back (name, value) List.mem_cons_self)
        (fun entry member => back entry (List.mem_cons_of_mem _ member)) [] room
      rw [toList_quote, ← readValue_entries pretty (depth + 1) steps] at read
      simpa [render, renderEntry, quote] using read

/-- A written value is read as the value. -/
theorem Plain.readsBack {json : Json} (plain : json.Plain) : json.ReadsBack := by
  induction plain with
  | null => exact Plain.null.readsBack_of fun pretty depth steps rest _ _ => by rw [render]; rfl
  | bool value =>
      refine (Plain.bool value).readsBack_of fun pretty depth steps rest _ _ => ?_
      cases value <;> rw [render] <;> rfl
  | int value =>
      refine (Plain.int value).readsBack_of fun pretty depth steps rest parted _ => ?_
      cases value with
      | ofNat n =>
          rw [render, Int.ofNat_eq_natCast, toList_natural]
          exact readValue_digits steps n parted
      | negSucc n =>
          rw [render, toList_negative]
          exact readValue_negative steps n parted
  | string value =>
      refine (Plain.string value).readsBack_of fun pretty depth steps rest _ _ => ?_
      rw [render]
      exact readValue_quoted steps value rest
  | array plain ih => exact readsBack_array plain ih
  | object plain ih => exact readsBack_object plain ih

/-- The text of a value, compact or not, is parsed as the value. -/
theorem parse_render {json : Json} (plain : json.Plain) (pretty : Bool) (depth : Nat) :
    parse (render pretty depth json) = .ok json := by
  have read := plain.readsBack pretty depth ((render pretty depth json).toList.length + 1) []
    (by rintro _ ⟨⟩) (Nat.le_succ _)
  rw [List.append_nil] at read
  rw [parse, read]
  rfl

end ExprLang.Json
