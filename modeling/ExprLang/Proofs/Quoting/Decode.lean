import ExprLang.Proofs.Tandem.Laws

/-!
Quoted texts and what they stand for. A quote inside is written twice, or it has a backslash before it
as a backslash has, and a few characters can be written as a letter behind a backslash. Decoding gives
the text back and ends at the quote that closes it; where quotes are doubled there is no other way to
write a text.
-/

namespace ExprLang

variable {quote c : Char} {text written after chars : List Char} {escape : TextEscape}

/-! Ways to write a text -/

/-- The text with each of its quotes written twice. -/
def doubleQuotes (quote : Char) (text : List Char) : List Char :=
  text.flatMap fun c => if c = quote then [quote, quote] else [c]

/-- The characters that have letters to stand for them behind a backslash. -/
def escapeLetters : List (Char × Char) := [('\n', 'n'), ('\t', 't'), ('\r', 'r'), ('\x00', '0')]

/-- The text with a backslash before each quote and each backslash. A character that has a letter may be
written with it or as it is. -/
inductive Escapes (quote : Char) : List Char → List Char → Prop
  | nil : Escapes quote [] []
  | plain {c : Char} {text written : List Char} (notQuote : c ≠ quote) (notBackslash : c ≠ '\\')
      (rest : Escapes quote text written) : Escapes quote (c :: text) (c :: written)
  | marked {c : Char} {text written : List Char} (needed : c = quote ∨ c = '\\')
      (rest : Escapes quote text written) : Escapes quote (c :: text) ('\\' :: c :: written)
  | letter {c letter : Char} {text written : List Char} (stands : (c, letter) ∈ escapeLetters)
      (rest : Escapes quote text written) : Escapes quote (c :: text) ('\\' :: letter :: written)

/-- The quotes that mean themselves behind a backslash. -/
def Escapable (quote : Char) : Prop := quote ≠ '\\' ∧ ∀ letter ∈ escapeLetters.map (·.2), quote ≠ letter

/-- The text can be written like this between quotes. -/
def Writes (quote : Char) (text written : List Char) : TextEscape → Prop
  | .doubledQuote => written = doubleQuotes quote text
  | .backslash => Escapable quote ∧ Escapes quote text written

namespace Constant

/-! One character or two at a time -/

theorem length_cons_one (constant : Constant) : (constant.cons c 1).length = constant.length + 1 :=
  Nat.add_comm _ _

theorem length_cons_two (constant : Constant) : (constant.cons c 2).length = constant.length + 2 :=
  Nat.add_comm _ _

theorem decode_plain (notQuote : c ≠ quote) (plain : c ≠ '\\' ∨ escape ≠ .backslash) :
    decode escape quote (c :: chars) = (decode escape quote chars).cons c 1 := by
  have noEscape : ¬ (c = '\\' ∧ escape = .backslash) := by tauto
  cases chars with
  | nil => simp [decode, notQuote, cons]
  | cons d rest => rw [decode, if_neg notQuote, if_neg noEscape]

theorem decode_doubled : decode .doubledQuote quote (quote :: quote :: chars) =
    (decode .doubledQuote quote chars).cons quote 2 := by
  rw [decode, if_pos rfl, if_pos ⟨rfl, rfl⟩]

theorem decode_escaped (notBackslash : quote ≠ '\\') :
    decode .backslash quote ('\\' :: c :: chars) =
      (decode .backslash quote chars).cons (unescape c) 2 := by
  rw [decode, if_neg notBackslash.symm, if_pos ⟨rfl, rfl⟩]

theorem unescape_self (escapable : Escapable quote) (needed : c = quote ∨ c = '\\') :
    unescape c = c := by
  rcases needed with rfl | rfl
  · unfold unescape
    split <;> first | rfl | exact absurd rfl (escapable.2 _ (by decide))
  · rfl

theorem unescape_letter {letter : Char} (stands : (c, letter) ∈ escapeLetters) :
    unescape letter = c := by
  simp only [escapeLetters, List.mem_cons, Prod.mk.injEq, List.not_mem_nil, or_false] at stands
  rcases stands with ⟨rfl, rfl⟩ | ⟨rfl, rfl⟩ | ⟨rfl, rfl⟩ | ⟨rfl, rfl⟩ <;> rfl

/-! Whole texts -/

theorem decode_doubleQuotes (single : after[0]? ≠ some quote) :
    decode .doubledQuote quote (doubleQuotes quote text ++ quote :: after) =
      ⟨text, (doubleQuotes quote text).length + 1, true⟩ := by
  induction text with
  | nil => exact decode_closing fun _ => single
  | cons c rest ih =>
      unfold doubleQuotes at ih ⊢
      rw [List.flatMap_cons]
      by_cases isQuote : c = quote
      · subst isQuote
        rw [if_pos rfl, List.append_assoc, List.cons_append, List.singleton_append, decode_doubled, ih]
        simp [cons]
        omega
      · rw [if_neg isQuote, List.append_assoc, List.singleton_append,
          decode_plain isQuote (Or.inr (by decide)), ih]
        simp [cons]
        omega

theorem decode_escapes (escapable : Escapable quote) (escapes : Escapes quote text written) :
    decode .backslash quote (written ++ quote :: after) = ⟨text, written.length + 1, true⟩ := by
  induction escapes with
  | nil => exact decode_closing (by simp)
  | plain notQuote notBackslash _ ih =>
      rw [List.cons_append, decode_plain notQuote (Or.inl notBackslash), ih]
      simp [cons]
      omega
  | marked needed _ ih =>
      rw [List.cons_append, List.cons_append, decode_escaped escapable.1, ih,
        unescape_self escapable needed]
      simp [cons]
      omega
  | letter stands _ ih =>
      rw [List.cons_append, List.cons_append, decode_escaped escapable.1, ih, unescape_letter stands]
      simp [cons]
      omega

/-- What has been written for a text is decoded to it, up to the closing quote. -/
theorem decode_writes (writes : Writes quote text written escape)
    (single : escape = .doubledQuote → after[0]? ≠ some quote) :
    decode escape quote (written ++ quote :: after) = ⟨text, written.length + 1, true⟩ := by
  cases escape with
  | doubledQuote =>
      obtain rfl : written = doubleQuotes quote text := writes
      exact decode_doubleQuotes (single rfl)
  | backslash => exact decode_escapes writes.1 writes.2

/-- The characters of a constant are all that it is decoded from. -/
theorem decode_take : decode escape quote (chars.take (decode escape quote chars).length) =
    decode escape quote chars := by
  -- The end of the text, a quote or another character there, a doubled quote, the closing quote, an
  -- escape, and a character that stands for itself.
  fun_induction decode escape quote chars with
  | case1 => rfl
  | case2 =>
      rw [List.take_succ_cons, List.take_zero]
      exact decode_closing (by simp)
  | case3 c notQuote =>
      rw [List.take_succ_cons, List.take_zero, decode, if_neg notQuote]
  | case4 d rest doubled ih =>
      obtain ⟨rfl, rfl⟩ := doubled
      rw [length_cons_two, List.take_succ_cons, List.take_succ_cons, decode_doubled, ih]
  | case5 d rest single =>
      rw [List.take_succ_cons, List.take_zero]
      exact decode_closing (by simp)
  | case6 c d rest notQuote escaped ih =>
      obtain ⟨rfl, rfl⟩ := escaped
      rw [length_cons_two, List.take_succ_cons, List.take_succ_cons, decode_escaped (Ne.symm notQuote), ih]
  | case7 c d rest notQuote unescaped ih =>
      rw [length_cons_one, List.take_succ_cons, decode_plain notQuote (by tauto), ih]

/-- With doubled quotes a constant that is closed has been written the one way there is. -/
theorem eq_doubleQuotes_of_closed (closed : (decode .doubledQuote quote chars).closed = true) :
    chars.take (decode .doubledQuote quote chars).length =
      doubleQuotes quote (decode .doubledQuote quote chars).text ++ [quote] := by
  unfold doubleQuotes
  fun_induction decode TextEscape.doubledQuote quote chars with
  | case1 => cases closed
  | case2 => rfl
  | case3 c notQuote => cases closed
  | case4 d rest doubled ih =>
      obtain ⟨-, rfl⟩ := doubled
      rw [length_cons_two, List.take_succ_cons, List.take_succ_cons, ih closed]
      simp [cons]
  | case5 d rest single => rfl
  | case6 c d rest notQuote escaped ih => cases escaped.2
  | case7 c d rest notQuote unescaped ih =>
      rw [length_cons_one, List.take_succ_cons, ih closed]
      simp [cons, notQuote]

end Constant

end ExprLang
