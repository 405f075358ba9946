import ExprLang.Proofs.Language
import ExprLang.Proofs.Quoting.Steps

/-!
Text constants mean what has been written. A text that is written between quotes is read back, whatever
follows its closing quote; and where quotes are doubled the characters of a closed constant are the one
way to write its text, so there is nothing else that would have been read as the same.
-/

namespace ExprLang

variable {quote : Char} {raw text : String}

/-- With doubled quotes the characters of a closed constant are those of its text. -/
theorem ItemKind.Decoded.raw_eq
    (decoded : ItemKind.Decoded .doubledQuote (.constantText raw text quote true)) :
    raw.toList = quote :: (doubleQuotes quote text.toList ++ [quote]) := by
  obtain ⟨chars, isRaw, isDecoded⟩ := decoded
  have written := @Constant.eq_doubleQuotes_of_closed quote chars (by rw [isDecoded])
  rw [isDecoded, List.take_length] at written
  rw [isRaw, written]

namespace Parse

/-- What has been read from `s` on is a text constant of its own with these characters and this text. The
cursor stands right behind it, and there is nothing to report. -/
structure Reads (s : ParseState) (quote : Char) (raw text : List Char) (item : ItemId) (t : ParseState) :
    Prop where
  isNew : item = s.forest.size
  kind : t.forest.kind? item =
    some (.constantText (String.ofList raw) (String.ofList text) quote true)
  cursor : t.cursor = { s.cursor with position := s.cursor.position + raw.length }
  faults : t.faults = s.faults

variable {grammar : Grammar} {s : ParseState} {written after : List Char} {text : List Char}

/-- What has been written for a text is read as that text. -/
theorem reads_textConstant (writes : Writes quote text written grammar.textEscape)
    (single : grammar.textEscape = .doubledQuote → after[0]? ≠ some quote)
    (here : s.cursor.text.rest s.cursor.position = quote :: (written ++ quote :: after)) :
    ∃ item t, textConstant grammar quote s = .ok item t ∧
      Reads s quote (quote :: (written ++ [quote])) text item t := by
  have decoded := Constant.decode_writes writes single
  have raw : s.cursor.text.slice s.cursor.position (s.cursor.position + 1 + (written.length + 1)) =
      String.ofList (quote :: (written ++ [quote])) := by
    rw [← String.ofList_toList (s := s.cursor.text.slice _ _), Nat.add_assoc, Text.toList_slice, here]
    simp [Nat.add_comm 1, List.take_append, List.take_of_length_le]
  have inside : s.cursor.position + 1 + (written.length + 1) ≤ s.cursor.text.size := by
    have length := congrArg List.length here
    rw [Text.length_rest] at length
    simp only [List.length_cons, List.length_append] at length
    omega
  obtain ⟨item, t, run, isNew, behind⟩ := (ends_textConstant_behind grammar quote).exists_ok
  rw [Text.rest_succ here, decoded] at behind
  refine ⟨item, t, run, ?_⟩
  constructor
  · exact isNew
  · rw [isNew, behind, kind_behindConstant, constantKind, raw]
  · rw [behind, behindConstant, Cursor.moveTo, Nat.min_eq_left inside]
    simp
    omega
  · rw [behind]
    rfl

end Parse

namespace Grammar

/-- Text constants mean what has been written. What a text is written as between quotes is read as that
text, whatever follows. Where quotes are doubled, a constant that is read as closed is written as its text
is, in every state that a step can start from and for every constant of a parse. -/
theorem constants_mean_what_is_written (grammar : Grammar) :
    (∀ s quote text written after, Writes quote text written grammar.textEscape →
      (grammar.textEscape = .doubledQuote → after[0]? ≠ some quote) →
      s.cursor.text.rest s.cursor.position = quote :: (written ++ quote :: after) →
      ∃ item t, Parse.textConstant grammar quote s = .ok item t ∧
        Parse.Reads s quote (quote :: (written ++ [quote])) text item t) ∧
    (grammar.textEscape = .doubledQuote →
      (∀ s quote item t raw text, s.cursor.current? = some quote →
        Parse.textConstant grammar quote s = .ok item t →
        t.forest.kind? item = some (.constantText raw text quote true) →
        raw.toList = quote :: (doubleQuotes quote text.toList ++ [quote])) ∧
      ∀ input id quote raw text,
        (grammar.parse input).forest.kind? id = some (.constantText raw text quote true) →
        raw.toList = quote :: (doubleQuotes quote text.toList ++ [quote])) := by
  constructor
  · exact fun s quote text written after => Parse.reads_textConstant
  · intro doubled
    constructor
    · intro s quote item t raw text here run found
      obtain ⟨rfl, rfl⟩ := (Parse.ends_textConstant_behind grammar quote).of_ok run
      rw [Parse.kind_behindConstant] at found
      have decoded := Parse.decoded_constantKind grammar.textEscape here
      rw [Option.some.inj found, doubled] at decoded
      exact decoded.raw_eq
    · intro input id quote raw text found
      have decoded := grammar.decoded_finalState (Text.ofString input) id _ found
      rw [doubled] at decoded
      exact decoded.raw_eq

def escapingGrammar : Grammar := { sampleGrammar [] with textEscape := .backslash }

/-- A quote written twice, and one with a backslash next to a line feed and a backslash that are escaped. -/
theorem quotes_inside_constants :
    (∃ item t, Parse.textConstant (sampleGrammar []) '"'
        ((sampleGrammar []).initialState #['"', 'a', '"', '"', 'b', '"', 'c']) = .ok item t ∧
      Parse.Reads ((sampleGrammar []).initialState #['"', 'a', '"', '"', 'b', '"', 'c']) '"'
        ['"', 'a', '"', '"', 'b', '"'] ['a', '"', 'b'] item t) ∧
    (∃ item t, Parse.textConstant escapingGrammar '"'
        (escapingGrammar.initialState #['"', '\\', '"', '\\', 'n', '\\', '\\', '"', '"']) = .ok item t ∧
      Parse.Reads (escapingGrammar.initialState #['"', '\\', '"', '\\', 'n', '\\', '\\', '"', '"']) '"'
        ['"', '\\', '"', '\\', 'n', '\\', '\\', '"'] ['"', '\n', '\\'] item t) ∧
    ((sampleGrammar []).parse (String.ofList ['"', 'a', '"', '"', '"'])).forest.kind? 1 =
      some (.constantText (String.ofList ['"', 'a', '"', '"', '"']) (String.ofList ['a', '"']) '"' true) ∧
    ['"', 'a', '"', '"', '"'] = '"' :: (doubleQuotes '"' ['a', '"'] ++ ['"']) := by
  have found : ((sampleGrammar []).parse (String.ofList ['"', 'a', '"', '"', '"'])).forest.kind? 1 =
      some (.constantText (String.ofList ['"', 'a', '"', '"', '"']) (String.ofList ['a', '"']) '"' true) := by
    decide +kernel
  have sample := constants_mean_what_is_written (sampleGrammar [])
  have escaping := constants_mean_what_is_written escapingGrammar
  have escapable : Escapable '"' := by simp [Escapable, escapeLetters]
  have escapes : Escapes '"' ['"', '\n', '\\'] ['\\', '"', '\\', 'n', '\\', '\\'] :=
    .marked (Or.inl rfl) (.letter (by decide) (.marked (Or.inr rfl) .nil))
  refine ⟨?_, ?_, found, ?_⟩
  · exact sample.1 _ '"' ['a', '"', 'b'] ['a', '"', '"', 'b'] ['c'] rfl (by decide) (by decide)
  · exact escaping.1 _ '"' ['"', '\n', '\\'] _ ['"'] ⟨escapable, escapes⟩
      (fun doubled => absurd doubled (by decide)) (by decide)
  · exact (sample.2 rfl).2 _ _ _ _ _ found

end Grammar

end ExprLang
