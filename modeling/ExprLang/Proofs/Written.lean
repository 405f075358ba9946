import ExprLang.Language.Written
import ExprLang.Proofs.Gaps

/-!
What a grammar finds at a position stands there: it has a first character, it ends inside the text,
and the words of an operator stand one behind the other with gaps between them.
-/

namespace ExprLang

/-- Words with gaps between them, from `a` to just behind the last one. -/
def CommentMarkers.Spelled (markers : CommentMarkers) (text : Text) :
    Nat → List (Nat × String) → Nat → Prop
  | a, [], b => a = b
  | a, (start, word) :: rest, b =>
      markers.gapEnd text a = start ∧ 0 < word.length ∧ start + word.length ≤ text.size ∧
        word = text.slice start (start + word.length) ∧
        Spelled markers text (start + word.length) rest b

/-- The operator is written at `place`. -/
structure OperatorMatch.Stands (markers : CommentMarkers) (text : Text) (place : Nat)
    (written : OperatorMatch) : Prop where
  nonempty : written.parts ≠ []
  spelled : markers.Spelled text place written.parts written.stop

/-- The words end where the last one ends. -/
theorem CommentMarkers.Spelled.stop_eq {markers : CommentMarkers} {text : Text} {a b : Nat}
    {words : List (Nat × String)} (spelled : markers.Spelled text a words b) :
    b = (words.getLast?.map fun word => word.1 + word.2.length).getD a := by
  induction words generalizing a with
  | nil => exact spelled.symm
  | cons word rest ih =>
      rw [ih spelled.2.2.2.2]
      cases rest <;> simp [List.getLast?_cons]

/-- The spans of words are pieces with gaps between them. -/
theorem CommentMarkers.Spelled.spaced {markers : CommentMarkers} {text : Text} {a b : Nat}
    {words : List (Nat × String)} (spelled : markers.Spelled text a words b) :
    markers.Spaced text a (words.map fun word => (word.1, word.1 + word.2.length)) b := by
  induction words generalizing a with
  | nil =>
      cases spelled
      exact CommentMarkers.spaced_refl markers text _
  | cons word rest ih =>
      obtain ⟨gap, filled, _, _, later⟩ := spelled
      exact ⟨gap, Nat.lt_add_of_pos_right filled, ih later⟩

/-- The words stand inside the text. -/
theorem CommentMarkers.Spelled.stop_le {markers : CommentMarkers} {text : Text} {a b : Nat}
    {words : List (Nat × String)} (spelled : markers.Spelled text a words b) (inside : a ≤ text.size) :
    b ≤ text.size := by
  induction words generalizing a with
  | nil => exact spelled ▸ inside
  | cons word rest ih => exact ih spelled.2.2.2.2 spelled.2.2.1

/-- The last word ends behind the place where the gap before the first one begins. -/
theorem CommentMarkers.Spelled.inside {markers : CommentMarkers} {text : Text} {a b : Nat}
    {words : List (Nat × String)} (spelled : markers.Spelled text a words b) (nonempty : words ≠ []) :
    a < b ∧ b ≤ text.size := by
  obtain ⟨first, rest, rfl⟩ := List.exists_cons_of_ne_nil nonempty
  obtain ⟨gap, filled, inside, _, later⟩ := spelled
  have ahead : a ≤ first.1 := gap ▸ CommentMarkers.le_gapEnd
  have behind := later.spaced.le
  exact ⟨by omega, later.stop_le inside⟩

/-- Behind all words but the last one a gap goes on to the next word. -/
theorem CommentMarkers.Spelled.gaps_inside {markers : CommentMarkers} {text : Text} {a b : Nat}
    {words : List (Nat × String)} (spelled : markers.Spelled text a words b) :
    (words ≠ [] → markers.gapEnd text a < text.size) ∧
      ∀ word ∈ words.dropLast, markers.gapEnd text (word.1 + word.2.length) < text.size := by
  induction words generalizing a with
  | nil => exact ⟨fun nonempty => absurd rfl nonempty, nofun⟩
  | cons word rest ih =>
      obtain ⟨gap, filled, inside, _, later⟩ := spelled
      obtain ⟨next, others⟩ := ih later
      refine ⟨fun _ => by omega, fun other member => ?_⟩
      cases rest with
      | nil => cases member
      | cons second rest =>
          rcases List.mem_cons.mp member with rfl | isOther
          · exact next (List.cons_ne_nil _ _)
          · exact others other isOther

namespace OperatorMatch.Stands

variable {markers : CommentMarkers} {text : Text} {place : Nat} {written : OperatorMatch}

theorem start_eq (stands : written.Stands markers text place)
    (settled : markers.Settled text place) : written.start = place := by
  have spelled := stands.spelled
  obtain ⟨first, rest, parts⟩ := List.exists_cons_of_ne_nil stands.nonempty
  rw [parts] at spelled
  rw [OperatorMatch.start, parts]
  exact spelled.1.symm.trans (CommentMarkers.gapEnd_of_settled settled)

theorem lt_stop (stands : written.Stands markers text place) : place < written.stop :=
  (stands.spelled.inside stands.nonempty).1

end OperatorMatch.Stands

namespace Grammar

variable {grammar : Grammar} {text : Text} {place : Nat}

theorem isSymbolAt_inside {symbol : String} (written : grammar.isSymbolAt text place symbol = true) :
    0 < symbol.length ∧ place + symbol.length ≤ text.size :=
  Text.isWritten_inside (Bool.and_eq_true_iff.mp written).1

/-- A fold that keeps the old value or takes the new one gives one of the values. -/
theorem mem_of_foldl {α : Type} {keep : Option α → α → Option α}
    (picks : ∀ best value kept, keep best value = some kept → kept = value ∨ best = some kept)
    {values : List α} {best : Option α} {kept : α} (last : values.foldl keep best = some kept) :
    kept ∈ values ∨ best = some kept := by
  induction values generalizing best with
  | nil => exact Or.inr last
  | cons value rest ih =>
      rcases ih last with later | here
      · exact Or.inl (List.mem_cons_of_mem _ later)
      · rcases picks best value kept here with rfl | before
        · exact Or.inl List.mem_cons_self
        · exact Or.inr before

theorem longerKeyword_picks (best : Option Keyword) (keyword kept : Keyword)
    (last : longerKeyword best keyword = some kept) : kept = keyword ∨ best = some kept := by
  cases best with
  | none => exact Or.inl (Option.some.inj last).symm
  | some other =>
      unfold longerKeyword at last
      dsimp only at last
      split at last
      · exact Or.inl (Option.some.inj last).symm
      · exact Or.inr last

theorem keywordAt_inside {keyword : Keyword} (found : grammar.keywordAt? text place = some keyword) :
    0 < keyword.text.length ∧ place + keyword.text.length ≤ text.size := by
  rcases mem_of_foldl longerKeyword_picks found with member | none
  · exact isSymbolAt_inside (List.mem_filter.mp member).2
  · cases none

theorem isBlockStartAt_inside (starts : grammar.isBlockStartAt text place = true) :
    ∃ markers, grammar.codeBlock = some markers ∧ 0 < markers.start.length ∧
      place + markers.start.length ≤ text.size := by
  unfold isBlockStartAt at starts
  cases block : grammar.codeBlock with
  | none =>
      rw [block] at starts
      cases starts
  | some markers =>
      rw [block] at starts
      exact ⟨markers, rfl, isSymbolAt_inside starts⟩

theorem isBlockEndAt_inside (ends : grammar.isBlockEndAt text place = true) :
    ∃ markers, grammar.codeBlock = some markers ∧ 0 < markers.stop.length ∧
      place + markers.stop.length ≤ text.size := by
  unfold isBlockEndAt at ends
  cases block : grammar.codeBlock with
  | none =>
      rw [block] at ends
      cases ends
  | some markers =>
      rw [block] at ends
      exact ⟨markers, rfl, isSymbolAt_inside ends⟩

theorem numberAt_length {written : NumericMatch}
    (found : grammar.numberAt? text place = some written) : 0 < written.length := by
  obtain ⟨rule, _, found⟩ := List.exists_of_findSome?_eq_some found
  split at found
  · cases found
  · split at found
    · cases found
      exact Nat.sub_pos_of_lt (by assumption)
    · cases found

theorem le_nameEnd (grammar : Grammar) (text : Text) (place : Nat) :
    place ≤ grammar.nameEnd text place := Text.le_seek _ _ _

theorem nameEnd_le (grammar : Grammar) (inside : place ≤ text.size) : grammar.nameEnd text place ≤ text.size := by
  have bound := Text.seek_le (fun i => !text[i]?.any (grammar.isLiteralChar · (i - place)))
    (text.size - place) place
  unfold nameEnd
  omega

/-! Operators -/

/-- The text of each word. -/
def wordsOf (text : Text) (spans : List (Nat × Nat)) : List (Nat × String) :=
  spans.map fun (start, length) => (start, text.slice start (start + length))

theorem length_slice_of_inside {start length : Nat} (inside : start + length ≤ text.size) :
    (text.slice start (start + length)).length = length := by
  rw [Text.length_slice]
  omega

theorem spelled_cons {start length a b : Nat} {spans : List (Nat × Nat)}
    (gap : grammar.comments.gapEnd text a = start) (filled : 0 < length)
    (inside : start + length ≤ text.size)
    (rest : grammar.comments.Spelled text (start + length) (wordsOf text spans) b) :
    grammar.comments.Spelled text a (wordsOf text ((start, length) :: spans)) b := by
  have same := length_slice_of_inside inside
  refine ⟨gap, ?_, ?_, ?_, ?_⟩ <;> simp only [same]
  · exact filled
  · exact inside
  · exact rest

/-- The end of the last word. -/
def spansEnd (a : Nat) (spans : List (Nat × Nat)) : Nat :=
  (spans.getLast?.map fun span => span.1 + span.2).getD a

theorem spansEnd_cons (a : Nat) (span : Nat × Nat) (spans : List (Nat × Nat)) :
    spansEnd a (span :: spans) = spansEnd (span.1 + span.2) spans := by
  unfold spansEnd
  cases spans <;> simp [List.getLast?_cons]

theorem moreSpans_spelled {parts : List String} {spans : List (Nat × Nat)}
    (found : grammar.moreSpans? text place parts = some spans) :
    grammar.comments.Spelled text place (wordsOf text spans) (spansEnd place spans) := by
  induction parts generalizing place spans with
  | nil =>
      cases found
      exact rfl
  | cons part rest ih =>
      unfold moreSpans? at found
      dsimp only at found
      split at found
      · cases found
      · split at found
        · rename_i written
          obtain ⟨filled, inside⟩ := isSymbolAt_inside written
          obtain ⟨later, foundLater, rfl⟩ := Option.map_eq_some_iff.mp found
          rw [spansEnd_cons]
          exact spelled_cons rfl filled inside (ih foundLater)
        · cases found

theorem spans_spelled {parts : List String} {spans : List (Nat × Nat)}
    (settled : grammar.comments.Settled text place) (nonempty : parts ≠ [])
    (found : grammar.spans? text place parts = some spans) :
    spans ≠ [] ∧ grammar.comments.Spelled text place (wordsOf text spans) (spansEnd place spans) := by
  cases parts with
  | nil => exact absurd rfl nonempty
  | cons part rest =>
      simp only [spans?] at found
      split at found
      · rename_i written
        obtain ⟨filled, inside⟩ := isSymbolAt_inside written
        obtain ⟨later, foundLater, rfl⟩ := Option.map_eq_some_iff.mp found
        refine ⟨List.cons_ne_nil _ _, ?_⟩
        rw [spansEnd_cons]
        exact spelled_cons (CommentMarkers.gapEnd_of_settled settled) filled inside
          (moreSpans_spelled foundLater)
      · cases found

/-- The end of the last of some words is the end of one of them, and behind a gap each of them begins. -/
theorem moreSpans_last {parts : List String} {spans : List (Nat × Nat)}
    (found : grammar.moreSpans? text place parts = some spans) :
    spansEnd place spans = place ∨ ∃ part ∈ parts, ∃ start, grammar.comments.Settled text start ∧
      grammar.isSymbolAt text start part = true ∧ spansEnd place spans = start + part.length := by
  induction parts generalizing place spans with
  | nil =>
      cases found
      exact Or.inl rfl
  | cons part rest ih =>
      simp only [moreSpans?, Option.ite_none_left_eq_some, Option.ite_none_right_eq_some,
        Option.map_eq_some_iff] at found
      obtain ⟨_, written, later, foundLater, rfl⟩ := found
      rw [spansEnd_cons]
      rcases ih foundLater with here | ⟨other, member, behind⟩
      · exact Or.inr ⟨part, List.mem_cons_self, _, CommentMarkers.settled_gapEnd, written, here⟩
      · exact Or.inr ⟨other, List.mem_cons_of_mem _ member, behind⟩

theorem spans_last {parts : List String} {spans : List (Nat × Nat)} (nonempty : parts ≠ [])
    (found : grammar.spans? text place parts = some spans) : ∃ part ∈ parts, ∃ start,
      (start = place ∨ grammar.comments.Settled text start) ∧
        grammar.isSymbolAt text start part = true ∧ spansEnd place spans = start + part.length := by
  cases parts with
  | nil => exact absurd rfl nonempty
  | cons part rest =>
      simp only [spans?, Option.ite_none_right_eq_some, Option.map_eq_some_iff] at found
      obtain ⟨written, later, foundLater, rfl⟩ := found
      rw [spansEnd_cons]
      rcases moreSpans_last foundLater with here | ⟨other, member, start, settled, behind⟩
      · exact ⟨part, List.mem_cons_self, place, Or.inl rfl, written, here⟩
      · exact ⟨other, List.mem_cons_of_mem _ member, start, Or.inr settled, behind⟩

/-- Some words of an operator's name, but not all, are written from `start` to `stop`. -/
def NameBegins (grammar : Grammar) (text : Text) (start stop : Nat) : Prop :=
  ∃ operator ∈ grammar.operators, ∃ words more spans, operator.nameParts = words ++ more ∧
    words ≠ [] ∧ more ≠ [] ∧ grammar.spans? text start words = some spans ∧ spansEnd start spans = stop

/-- A name begins behind gaps and ends where the text goes on or ends. -/
theorem NameBegins.inside {start stop : Nat} (begins : grammar.NameBegins text start stop)
    (settled : grammar.comments.Settled text start) : start < stop ∧ stop ≤ text.size := by
  obtain ⟨_, _, words, _, spans, _, filled, _, found, rfl⟩ := begins
  obtain ⟨nonempty, spelled⟩ := spans_spelled settled filled found
  exact spelled.inside (by simpa [wordsOf] using nonempty)

/-- Every operator has a first word. -/
def Named (grammar : Grammar) : Prop := ∀ operator ∈ grammar.operators, operator.nameParts ≠ []

theorem best_mem {afterOperand : Bool} {spellings : List Spelling} {best : Spelling}
    (found : Spelling.best? afterOperand spellings = some best) : best ∈ spellings := by
  refine (mem_of_foldl ?_ found).resolve_right (by simp)
  intro before spelling kept last
  cases before with
  | none => exact Or.inl (Option.some.inj last).symm
  | some other =>
      dsimp only at last
      split at last
      · exact Or.inl (Option.some.inj last).symm
      · exact Or.inr last

/-- The words of an operator are those of the best spelling. -/
theorem operatorAt_spans {afterOperand : Bool} {written : OperatorMatch}
    (found : grammar.operatorAt? text place afterOperand = some written) :
    ∃ operator ∈ grammar.operators, ∃ spans,
      grammar.spans? text place operator.nameParts = some spans ∧ written.parts = wordsOf text spans := by
  unfold operatorAt? at found
  dsimp only at found
  split at found
  · cases found
  · rename_i best chosen
    split at found
    · cases found
    · cases found
      obtain ⟨operator, member, spelled⟩ := List.mem_filterMap.mp (best_mem chosen)
      obtain ⟨spans, foundSpans, rfl⟩ := Option.map_eq_some_iff.mp spelled
      exact ⟨operator, member, spans, foundSpans, rfl⟩

theorem operatorAt_stands {afterOperand : Bool} {written : OperatorMatch} (named : grammar.Named)
    (settled : grammar.comments.Settled text place)
    (found : grammar.operatorAt? text place afterOperand = some written) :
    written.Stands grammar.comments text place := by
  obtain ⟨operator, member, spans, foundSpans, parts⟩ := operatorAt_spans found
  obtain ⟨nonempty, words⟩ := spans_spelled settled (named operator member) foundSpans
  rw [← parts] at words
  refine ⟨by simpa [parts, wordsOf] using nonempty, ?_⟩
  have stop := words.stop_eq
  obtain ⟨last, final⟩ := Option.ne_none_iff_exists'.mp (mt List.getLast?_eq_none_iff.mp nonempty)
  have same : written.stop = spansEnd place spans := by
    rw [stop, OperatorMatch.stop]
    simp [parts, wordsOf, List.getLast?_map, final]
  exact same ▸ words

/-- Behind all words of an operator but the last one the text goes on. -/
theorem operatorAt_gaps_inside {afterOperand : Bool} {written : OperatorMatch}
    (found : grammar.operatorAt? text place afterOperand = some written) :
    ∀ part ∈ written.parts.dropLast,
      grammar.comments.gapEnd text (part.1 + part.2.length) < text.size := by
  obtain ⟨operator, _, spans, foundSpans, parts⟩ := operatorAt_spans found
  rw [parts]
  generalize operator.nameParts = words at foundSpans
  cases words with
  | nil =>
      cases foundSpans
      exact nofun
  | cons word rest =>
      simp only [spans?, Option.ite_none_right_eq_some, Option.map_eq_some_iff] at foundSpans
      obtain ⟨written, later, foundLater, rfl⟩ := foundSpans
      obtain ⟨_, inside⟩ := isSymbolAt_inside written
      obtain ⟨next, others⟩ := (moreSpans_spelled foundLater).gaps_inside
      have length := length_slice_of_inside inside
      intro part member
      cases later with
      | nil => cases member
      | cons second later =>
          rcases List.mem_cons.mp member with rfl | isOther
          · simpa only [length] using next (List.cons_ne_nil _ _)
          · exact others part isOther

end Grammar

end ExprLang
