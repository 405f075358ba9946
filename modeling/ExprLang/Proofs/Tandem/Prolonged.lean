import ExprLang.Proofs.Tandem.Clean

/-!
A text without faults with more text behind it, from a separator on. No word of the grammar goes on
with the separator, so up to the end of the text both parses find the same words. A comment is the only
thing that may run over the end: a line comment does when no line feed comes, and one with an end
marker when that is missing. So no comment that the grammar may look at is to run to the end.
-/

namespace ExprLang

/-- The comment ends where it does, whatever follows the text. -/
structure Comment.Final (comment : Comment) (text : Text) : Prop where
  closed : comment.closed = true
  line : comment.kind = .line → comment.stop < text.size

/-- The other text begins like the text, and goes on with a separator. -/
structure Prolongs (text other : Text) (separator : Char) : Prop where
  char : ∀ p < text.size, other[p]? = text[p]?
  next : other[text.size]? = some separator

namespace Grammar

/-- No comment behind the beginning of an operator's name, written where a token starts, runs to the
end of the text. -/
def LooksBefore (grammar : Grammar) (text : Text) : Prop :=
  ∀ span ∈ (grammar.finalState text).forest.tokenSpans, ∀ stop, grammar.NameBegins text span.1 stop →
    ∀ comment ∈ grammar.comments.commentsFrom text stop, comment.Final text

/-- A separator that is in no word, name, number or comment marker. -/
structure Separates (grammar : Grammar) (c : Char) : Prop extends grammar.Parts c where
  separator : grammar.separator = some c
  unmarked : ∀ marker ∈ grammar.comments.texts, c ∉ marker.toList

end Grammar

/-- A search that ends inside the text ends there in the longer text, too. -/
theorem Text.seek_prolonged {f g : Nat → Bool} {size more place : Nat} (same : ∀ i < size, g i = f i)
    (le : size ≤ more) (ends : seek f (size - place) place < size) :
    seek g (more - place) place = seek f (size - place) place := by
  induction remaining : size - place generalizing place with
  | zero =>
      rw [remaining] at ends
      have outside : place < size := ends
      omega
  | succ left ih =>
      obtain ⟨further, enough⟩ : ∃ further, more - place = further + 1 := ⟨more - place - 1, by omega⟩
      rw [remaining, seek] at ends
      rw [enough, seek, seek, same place (by omega)]
      split
      · rfl
      · rename_i missed
        rw [if_neg missed] at ends
        obtain rfl : further = more - (place + 1) := by omega
        obtain rfl : left = size - (place + 1) := by omega
        exact ih ends rfl

namespace Tandem

variable {grammar : Grammar} {text other : Text} {row : List (Nat × Nat)} {c : Char} {p : Nat}

/-- No comment of a gap that begins here runs to the end. -/
def Bounded (grammar : Grammar) (text : Text) (place : Nat) : Prop :=
  place ≤ text.size ∧ ∀ comment ∈ grammar.comments.commentsFrom text place, comment.Final text

section Course

variable (stock : grammar.Stock) (separates : grammar.Separates c) (prolongs : Prolongs text other c)

include prolongs

theorem size_lt_prolonged : text.size < other.size := (Array.getElem?_eq_some_iff.mp prolongs.next).1

theorem step_prolonged (inside : p ≤ text.size) :
    (moved grammar text other id).Together (· ≤ text.size) p 1 ∨
      (moved grammar text other id).Halts (· = c) p := by
  rcases Nat.lt_or_eq_of_le inside with less | rfl
  · have here : text[p]? = some text[p] := Array.getElem?_eq_getElem less
    exact Or.inl (.cons inside here ((prolongs.char p less).trans here) rfl (.zero less))
  · refine Or.inr ⟨fun d found => ?_, fun d found => ?_⟩
    · exact absurd (Array.getElem?_eq_some_iff.mp found).1 (Nat.lt_irrefl _)
    · exact Option.some.inj (found.symm.trans prolongs.next)

include separates

/-- A comment marker is written in both texts or in none. -/
theorem isWritten_prolonged {marker : String} (listed : marker ∈ grammar.comments.texts)
    (inside : p ≤ text.size) :
    other.isWritten true p marker = text.isWritten true p marker := by
  refine (@isWritten_alike (moved grammar text other id) (· ≤ text.size) (· = c) p
    (fun p inside => step_prolonged prolongs inside) true marker inside fun e member =>
      ⟨fun _ => rfl, ?_⟩).1
  rintro _ rfl
  simp only [sameChar, Bool.not_true, Bool.false_and, Bool.or_false]
  rw [beq_eq_false_iff_ne]
  rintro rfl
  exact separates.unmarked marker listed member

theorem lineAt_prolonged (bounded : Bounded grammar text p) :
    grammar.comments.lineAt? other p = grammar.comments.lineAt? text p := by
  cases given : grammar.comments.line with
  | none => rw [CommentMarkers.lineAt?, CommentMarkers.lineAt?, given]
  | some marker =>
      have listed : marker ∈ grammar.comments.texts := by simp [CommentMarkers.texts, given]
      have lineAt := CommentMarkers.lineAt_eq given
      rw [lineAt, lineAt, isWritten_prolonged separates prolongs listed bounded.1]
      split
      · rename_i written
        have found : grammar.comments.commentAt? text p =
            some ⟨p, text.lineFeed (p + marker.length) - p, .line, true⟩ := by
          rw [CommentMarkers.commentAt?, lineAt, if_pos written, Option.some_or]
        have member := CommentMarkers.commentsFrom_comment found ▸ List.mem_cons_self
        have ends := (bounded.2 _ member).line rfl
        have behind : p + marker.length ≤ text.lineFeed (p + marker.length) := Text.le_seek _ _ _
        have same : other.lineFeed (p + marker.length) = text.lineFeed (p + marker.length) := by
          refine Text.seek_prolonged (fun i less => ?_) (Nat.le_of_lt (size_lt_prolonged prolongs)) ?_
          · exact congrArg (· == some '\n') (prolongs.char i less)
          · simp only [Comment.stop] at ends
            change text.lineFeed (p + marker.length) < text.size
            omega
        rw [same]
      · rfl

theorem multilineAt_prolonged (bounded : Bounded grammar text p)
    (noLine : grammar.comments.lineAt? text p = none) :
    grammar.comments.multilineAt? other p = grammar.comments.multilineAt? text p := by
  cases given : grammar.comments.multiline with
  | none => rw [CommentMarkers.multilineAt?, CommentMarkers.multilineAt?, given]
  | some pair =>
      obtain ⟨opening, closing⟩ := pair
      have listed : opening ∈ grammar.comments.texts := by simp [CommentMarkers.texts, given]
      have listedEnd : closing ∈ grammar.comments.texts := by simp [CommentMarkers.texts, given]
      have multilineAt := CommentMarkers.multilineAt_eq given
      rw [multilineAt, multilineAt, isWritten_prolonged separates prolongs listed bounded.1]
      split
      · rename_i written
        have larger := size_lt_prolonged prolongs
        by_cases closes : text.next closing (p + opening.length) < text.size
        · have same : other.next closing (p + opening.length) = text.next closing (p + opening.length) :=
            Text.seek_prolonged
              (fun i less => isWritten_prolonged separates prolongs listedEnd (Nat.le_of_lt less))
              (Nat.le_of_lt larger) closes
          rw [same, if_pos closes, if_pos (Nat.lt_trans closes larger)]
        · have found : grammar.comments.commentAt? text p =
              some ⟨p, text.size - p, .multiline, false⟩ := by
            rw [CommentMarkers.commentAt?, noLine, Option.none_or, multilineAt, if_pos written,
              if_neg closes]
          have member := CommentMarkers.commentsFrom_comment found ▸ List.mem_cons_self
          exact absurd (bounded.2 _ member).closed Bool.false_ne_true
      · rfl

theorem commentAt_prolonged (bounded : Bounded grammar text p) :
    grammar.comments.commentAt? other p = grammar.comments.commentAt? text p := by
  rw [CommentMarkers.commentAt?, CommentMarkers.commentAt?, lineAt_prolonged separates prolongs bounded]
  cases noLine : grammar.comments.lineAt? text p with
  | some comment => rfl
  | none => rw [multilineAt_prolonged separates prolongs bounded noLine]

theorem comment_prolonged (bounded : Bounded grammar text p) :
    (moved grammar text other id).CommentAlike (Bounded grammar text) p := by
  have same := commentAt_prolonged separates prolongs bounded
  cases found : grammar.comments.commentAt? text p with
  | none => exact Or.inl ⟨found, same.trans found⟩
  | some comment =>
      refine Or.inr ⟨comment, comment, comment.stop, found, same.trans found,
        ⟨Nat.le_refl _, Nat.le_refl _, ⟨(CommentMarkers.commentAt_inside found).2, ?_⟩, ?_, ?_⟩, rfl⟩
      · intro later member
        exact bounded.2 later (CommentMarkers.commentsFrom_comment found ▸ List.mem_cons_of_mem _ member)
      · exact fun i above below => absurd above (Nat.not_le_of_lt below)
      · exact fun i above below => absurd above (Nat.not_le_of_lt below)

include stock

theorem blanks_prolonged (bounded : Bounded grammar text p)
    (none : grammar.comments.commentAt? text p = none) :
    text.isBlankAt p = false ∧ other.isBlankAt p = false ∨
      ∃ q, p < q ∧ (moved grammar text other id).Rejoin (Bounded grammar text) p p q := by
  rcases Nat.lt_or_eq_of_le bounded.1 with less | rfl
  · have same : other.isBlankAt p = text.isBlankAt p := by
      rw [Text.isBlankAt, Text.isBlankAt, prolongs.char p less]
    rw [same]
    cases blank : text.isBlankAt p with
    | false => exact Or.inl ⟨rfl, rfl⟩
    | true =>
        have only : ∀ i, p ≤ i → i < p + 1 → i = p := fun i above below => by omega
        refine Or.inr ⟨p + 1, Nat.lt_succ_self p, Nat.le_succ p, Nat.le_succ p, ⟨less, ?_⟩, ?_, ?_⟩
        · rw [← CommentMarkers.commentsFrom_blank none blank]
          exact bounded.2
        · intro i above below
          rw [only i above below]
          exact ⟨none, blank⟩
        · intro i above below
          rw [only i above below]
          exact ⟨(commentAt_prolonged separates prolongs bounded).trans none, same.trans blank⟩
  · refine Or.inl ⟨(@CommentMarkers.settled_of_size_le grammar.comments _ _ (Nat.le_refl _)).2, ?_⟩
    rw [Text.isBlankAt, prolongs.next, Option.any_some]
    exact (stock.separator c separates.separator).2.2

variable (tiled : grammar.Tiled text row)
  (ended : ∀ comment ∈ (grammar.finalState text).cursor.comments, comment.kind = .line →
    comment.stop < text.size)
  (looks : grammar.LooksBefore text)

include tiled ended

omit separates prolongs stock in
theorem bounded_of_rests (rests : grammar.Rests text p) : Bounded grammar text p := by
  refine ⟨?_, fun comment member => ⟨tiled.comment_closed rests member, fun isLine => ?_⟩⟩
  · have begins : ∀ {gap}, grammar.GapAt text gap → gap ≤ text.size := by
      rintro gap (rfl | ⟨start, isToken⟩)
      · exact Nat.zero_le _
      · exact tiled.token_inside isToken
    obtain ⟨gap, isGap, rfl | rfl⟩ := rests
    · exact begins isGap
    · exact CommentMarkers.gapEnd_le (begins isGap)
  · exact (tiled.line_inside rests member).elim (ended comment · isLine) id

include looks

/-- Up to the end of the text both run together. -/
theorem course_prolonged : (moved grammar text other id).Course (· ≤ text.size) (Bounded grammar text)
    (· = c) := by
  have fair : (moved grammar text other id).Fair (· = c) :=
    fair stock (Grammar.refolds_id grammar) (by
      rintro _ rfl
      exact separates.toParts)
  have inside : ∀ {place}, grammar.Rests text place → place ≤ text.size :=
    fun rests => (bounded_of_rests tiled ended rests).1
  refine { fair with
    front_iff := fun _ => Iff.rfl
    gap := fun _ rests => Grammar.Tiled.rests_gapEnd rests
    calm_of_rest := fun _ rests => bounded_of_rests tiled ended rests
    onward := fun _ bounded => bounded.1
    inside := fun _ bounded =>
      ⟨bounded.1, Nat.le_trans bounded.1 (Nat.le_of_lt (size_lt_prolonged prolongs))⟩
    ascends := fun _ _ _ _ less => less
    distance := False.elim
    expects := False.elim
    step := fun _ inside => step_prolonged prolongs inside
    comment := fun _ bounded => comment_prolonged separates prolongs bounded
    blanks := fun _ bounded none => blanks_prolonged stock separates prolongs bounded none
    reach := fun p length isToken _ bound => ⟨?_, Grammar.Tiled.rests_stop isToken⟩
    breaks := fun p q front begins => ?_
    lands := fun p length isToken _ settled => ⟨tiled.rests_start isToken, settled⟩
    char := fun p front => ?_
    quoted := fun p quote _ _ isQuote same => ?_
    decoded := fun _ _ same => same fun _ => rfl }
  · have bound : p + length ≤ text.size := bound
    refine ⟨fun k within => show p + k ≤ text.size by omega, fun _ _ => rfl, fun k less => ?_⟩
    have here : p + k < text.size := by omega
    exact ⟨text[p + k], Array.getElem?_eq_getElem here,
      (prolongs.char _ here).trans (Array.getElem?_eq_getElem here)⟩
  · obtain ⟨further, bound⟩ := begins.inside front.2
    rcases tiled.token_of_settled front.1 front.2 with ⟨stop, isToken⟩ | atEnd
    · exact ⟨bound, looks _ isToken q begins⟩
    · exact absurd (atEnd ▸ further) (Nat.not_lt_of_le bound)
  · rcases Nat.lt_or_eq_of_le (inside front.1) with less | rfl
    · refine Or.inl ((prolongs.char p less).trans ?_)
      exact (congrFun Option.map_id _).symm
    · exact Or.inr ⟨id, Array.getElem?_size, c, prolongs.next, separates.separator.symm⟩
  · exact stock.quotes quote isQuote (same ▸ separates.separator.symm)

end Course

end Tandem

end ExprLang
