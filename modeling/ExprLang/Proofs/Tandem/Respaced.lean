import ExprLang.Proofs.Tandem.Clean
import ExprLang.Proofs.Tandem.Tracks

/-!
A text without faults and the same text with other blanks between its tokens. Blanks are in no word, so
both texts run together through tokens, and through the words of names that are only looked at. Only a
line comment can tell how a gap is written: it ends at the first line feed. So no comment that the
grammar may look at is to reach a gap that wins or loses its line feeds.
-/

namespace ExprLang

/-! Blanks -/

namespace Text

variable {text : Text} {place : Nat} {chars : List Char}

/-- From `a` to `b` the text is blank. -/
def Blank (text : Text) (a b : Nat) : Prop := ∀ i, a ≤ i → i < b → text.isBlankAt i = true

theorem isBlankAt_of_char {c : Char} (here : text[place]? = some c) :
    text.isBlankAt place = Unicode.isBlank c := by
  rw [isBlankAt, here, Option.any_some]

theorem exists_char_of_isBlankAt (blank : text.isBlankAt place = true) :
    ∃ c, text[place]? = some c ∧ Unicode.isBlank c = true := by
  cases here : text[place]? with
  | none => simp [isBlankAt, here] at blank
  | some c => exact ⟨c, rfl, by simpa [isBlankAt, here] using blank⟩

theorem blank_of_chars (same : ∀ k < chars.length, text[place + k]? = chars[k]?)
    (blank : ∀ c ∈ chars, Unicode.isBlank c = true) : text.Blank place (place + chars.length) := by
  intro i above below
  have here := same (i - place) (by omega)
  rw [Nat.add_sub_of_le above, List.getElem?_eq_getElem (by omega)] at here
  rw [isBlankAt_of_char here]
  exact blank _ (List.getElem_mem _)

theorem mem_chars_iff (same : ∀ k < chars.length, text[place + k]? = chars[k]?) (c : Char) :
    (∃ i, place ≤ i ∧ i < place + chars.length ∧ (text[i]? == some c) = true) ↔ c ∈ chars := by
  constructor
  · rintro ⟨i, above, below, here⟩
    have there := same (i - place) (by omega)
    rw [Nat.add_sub_of_le above, beq_iff_eq.mp here] at there
    exact List.mem_of_getElem? there.symm
  · intro member
    obtain ⟨k, found⟩ := List.getElem?_of_mem member
    have inside := (List.getElem?_eq_some_iff.mp found).1
    exact ⟨place + k, by omega, by omega, by rw [same k inside, found, beq_self_eq_true]⟩

end Text

namespace CommentMarkers

variable {markers : CommentMarkers} {text : Text} {place : Nat}

/-- No word without blanks is written at a blank. -/
theorem not_isWritten_of_isBlankAt (blank : text.isBlankAt place = true) {marker : String}
    (solid : Solid marker) : text.isWritten true place marker = false := by
  obtain ⟨c, here, isBlank⟩ := Text.exists_char_of_isBlankAt blank
  refine Text.not_isWritten_of_char here fun member => ?_
  exact Bool.false_ne_true ((solid c member).symm.trans isBlank)

theorem commentAt_of_isBlankAt (solid : ∀ marker ∈ markers.texts, Solid marker)
    (blank : text.isBlankAt place = true) : markers.commentAt? text place = none := by
  obtain ⟨c, here, isBlank⟩ := Text.exists_char_of_isBlankAt blank
  refine commentAt_of_char here fun marker listed member => ?_
  exact Bool.false_ne_true ((solid marker listed c member).symm.trans isBlank)

/-- Blanks before a gap add no comments to it. -/
theorem commentsFrom_of_blank (solid : ∀ marker ∈ markers.texts, Solid marker) {a b : Nat} (le : a ≤ b)
    (blank : text.Blank a b) : markers.commentsFrom text a = markers.commentsFrom text b := by
  induction distance : b - a generalizing a with
  | zero => rw [Nat.le_antisymm le (Nat.sub_eq_zero_iff_le.mp distance)]
  | succ distance ih =>
      have here := blank a (Nat.le_refl a) (by omega)
      rw [commentsFrom_blank (commentAt_of_isBlankAt solid here) here]
      exact ih (by omega) (fun i above => blank i (by omega)) (by omega)

end CommentMarkers

/-- Blanks between two tokens, and others in their place. -/
structure Forest.Spacing (forest : Forest) (place : Nat) (old new : List Char) : Prop where
  filled : old ≠ [] ∧ new ≠ []
  blank : ∀ c ∈ old ++ new, Unicode.isBlank c = true
  left : ∃ start, (start, place) ∈ forest.tokenSpans
  right : ∃ stop, (place + old.length, stop) ∈ forest.tokenSpans

namespace Grammar

/-- No line comment behind the beginning of an operator's name, written where a token starts, reaches
the place. -/
def Unreached (grammar : Grammar) (text : Text) (place : Nat) : Prop :=
  ∀ span ∈ (grammar.finalState text).forest.tokenSpans, ∀ stop, grammar.NameBegins text span.1 stop →
    ∀ comment ∈ grammar.comments.commentsFrom text stop, comment.kind = .line →
      place ≤ comment.start ∨ comment.stop < place

/-- Blanks between two tokens are replaced, and no comment that is looked at can tell. -/
structure Respaces (grammar : Grammar) (text : Text) (place : Nat) (old new : List Char) : Prop where
  spacing : (grammar.finalState text).forest.Spacing place old new
  lines : ('\n' ∈ old ↔ '\n' ∈ new) ∨ grammar.Unreached text place

end Grammar

namespace Tandem

variable {grammar : Grammar} {text other : Text} {row : List (Nat × Nat)} {move : Nat → Nat}
  {whole : Nat → Prop} {p q : Nat}

theorem blanks_of_blank {markers : CommentMarkers} (solid : ∀ marker ∈ markers.texts, Solid marker)
    {text : Text} {a b : Nat} (blank : text.Blank a b) : Blanks markers text a b := fun i above below =>
  ⟨CommentMarkers.commentAt_of_isBlankAt solid (blank i above below), blank i above below⟩

/-- At a place that is not inside a replaced gap begins a gap whose line comments cannot tell which
blanks were replaced. -/
def Calm (grammar : Grammar) (text : Text) (whole : Nat → Prop) (place : Nat) : Prop :=
  whole place ∧ ∀ comment ∈ grammar.comments.commentsFrom text place, comment.kind = .line →
    ∀ x old new, grammar.Respaces text x old new →
      ('\n' ∈ old ↔ '\n' ∈ new) ∨ x ≤ comment.start ∨ comment.stop < x

theorem Calm.later (calm : Calm grammar text whole p) (isWhole : whole q)
    (subset : grammar.comments.commentsFrom text q ⊆ grammar.comments.commentsFrom text p) :
    Calm grammar text whole q :=
  ⟨isWhole, fun comment member => calm.2 comment (subset member)⟩

/-- A pass is one character or blank in both texts. -/
theorem blank_of_passes {p' q' : Nat} (passes : Passes (grammar.Respaces text) text other p p' q q') :
    (q = p + 1 ∧ q' = p' + 1 ∧ ∃ c, text[p]? = some c ∧ other[p']? = some c) ∨
      p < q ∧ p' < q' ∧ text.Blank p q ∧ other.Blank p' q' := by
  cases passes with
  | char c here here' => exact Or.inl ⟨rfl, rfl, c, here, here'⟩
  | gap old new respaces here here' =>
      obtain ⟨⟨filled, filled'⟩, blank, _, _⟩ := respaces.spacing
      have long := List.length_pos_iff.mpr filled
      have long' := List.length_pos_iff.mpr filled'
      refine Or.inr ⟨by omega, by omega, Text.blank_of_chars here ?_, Text.blank_of_chars here' ?_⟩
      · exact fun c member => blank c (List.mem_append_left _ member)
      · exact fun c member => blank c (List.mem_append_right _ member)

section Course

variable (stock : grammar.Stock) (keywords : ∀ keyword ∈ grammar.keywords, Solid keyword.text)
  (tracks : Tracks (grammar.Respaces text) text other move whole 0)

include tracks

/-- From a whole place on the texts run together, or both are blank there. -/
theorem step_respaced (isWhole : whole p) :
    (moved grammar text other move).Together whole p 1 ∨
      (moved grammar text other move).Halts (fun c => Unicode.isBlank c = true) p := by
  obtain ⟨_, inside, _⟩ := tracks.inside p isWhole
  rcases Nat.lt_or_eq_of_le inside with less | rfl
  · obtain ⟨q, also, _, _, passes, _⟩ := tracks.next p isWhole less
    rcases blank_of_passes passes with ⟨rfl, there, c, here, here'⟩ | ⟨ahead, ahead', blank, blank'⟩
    · exact Or.inl (.cons isWhole here here' there (.zero also))
    · have here := blank p (Nat.le_refl p) ahead
      have there := blank' (move p) (Nat.le_refl _) ahead'
      exact Or.inr ⟨fun c found => (Text.isBlankAt_of_char found).symm.trans here,
        fun c found => (Text.isBlankAt_of_char found).symm.trans there⟩
  · refine Or.inr ⟨fun c found => ?_, fun c found => ?_⟩
    · exact absurd (Array.getElem?_eq_some_iff.mp found).1 (Nat.lt_irrefl _)
    · have found : other[move text.size]? = some c := found
      rw [tracks.last.2] at found
      exact absurd (Array.getElem?_eq_some_iff.mp found).1 (Nat.lt_irrefl _)

theorem isWritten_respaced {marker : String} (solid : Solid marker) (isWhole : whole p) :
    other.isWritten true (move p) marker = text.isWritten true p marker ∧
      (text.isWritten true p marker = true →
        (moved grammar text other move).Together whole p marker.length) := by
  refine @isWritten_alike (moved grammar text other move) whole _ p
    (fun p isWhole => step_respaced tracks isWhole) true marker isWhole fun e member =>
      ⟨fun _ => rfl, fun c blank => ?_⟩
  simp only [sameChar, Bool.not_true, Bool.false_and, Bool.or_false]
  rw [beq_eq_false_iff_ne]
  rintro rfl
  exact Bool.false_ne_true ((solid c member).symm.trans blank)

/-- No gap goes on inside a replaced one. -/
theorem whole_of_settled (inside : p ≤ text.size) (settled : grammar.comments.Settled text p) :
    whole p := by
  refine (tracks.around tracks.first (Nat.zero_le p) inside).resolve_right ?_
  rintro ⟨x, y, _, above, below, passes⟩
  rcases blank_of_passes passes with ⟨rfl, _, _⟩ | ⟨_, _, blank, _⟩
  · omega
  · exact Bool.false_ne_true (settled.2.symm.trans (blank p (Nat.le_of_lt above) below))

/-! Tokens -/

section Tiled

variable (tiled : grammar.Tiled text row)

include tiled

/-- No gap is replaced inside a token. -/
theorem token_together {length : Nat}
    (isToken : (p, p + length) ∈ (grammar.finalState text).forest.tokenSpans) :
    (moved grammar text other move).Together whole p length := by
  have bound := tiled.token_inside isToken
  have settled := tiled.settled_token isToken
  have here := whole_of_settled tracks (Nat.le_of_add_right_le bound) settled
  have goesOn : ∀ count k, k + count = length → whole (p + k) →
      (moved grammar text other move).Together whole (p + k) count := by
    intro count
    induction count with
    | zero => exact fun k _ isWhole => .zero isWhole
    | succ count ih =>
        intro k ends isWhole
        obtain ⟨q, also, _, _, passes, _⟩ := tracks.next (p + k) isWhole (by omega)
        generalize there : move q = q' at passes
        cases passes with
        | char c found found' =>
            exact .cons isWhole found found' there (ih (k + 1) (by omega) also)
        | gap old new respaces found _ =>
            obtain ⟨⟨filled, _⟩, blank, ⟨start, before⟩, _⟩ := respaces.spacing
            have filledToken := tiled.token_filled before
            rcases tiled.tokens_apart before isToken with ⟨rfl, _⟩ | stops | behind
            · omega
            · obtain rfl : k = 0 := by omega
              have isBlank := Text.blank_of_chars found
                (fun c member => blank c (List.mem_append_left _ member)) p (Nat.le_refl _)
                (Nat.lt_add_of_pos_right (List.length_pos_iff.mpr filled))
              exact absurd (settled.2.symm.trans isBlank) Bool.false_ne_true
            · omega
  exact goesOn length 0 (Nat.zero_add _) here

theorem whole_of_rests (rests : grammar.Rests text p) : whole p := by
  have begins : ∀ {gap}, grammar.GapAt text gap → whole gap := by
    rintro gap (rfl | ⟨start, isToken⟩)
    · exact tracks.first
    · obtain ⟨length, rfl⟩ := Nat.exists_eq_add_of_le (Nat.le_of_lt (tiled.token_filled isToken))
      exact (token_together tracks tiled isToken).along _ (Nat.le_refl _)
  obtain ⟨gap, isGap, rfl | rfl⟩ := rests
  · exact begins isGap
  · obtain ⟨_, inside, _⟩ := tracks.inside gap (begins isGap)
    exact whole_of_settled tracks (CommentMarkers.gapEnd_le inside) CommentMarkers.settled_gapEnd

/-- The comments behind tokens stand between tokens, so they do not reach into a replaced gap. -/
theorem calm_of_rests (rests : grammar.Rests text p) : Calm grammar text whole p := by
  refine ⟨whole_of_rests tracks tiled rests, fun comment member _ x old new respaces => ?_⟩
  obtain ⟨start, isToken⟩ := respaces.spacing.left
  have filled := tiled.token_filled isToken
  have between := (tiled.comment_between rests member).2
  rcases CommentMarkers.commentsBetween_apart tiled.spaced between (tiled.mem_row.mpr isToken) with
    before | behind
  · exact Or.inr (Or.inr (Nat.lt_of_le_of_lt before filled))
  · exact Or.inr (Or.inl behind)

end Tiled

/-! Comments -/

/-- The next place where a word without blanks is written is found in both texts. -/
theorem next_respaced {word : String} (solid : Solid word) (isWhole : whole p) :
    whole (text.next word p) ∧ other.next word (move p) = move (text.next word p) := by
  obtain ⟨_, inside, _⟩ := tracks.inside p isWhole
  have found := tracks.seek_alike (f := fun i => text.isWritten true i word)
    (g := fun i => other.isWritten true i word) isWhole fun x y isX _ _ passes => by
      rcases blank_of_passes passes with ⟨rfl, there, _⟩ | ⟨_, _, blank, blank'⟩
      · have same := (isWritten_respaced tracks solid isX).1
        constructor
        · rintro ⟨i, above, below, written⟩
          obtain rfl : i = x := by omega
          exact ⟨move i, Nat.le_refl _, by omega, same.trans written⟩
        · rintro ⟨i, above, below, written⟩
          obtain rfl : i = move x := by omega
          exact ⟨x, Nat.le_refl _, Nat.lt_succ_self _, same.symm.trans written⟩
      · constructor
        · rintro ⟨i, above, below, written⟩
          rw [CommentMarkers.not_isWritten_of_isBlankAt (blank i above below) solid] at written
          cases written
        · rintro ⟨i, above, below, written⟩
          rw [CommentMarkers.not_isWritten_of_isBlankAt (blank' i above below) solid] at written
          cases written
  change (text.next word p = text.size ∧ other.next word (move p) = other.size) ∨ ∃ x y, whole x ∧
    whole y ∧ p ≤ x ∧ Passes (grammar.Respaces text) text other x (move x) y (move y) ∧
      (x ≤ text.next word p ∧ text.next word p < y) ∧
      (move x ≤ other.next word (move p) ∧ other.next word (move p) < move y) at found
  rcases found with ⟨atEnd, atEnd'⟩ | ⟨x, y, isX, isY, _, passes, ⟨above, below⟩, above', below'⟩
  · rw [atEnd, atEnd']
    exact ⟨tracks.last.1, tracks.last.2.symm⟩
  · rcases blank_of_passes passes with ⟨rfl, there, _⟩ | ⟨_, _, blank, _⟩
    · rw [there] at below'
      rw [Nat.le_antisymm (Nat.le_of_lt_succ below) above]
      exact ⟨isX, Nat.le_antisymm (Nat.le_of_lt_succ below') above'⟩
    · obtain ⟨_, insideY, _⟩ := tracks.inside y isY
      have written : text.isWritten true (text.next word p) word = true := Text.seek_found
        (f := fun i => text.isWritten true i word) (show text.next word p < p + (text.size - p) by omega)
      rw [CommentMarkers.not_isWritten_of_isBlankAt (blank _ above below) solid] at written
      cases written

/-- The next line feeds are at corresponding places, or in a gap and its replacement. -/
theorem lineFeed_respaced (isWhole : whole p)
    (lines : ∀ x old new, p ≤ x → x ≤ text.lineFeed p → grammar.Respaces text x old new →
      ('\n' ∈ old ↔ '\n' ∈ new)) :
    ∃ q, whole q ∧ text.lineFeed p ≤ q ∧ other.lineFeed (move p) ≤ move q ∧
      text.Blank (text.lineFeed p) q ∧ other.Blank (other.lineFeed (move p)) (move q) := by
  have found := tracks.seek_alike (f := fun i => text[i]? == some '\n')
    (g := fun i => other[i]? == some '\n') isWhole fun x y isX above below passes => by
      generalize move y = y' at passes
      cases passes with
      | char c here here' =>
          have single : ∀ {text : Text} {x : Nat}, text[x]? = some c →
              ((∃ i, x ≤ i ∧ i < x + 1 ∧ (text[i]? == some '\n') = true) ↔ c = '\n') := by
            intro text x here
            constructor
            · rintro ⟨i, above, below, found⟩
              obtain rfl : i = x := by omega
              rw [here, beq_iff_eq] at found
              exact Option.some.inj found
            · rintro rfl
              exact ⟨x, Nat.le_refl _, Nat.lt_succ_self _, by rw [here, beq_self_eq_true]⟩
          rw [single here, single here']
      | gap old new respaces here here' =>
          rw [Text.mem_chars_iff here, Text.mem_chars_iff here']
          exact lines x old new above below respaces
  change (text.lineFeed p = text.size ∧ other.lineFeed (move p) = other.size) ∨ ∃ x y, whole x ∧
    whole y ∧ p ≤ x ∧ Passes (grammar.Respaces text) text other x (move x) y (move y) ∧
      (x ≤ text.lineFeed p ∧ text.lineFeed p < y) ∧
      (move x ≤ other.lineFeed (move p) ∧ other.lineFeed (move p) < move y) at found
  have none : ∀ {text : Text} {a b : Nat}, b ≤ a → text.Blank a b :=
    fun le i above below => absurd (Nat.le_trans le above) (Nat.not_le_of_lt below)
  rcases found with ⟨atEnd, atEnd'⟩ | ⟨x, y, isX, isY, _, passes, ⟨above, below⟩, above', below'⟩
  · rw [atEnd, atEnd', ← tracks.last.2]
    exact ⟨text.size, tracks.last.1, Nat.le_refl _, Nat.le_refl _, none (Nat.le_refl _),
      none (Nat.le_refl _)⟩
  · rcases blank_of_passes passes with ⟨rfl, there, _⟩ | ⟨_, _, blank, blank'⟩
    · rw [there] at below'
      exact ⟨x, isX, Nat.le_of_lt_succ below, Nat.le_of_lt_succ below', none above, none above'⟩
    · refine ⟨y, isY, Nat.le_of_lt below, Nat.le_of_lt below', ?_, ?_⟩
      · exact fun i behind => blank i (Nat.le_trans above behind)
      · exact fun i behind => blank' i (Nat.le_trans above' behind)

/-- What follows a place where both texts have a comment. -/
def CommentsMeet (text other : Text) (move : Nat → Nat) (whole : Nat → Prop) (comment image : Comment) :
    Prop :=
  image.closed = comment.closed ∧ ∃ q, whole q ∧ comment.stop ≤ q ∧ image.stop ≤ move q ∧
    text.Blank comment.stop q ∧ other.Blank image.stop (move q)

include stock

theorem line_respaced (calm : Calm grammar text whole p) :
    grammar.comments.lineAt? text p = none ∧ grammar.comments.lineAt? other (move p) = none ∨
      ∃ comment image, grammar.comments.lineAt? text p = some comment ∧
        grammar.comments.lineAt? other (move p) = some image ∧
        CommentsMeet text other move whole comment image := by
  cases given : grammar.comments.line with
  | none => exact Or.inl ⟨by rw [CommentMarkers.lineAt?, given], by rw [CommentMarkers.lineAt?, given]⟩
  | some marker =>
      have solid := stock.comments marker (by simp [CommentMarkers.texts, given])
      obtain ⟨same, together⟩ := isWritten_respaced tracks solid calm.1
      have lineAt := CommentMarkers.lineAt_eq given
      rw [lineAt, lineAt, same]
      cases written : text.isWritten true p marker with
      | false => exact Or.inl ⟨rfl, rfl⟩
      | true =>
          have together := together written
          have moved : move (p + marker.length) = move p + marker.length :=
            together.move marker.length (Nat.le_refl _)
          have filled := (Text.isWritten_inside written).1
          have behind : p + marker.length ≤ text.lineFeed (p + marker.length) := Text.le_seek _ _ _
          have behind' : move p + marker.length ≤ other.lineFeed (move p + marker.length) :=
            Text.le_seek _ _ _
          refine Or.inr ⟨_, _, rfl, rfl, rfl, ?_⟩
          simp only [Comment.stop, Nat.add_sub_of_le (Nat.le_of_add_right_le behind),
            Nat.add_sub_of_le (Nat.le_of_add_right_le behind')]
          rw [← moved]
          refine lineFeed_respaced tracks (together.along marker.length (Nat.le_refl _)) ?_
          intro x old new above below respaces
          have found : grammar.comments.commentAt? text p =
              some ⟨p, text.lineFeed (p + marker.length) - p, .line, true⟩ := by
            rw [CommentMarkers.commentAt?, lineAt, if_pos written, Option.some_or]
          have member := CommentMarkers.commentsFrom_comment found ▸ List.mem_cons_self
          refine (calm.2 _ member rfl x old new respaces).resolve_right ?_
          simp only [Comment.stop]
          omega

theorem multiline_respaced (isWhole : whole p) :
    grammar.comments.multilineAt? text p = none ∧ grammar.comments.multilineAt? other (move p) = none ∨
      ∃ comment image, grammar.comments.multilineAt? text p = some comment ∧
        grammar.comments.multilineAt? other (move p) = some image ∧
        CommentsMeet text other move whole comment image := by
  cases given : grammar.comments.multiline with
  | none =>
      exact Or.inl ⟨by rw [CommentMarkers.multilineAt?, given],
        by rw [CommentMarkers.multilineAt?, given]⟩
  | some pair =>
      obtain ⟨opening, closing⟩ := pair
      have solid := stock.comments opening (by simp [CommentMarkers.texts, given])
      have solidEnd := stock.comments closing (by simp [CommentMarkers.texts, given])
      obtain ⟨same, together⟩ := isWritten_respaced tracks solid isWhole
      have multilineAt := CommentMarkers.multilineAt_eq given
      rw [multilineAt, multilineAt, same]
      cases written : text.isWritten true p opening with
      | false => exact Or.inl ⟨rfl, rfl⟩
      | true =>
          have together := together written
          have moved : move (p + opening.length) = move p + opening.length :=
            together.move opening.length (Nat.le_refl _)
          -- The end is looked for behind the opening sign; it is found at places that belong together.
          obtain ⟨isFound, nexts⟩ :=
            next_respaced tracks solidEnd (together.along opening.length (Nat.le_refl _))
          have behind : p + opening.length ≤ text.next closing (p + opening.length) := Text.le_seek _ _ _
          have behind' : move p + opening.length ≤ other.next closing (move p + opening.length) :=
            Text.le_seek _ _ _
          have closes : text.next closing (p + opening.length) <
                p + opening.length + (text.size - (p + opening.length)) →
              text.isWritten true (text.next closing (p + opening.length)) closing = true :=
            Text.seek_found
          rw [moved] at nexts
          rw [nexts] at behind' ⊢
          generalize text.next closing (p + opening.length) = found at *
          have met : ∀ {comment image : Comment} {q : Nat}, whole q → comment.stop = q →
              image.stop = move q → image.closed = comment.closed →
              CommentsMeet text other move whole comment image := by
            rintro comment image _ isWhole rfl there closed
            refine ⟨closed, comment.stop, isWhole, Nat.le_refl _, Nat.le_of_eq there, ?_, ?_⟩
            · exact fun i above below => absurd above (Nat.not_le_of_lt below)
            · exact fun i above below => absurd (there ▸ above) (Nat.not_le_of_lt below)
          obtain ⟨_, inside, _⟩ := tracks.inside found isFound
          -- The closing sign is in both texts.
          rcases Nat.lt_or_eq_of_le inside with less | rfl
          · have less' : move found < other.size :=
              tracks.last.2 ▸ tracks.ascends isFound tracks.last.1 less
            have together := (isWritten_respaced tracks solidEnd isFound).2 (closes (by omega))
            have moved : move (found + closing.length) = move found + closing.length :=
              together.move closing.length (Nat.le_refl _)
            rw [if_pos less, if_pos less']
            refine Or.inr ⟨_, _, rfl, rfl, met (together.along closing.length (Nat.le_refl _)) ?_ ?_ rfl⟩
            · simp only [Comment.stop]
              omega
            · simp only [Comment.stop]
              omega
          -- The comment has no end in either of them.
          · have last : move text.size = other.size := tracks.last.2
            rw [if_neg (Nat.lt_irrefl _), last, if_neg (Nat.lt_irrefl _)]
            refine Or.inr ⟨_, _, rfl, rfl, met isFound ?_ ?_ rfl⟩
            · simp only [Comment.stop]
              omega
            · simp only [Comment.stop]
              omega

theorem comment_respaced (calm : Calm grammar text whole p) :
    (moved grammar text other move).CommentAlike (Calm grammar text whole) p := by
  have meets : ∀ comment image, grammar.comments.commentAt? text p = some comment →
      grammar.comments.commentAt? other (move p) = some image →
      CommentsMeet text other move whole comment image →
      (moved grammar text other move).CommentAlike (Calm grammar text whole) p := by
    rintro comment image found found' ⟨closed, q, isWhole, le, le', blank, blank'⟩
    refine Or.inr ⟨comment, image, q, found, found', ⟨le, le', calm.later isWhole ?_,
      blanks_of_blank stock.comments blank, blanks_of_blank stock.comments blank'⟩, closed⟩
    rw [CommentMarkers.commentsFrom_comment found,
      ← CommentMarkers.commentsFrom_of_blank stock.comments le blank]
    exact List.subset_cons_self _ _
  rcases line_respaced stock tracks calm with ⟨none, none'⟩ | ⟨comment, image, found, found', meet⟩
  · rcases multiline_respaced stock tracks calm.1 with
      ⟨missing, missing'⟩ | ⟨comment, image, found, found', meet⟩
    · refine Or.inl ⟨?_, ?_⟩
      · exact Option.or_eq_none_iff.mpr ⟨none, missing⟩
      · exact Option.or_eq_none_iff.mpr ⟨none', missing'⟩
    · refine meets comment image ?_ ?_ meet
      · rw [CommentMarkers.commentAt?, none, Option.none_or, found]
      · rw [CommentMarkers.commentAt?, none', Option.none_or, found']
  · refine meets comment image ?_ ?_ meet
    · rw [CommentMarkers.commentAt?, found, Option.some_or]
    · rw [CommentMarkers.commentAt?, found', Option.some_or]

/-- Blanks that begin a gap begin it in both texts. -/
theorem blanks_respaced (calm : Calm grammar text whole p)
    (none : grammar.comments.commentAt? text p = none) :
    text.isBlankAt p = false ∧ other.isBlankAt (move p) = false ∨
      ∃ q, p < q ∧ (moved grammar text other move).Rejoin (Calm grammar text whole) p (move p) q := by
  obtain ⟨_, inside, _⟩ := tracks.inside p calm.1
  rcases Nat.lt_or_eq_of_le inside with less | rfl
  · obtain ⟨q, isWhole, ahead, ahead', passes, _⟩ := tracks.next p calm.1 less
    have joins : text.Blank p q → other.Blank (move p) (move q) →
        (moved grammar text other move).Rejoin (Calm grammar text whole) p (move p) q := by
      intro blank blank'
      refine ⟨Nat.le_of_lt ahead, Nat.le_of_lt ahead', calm.later isWhole ?_,
        blanks_of_blank stock.comments blank, blanks_of_blank stock.comments blank'⟩
      rw [← CommentMarkers.commentsFrom_of_blank stock.comments (Nat.le_of_lt ahead) blank]
      exact List.Subset.refl _
    rcases blank_of_passes passes with ⟨rfl, there, c, here, here'⟩ | ⟨_, _, blank, blank'⟩
    · rw [Text.isBlankAt_of_char here, Text.isBlankAt_of_char here']
      cases isBlank : Unicode.isBlank c with
      | false => exact Or.inl ⟨rfl, rfl⟩
      | true =>
          refine Or.inr ⟨p + 1, ahead, joins ?_ ?_⟩
          · intro i above below
            obtain rfl : i = p := by omega
            exact (Text.isBlankAt_of_char here).trans isBlank
          · intro i above below
            obtain rfl : i = move p := by omega
            exact (Text.isBlankAt_of_char here').trans isBlank
    · exact Or.inr ⟨q, ahead, joins blank blank'⟩
  · have outside := @CommentMarkers.settled_of_size_le grammar.comments text _ (Nat.le_refl _)
    have outside' := @CommentMarkers.settled_of_size_le grammar.comments other _
      (Nat.le_of_eq tracks.last.2.symm)
    exact Or.inl ⟨outside.2, outside'.2⟩

/-! Words -/

include keywords

omit tracks in
theorem fair_respaced : (moved grammar text other move).Fair (fun c => Unicode.isBlank c = true) :=
  fair stock (Grammar.refolds_id grammar) fun _ => stock.parts_of_isBlank keywords

/-- The words of a name are written in both texts. -/
theorem whole_of_nameBegins (isWhole : whole p) (begins : grammar.NameBegins text p q) : whole q := by
  obtain ⟨operator, inTable, words, more, spans, name, filled, _, found, rfl⟩ := begins
  obtain ⟨part, member, start, place, written, ends⟩ := Grammar.spans_last filled found
  have listed : part ∈ grammar.symbols := by
    simp only [Grammar.symbols, List.mem_append]
    have inName : part ∈ operator.nameParts := name ▸ List.mem_append_left _ member
    exact Or.inl (Or.inr (List.mem_flatMap.mpr ⟨operator, inTable, inName⟩))
  have bound := (Grammar.isSymbolAt_inside written).2
  have starts : whole start := by
    rcases place with rfl | settled
    · exact isWhole
    · exact whole_of_settled tracks (Nat.le_of_add_right_le bound) settled
  have together := (isWritten_alike (fun p isWhole => step_respaced tracks isWhole) starts
    ((fair_respaced stock keywords).symbol part listed)).2 (Bool.and_eq_true_iff.mp written).1
  rw [ends]
  exact together.along part.length (Nat.le_refl _)

theorem course_respaced (tiled : grammar.Tiled text row) :
    (moved grammar text other move).Course whole (Calm grammar text whole)
      (fun c => Unicode.isBlank c = true) := by
  refine { fair_respaced stock keywords with
    front_iff := fun _ => Iff.rfl
    gap := fun _ rests => Grammar.Tiled.rests_gapEnd rests
    calm_of_rest := fun _ rests => calm_of_rests tracks tiled rests
    onward := fun _ calm => calm.1
    inside := fun p calm => (tracks.inside p calm.1).2
    ascends := fun _ _ calm calm' less => tracks.ascends calm.1 calm'.1 less
    distance := False.elim
    expects := False.elim
    step := fun _ isWhole => step_respaced tracks isWhole
    comment := fun _ calm => comment_respaced stock tracks calm
    blanks := fun _ calm none => blanks_respaced stock tracks calm none
    reach := fun p length isToken _ _ =>
      ⟨token_together tracks tiled isToken, Grammar.Tiled.rests_stop isToken⟩
    breaks := fun p q front begins => ?_
    lands := fun p length isToken _ settled => ⟨tiled.rests_start isToken, settled⟩
    char := fun p front => Or.inl ?_
    quoted := fun p quote front here _ isBlank => ?_
    decoded := fun _ _ same => same fun _ => rfl }
  · have isWhole := whole_of_rests tracks tiled front.1
    refine ⟨whole_of_nameBegins stock keywords tracks isWhole begins, ?_⟩
    intro comment member isLine x old new respaces
    obtain ⟨further, bound⟩ := begins.inside front.2
    rcases tiled.token_of_settled front.1 front.2 with ⟨stop, isToken⟩ | atEnd
    · exact respaces.lines.imp id fun unreached => unreached _ isToken q begins comment member isLine
    · exact absurd (atEnd ▸ further) (Nat.not_lt_of_le bound)
  · have isWhole := whole_of_rests tracks tiled front.1
    obtain ⟨_, inside, _⟩ := tracks.inside p isWhole
    rcases Nat.lt_or_eq_of_le inside with less | rfl
    · obtain ⟨q, _, _, _, passes, _⟩ := tracks.next p isWhole less
      rcases blank_of_passes passes with ⟨_, _, c, here, there⟩ | ⟨ahead, _, blank, _⟩
      · exact there.trans (congrArg (Option.map id) here).symm
      · exact absurd (front.2.2.symm.trans (blank p (Nat.le_refl p) ahead)) Bool.false_ne_true
    · have last : move text.size = other.size := tracks.last.2
      change other[move text.size]? = text[text.size]?.map id
      rw [last, Array.getElem?_size, Array.getElem?_size, Option.map_none]
  · have isBlank := (Text.isBlankAt_of_char here).trans isBlank
    exact Bool.false_ne_true (front.2.2.symm.trans isBlank)

end Course

end Tandem

end ExprLang
