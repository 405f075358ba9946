import ExprLang.Proofs.Comments

/-!
Skipping a gap and looking for its end are two loops over the same text. Both go through the same blanks
and whole comments, so they come to the same place; each piece takes a character, so neither loop is cut
short by its bound. What a comment is, and what a gap is, is told here by the characters that stand in the
text, and the markers may be prefixes of one another.
-/

namespace ExprLang

namespace Text

variable {found : Nat → Bool} {steps place : Nat}

/-- Before the place where a search ends there was nothing to find. -/
theorem seek_missed {i : Nat} (behind : place ≤ i) (before : i < seek found steps place) :
    found i = false := by
  cases isFound : found i with
  | false => rfl
  | true => exact absurd (seek_le_of_found behind isFound) (Nat.not_le_of_lt before)

/-- A search ends where nothing was found before and something is, or where its steps end. -/
theorem seek_eq {stop : Nat} (behind : place ≤ stop) (within : stop ≤ place + steps)
    (missed : ∀ i, place ≤ i → i < stop → found i = false)
    (ends : stop = place + steps ∨ found stop = true) : seek found steps place = stop := by
  rw [seek_skip behind (by omega) missed]
  rcases ends with rfl | isFound
  · rw [Nat.add_sub_cancel_left, Nat.sub_self, seek]
  · exact Nat.le_antisymm (seek_le_of_found (Nat.le_refl stop) isFound) (le_seek found _ stop)

end Text

namespace CommentMarkers

variable {markers : CommentMarkers} {text : Text} {place stop : Nat} {comment : Comment}
  {comments : List Comment}

/-! Comments -/

/-- A whole comment. A line marker wins over the other one, and an end marker counts only behind the
start marker. -/
inductive IsComment (markers : CommentMarkers) (text : Text) : Comment → Prop where
  | line {marker : String} {start stop : Nat} (given : markers.line = some marker)
      (opens : text.isWritten true start marker = true) (behind : start + marker.length ≤ stop)
      (inside : ∀ i, start + marker.length ≤ i → i < stop → text[i]? ≠ some '\n')
      (ends : stop = text.size ∨ text[stop]? = some '\n') :
      IsComment markers text ⟨start, stop - start, .line, true⟩
  | closed {opening closing : String} {start found : Nat}
      (given : markers.multiline = some (opening, closing))
      (noLine : ∀ marker, markers.line = some marker → text.isWritten true start marker = false)
      (opens : text.isWritten true start opening = true) (behind : start + opening.length ≤ found)
      (inside : ∀ i, start + opening.length ≤ i → i < found → text.isWritten true i closing = false)
      (closes : text.isWritten true found closing = true) :
      IsComment markers text ⟨start, found + closing.length - start, .multiline, true⟩
  | unclosed {opening closing : String} {start : Nat}
      (given : markers.multiline = some (opening, closing))
      (noLine : ∀ marker, markers.line = some marker → text.isWritten true start marker = false)
      (opens : text.isWritten true start opening = true)
      (inside : ∀ i, start + opening.length ≤ i → text.isWritten true i closing = false) :
      IsComment markers text ⟨start, text.size - start, .multiline, false⟩

theorem isComment_of_lineAt (found : markers.lineAt? text place = some comment) :
    markers.IsComment text comment := by
  cases given : markers.line with
  | none => simp [lineAt?, given] at found
  | some marker =>
      rw [lineAt_eq given] at found
      split at found
      · rename_i opens
        obtain rfl := Option.some.inj found
        have room := (Text.isWritten_inside opens).2
        refine .line given opens (Text.le_seek _ _ _) (fun i behind before => ?_) ?_
        · simpa using Text.seek_missed behind before
        · rcases Nat.lt_or_ge (text.lineFeed (place + marker.length)) text.size with short | full
          · have reached := @Text.seek_found (fun i => text[i]? == some '\n')
              (text.size - (place + marker.length)) (place + marker.length)
              (Nat.lt_of_lt_of_le short (by omega))
            exact Or.inr (beq_iff_eq.mp reached)
          · have within := Text.seek_le (fun i => text[i]? == some '\n')
              (text.size - (place + marker.length)) (place + marker.length)
            exact Or.inl (Nat.le_antisymm (Nat.le_trans within (by omega)) full)
      · cases found

theorem isComment_of_multilineAt (noLine : markers.lineAt? text place = none)
    (found : markers.multilineAt? text place = some comment) : markers.IsComment text comment := by
  have noMarker : ∀ marker, markers.line = some marker → text.isWritten true place marker = false := by
    intro marker given
    simpa [lineAt_eq given] using noLine
  cases given : markers.multiline with
  | none => simp [multilineAt?, given] at found
  | some pair =>
      obtain ⟨opening, closing⟩ := pair
      rw [multilineAt_eq given] at found
      split at found
      · rename_i opens
        have room := (Text.isWritten_inside opens).2
        split at found
        · rename_i closes
          obtain rfl := Option.some.inj found
          refine .closed given noMarker opens (Text.le_seek _ _ _) ?_ ?_
          · exact fun i => @Text.seek_missed (fun i => text.isWritten true i closing) _ _ i
          · exact @Text.seek_found (fun i => text.isWritten true i closing) _ _
              (Nat.lt_of_lt_of_le closes (by omega))
        · rename_i never
          obtain rfl := Option.some.inj found
          refine .unclosed given noMarker opens fun i behind => ?_
          cases written : text.isWritten true i closing with
          | false => rfl
          | true =>
              obtain ⟨filled, inside⟩ := Text.isWritten_inside written
              have found := @Text.seek_le_of_found (fun i => text.isWritten true i closing)
                (text.size - (place + opening.length)) _ _ behind written
              exact absurd (Nat.lt_of_le_of_lt found (by omega)) never
      · cases found

theorem commentAt_of_isComment (isComment : markers.IsComment text comment) :
    markers.commentAt? text comment.start = some comment := by
  have without : ∀ start, (∀ marker, markers.line = some marker →
      text.isWritten true start marker = false) → markers.lineAt? text start = none := by
    intro start noLine
    cases given : markers.line with
    | none => simp [lineAt?, given]
    | some marker => simp [lineAt_eq given, noLine marker given]
  cases isComment with
  | @line marker start stop given opens behind inside ends =>
      have room := (Text.isWritten_inside opens).2
      have short : stop ≤ text.size := by
        rcases ends with rfl | feed
        · exact Nat.le_refl _
        · exact Nat.le_of_lt (Array.getElem?_eq_some_iff.mp feed).1
      have same : text.lineFeed (start + marker.length) = stop := by
        refine Text.seek_eq behind (by omega) (fun i behind before => ?_) ?_
        · simpa using inside i behind before
        · exact ends.imp (fun whole => by omega) fun feed => by simpa using feed
      rw [commentAt?, lineAt_eq given, if_pos opens, same]
      rfl
  | @closed opening closing start found given noLine opens behind inside closes =>
      have room := (Text.isWritten_inside opens).2
      obtain ⟨filled, within⟩ := Text.isWritten_inside closes
      have same : text.next closing (start + opening.length) = found :=
        Text.seek_eq behind (by omega) inside (Or.inr closes)
      rw [commentAt?, without start noLine, multilineAt_eq given, if_pos opens, same, if_pos (by omega)]
      rfl
  | @unclosed opening closing start given noLine opens inside =>
      have room := (Text.isWritten_inside opens).2
      have same : text.next closing (start + opening.length) = text.size :=
        Text.seek_eq room (by omega) (fun i behind _ => inside i behind) (Or.inl (by omega))
      rw [commentAt?, without start noLine, multilineAt_eq given, if_pos opens, same,
        if_neg (Nat.lt_irrefl _)]
      rfl

/-- What is found at a place is the comment that starts there. -/
theorem commentAt_iff :
    markers.commentAt? text place = some comment ↔
      comment.start = place ∧ markers.IsComment text comment := by
  constructor
  · intro found
    refine ⟨start_of_commentAt found, ?_⟩
    rcases Option.or_eq_some_iff.mp found with isLine | ⟨noLine, isMultiline⟩
    · exact isComment_of_lineAt isLine
    · exact isComment_of_multilineAt noLine isMultiline
  · rintro ⟨rfl, isComment⟩
    exact commentAt_of_isComment isComment

/-! Gaps -/

/-- Blanks and whole comments from one place to another, with the comments in text order. -/
inductive Gap (markers : CommentMarkers) (text : Text) : Nat → List Comment → Nat → Prop where
  | nothing (place : Nat) : Gap markers text place [] place
  | blank {place stop : Nat} {comments : List Comment} (isBlank : text.isBlankAt place = true)
      (rest : Gap markers text (place + 1) comments stop) : Gap markers text place comments stop
  | comment {comment : Comment} {comments : List Comment} {stop : Nat}
      (isComment : markers.IsComment text comment)
      (rest : Gap markers text comment.stop comments stop) :
      Gap markers text comment.start (comment :: comments) stop

theorem gap_within (pieces : Nat) :
    markers.Gap text place (markers.commentsWithin text pieces place)
      (markers.gapEndWithin text pieces place) := by
  induction pieces generalizing place with
  | zero => exact .nothing place
  | succ pieces ih =>
      unfold commentsWithin gapEndWithin
      cases found : markers.commentAt? text place with
      | some comment =>
          obtain ⟨rfl, isComment⟩ := commentAt_iff.mp found
          exact .comment isComment ih
      | none =>
          dsimp only
          split
          · rename_i isBlank
            exact .blank isBlank ih
          · exact .nothing place

/-- More rounds make no difference to the place that the look ahead comes to. -/
theorem gapEndWithin_enough {pieces : Nat} (enough : text.size - place ≤ pieces) :
    markers.gapEndWithin text pieces place = markers.gapEnd text place := by
  have same : ∀ {a b place : Nat}, text.size - place ≤ a → text.size - place ≤ b →
      markers.gapEndWithin text a place = markers.gapEndWithin text b place := by
    intro a
    induction a with
    | zero =>
        intro b place left _
        have settled : markers.Settled text place := settled_of_size_le (by omega)
        rw [gapEndWithin_settled settled, gapEndWithin_settled settled]
    | succ a ih =>
        intro b place left right
        cases b with
        | zero =>
            have settled : markers.Settled text place := settled_of_size_le (by omega)
            rw [gapEndWithin_settled settled, gapEndWithin_settled settled]
        | succ b =>
            rw [gapEndWithin, gapEndWithin]
            cases found : markers.commentAt? text place with
            | some comment =>
                have further := (commentAt_inside found).1
                exact ih (by omega) (by omega)
            | none => exact congrArg (if text.isBlankAt place then · else place) (ih (by omega) (by omega))
  exact same enough (Nat.le_refl _)

/-- A comment of the gap that has no end takes the rest of the text, and so the gap ends with it. -/
theorem stop_of_mem_unclosed (inside : place ≤ text.size)
    (member : comment ∈ markers.commentsFrom text place) (unclosed : comment.closed = false) :
    comment.stop = markers.gapEnd text place := by
  obtain ⟨found, _, within⟩ := commentsFrom_inside member
  have whole := stop_of_unclosed found unclosed
  have bound := @gapEnd_le markers text place inside
  omega

end CommentMarkers

/-- The comments that were noted stand in the same order behind one that is noted in addition. -/
theorem Comment.sublist_record {comment : Comment} {comments : List Comment} :
    comments.Sublist (comment.record comments) := by
  induction comments with
  | nil => exact List.nil_sublist _
  | cons first rest ih =>
      unfold record
      split
      · exact List.sublist_cons_self comment _
      · split
        · exact List.Sublist.refl _
        · exact ih.cons_cons first

namespace Cursor

variable {cursor : Cursor} {rounds : Nat} {unclosed : Option Nat}

/-! The loop that skips -/

theorem skipGapWithin_settled (settled : cursor.markers.Settled cursor.text cursor.position)
    (rounds : Nat) : skipGapWithin rounds cursor unclosed = (cursor, unclosed) := by
  cases rounds with
  | zero => rfl
  | succ rounds => simp [skipGapWithin, settled.1, settled.2]

/-- More rounds make no difference to what is skipped. -/
theorem skipGapWithin_enough (enough : cursor.remaining ≤ rounds) :
    skipGapWithin rounds cursor none = cursor.skipGap := by
  have same : ∀ {a b : Nat} {cursor : Cursor} {unclosed : Option Nat}, cursor.remaining ≤ a →
      cursor.remaining ≤ b → skipGapWithin a cursor unclosed = skipGapWithin b cursor unclosed := by
    intro a
    induction a with
    | zero =>
        intro b cursor unclosed left _
        have settled : cursor.markers.Settled cursor.text cursor.position :=
          CommentMarkers.settled_of_size_le (by unfold remaining at left; omega)
        rw [skipGapWithin_settled settled, skipGapWithin_settled settled]
    | succ a ih =>
        intro b cursor unclosed left right
        unfold remaining at left right
        cases b with
        | zero =>
            have settled : cursor.markers.Settled cursor.text cursor.position :=
              CommentMarkers.settled_of_size_le (by omega)
            rw [skipGapWithin_settled settled, skipGapWithin_settled settled]
        | succ b =>
            rw [skipGapWithin, skipGapWithin]
            cases found : cursor.markers.commentAt? cursor.text cursor.position with
            | some comment =>
                have further := (CommentMarkers.commentAt_inside found).1
                refine ih ?_ ?_ <;> simp only [remaining] <;> omega
            | none =>
                have next : skipGapWithin a { cursor with position := cursor.position + 1 } unclosed =
                    skipGapWithin b { cursor with position := cursor.position + 1 } unclosed :=
                  ih (by simp only [remaining]; omega) (by simp only [remaining]; omega)
                simp only [next]
  exact same enough (Nat.le_refl _)

theorem skipGapWithin_sublist :
    cursor.comments.Sublist (skipGapWithin rounds cursor unclosed).1.comments := by
  induction rounds generalizing cursor unclosed with
  | zero => exact List.Sublist.refl _
  | succ rounds ih =>
      unfold skipGapWithin
      split
      · rename_i comment _
        exact Comment.sublist_record.trans
          (@ih { cursor with position := comment.stop, comments := comment.record cursor.comments } _)
      · split
        · exact @ih { cursor with position := cursor.position + 1 } _
        · exact List.Sublist.refl _

/-- What the loop gives is the start of a comment without end, or what it was given if there is none. -/
theorem skipGapWithin_unclosed_iff {start : Nat} :
    (skipGapWithin rounds cursor unclosed).2 = some start ↔
      (∃ comment ∈ cursor.markers.commentsWithin cursor.text rounds cursor.position,
        comment.closed = false ∧ comment.start = start) ∨
      (∀ comment ∈ cursor.markers.commentsWithin cursor.text rounds cursor.position,
        comment.closed = true) ∧ unclosed = some start := by
  induction rounds generalizing cursor unclosed with
  | zero => simp [skipGapWithin, CommentMarkers.commentsWithin]
  | succ rounds ih =>
      unfold skipGapWithin CommentMarkers.commentsWithin
      cases found : cursor.markers.commentAt? cursor.text cursor.position with
      | some comment =>
          cases closed : comment.closed with
          | true => simp [ih, closed]
          | false =>
              -- Behind a comment without end there is nothing left to skip.
              have whole := CommentMarkers.stop_of_unclosed found closed
              have settled : cursor.markers.Settled cursor.text comment.stop :=
                CommentMarkers.settled_of_size_le (Nat.le_of_eq whole.symm)
              have rest : skipGapWithin rounds { cursor with
                    position := comment.stop
                    comments := comment.record cursor.comments } (some comment.start) =
                  (_, some comment.start) := skipGapWithin_settled settled rounds
              simp [rest, CommentMarkers.commentsWithin_settled settled, closed]
      | none =>
          dsimp only
          split
          · exact ih
          · simp

/-! Cursors of a text -/

/-- What moves a cursor. -/
inductive Move where
  | moveTo (position : Nat)
  | skip (count : Nat)
  | skipGap
  deriving DecidableEq, Repr

def Move.apply (cursor : Cursor) : Move → Cursor
  | .moveTo position => cursor.moveTo position
  | .skip count => cursor.skip count
  | .skipGap => cursor.skipGap.1

/-- The cursor behind moves that come one after another. -/
def moved (cursor : Cursor) (moves : List Move) : Cursor := moves.foldl Move.apply cursor

/-- The cursor stands in its text and has noted comments of it only. -/
structure Sane (cursor : Cursor) : Prop where
  inside : cursor.position ≤ cursor.text.size
  listed : cursor.Listed

theorem Sane.apply (sane : cursor.Sane) (move : Move) : (move.apply cursor).Sane := by
  cases move with
  | moveTo position => exact ⟨Nat.min_le_right _ _, sane.listed.genuine, sane.listed.sorted⟩
  | skip count => exact ⟨Nat.min_le_right _ _, sane.listed.genuine, sane.listed.sorted⟩
  | skipGap =>
      refine ⟨?_, cursor.hears_skipGap.listed sane.listed⟩
      rw [Move.apply, text_skipGap, position_skipGap]
      exact CommentMarkers.gapEnd_le sane.inside

theorem Sane.moved (sane : cursor.Sane) (moves : List Move) : (cursor.moved moves).Sane := by
  induction moves generalizing cursor with
  | nil => exact sane
  | cons move rest ih => exact ih (sane.apply move)

theorem sane_new (text : Text) (markers : CommentMarkers) : ({ text, markers } : Cursor).Sane :=
  ⟨Nat.zero_le _, nofun, List.Pairwise.nil⟩

/-! Skipping and looking ahead -/

/-- Skipping the gap at the cursor comes to the end of it, and notes the comments on the way. -/
structure SkipsGap (cursor : Cursor) : Prop where
  /-- Only the place and the comments change, and the place is the one that is seen ahead. -/
  lands : cursor.skipGap.1 = { cursor with
    position := cursor.gapEnd cursor.position
    comments := cursor.skipGap.1.comments }
  onward : cursor.position ≤ cursor.gapEnd cursor.position
  inside : cursor.gapEnd cursor.position ≤ cursor.text.size
  /-- Neither loop ends for want of rounds. -/
  lookEnds : ∀ rounds, cursor.remaining ≤ rounds →
    cursor.markers.gapEndWithin cursor.text rounds cursor.position = cursor.gapEnd cursor.position
  skipEnds : ∀ rounds, cursor.remaining ≤ rounds → skipGapWithin rounds cursor none = cursor.skipGap
  again : cursor.skipGap.1.skipGap = (cursor.skipGap.1, none)
  kept : cursor.comments.Sublist cursor.skipGap.1.comments
  /-- What is skipped, what is noted of it, and what is told of a comment without end. -/
  stretch : ∃ comments,
    cursor.markers.Gap cursor.text cursor.position comments (cursor.gapEnd cursor.position) ∧
    (∀ comment, comment ∈ cursor.skipGap.1.comments ↔ comment ∈ cursor.comments ∨ comment ∈ comments) ∧
    ∀ start, cursor.skipGap.2 = some start ↔ ∃ comment ∈ comments, comment.closed = false ∧
      comment.start = start ∧ comment.stop = cursor.gapEnd cursor.position
  /-- The gap goes on as far as it can. -/
  noBlank : cursor.text.isBlankAt (cursor.gapEnd cursor.position) = false
  noComment : ∀ comment, cursor.markers.IsComment cursor.text comment →
    comment.start ≠ cursor.gapEnd cursor.position

theorem settled_skipGap (cursor : Cursor) :
    cursor.skipGap.1.markers.Settled cursor.skipGap.1.text cursor.skipGap.1.position := by
  rw [text_skipGap, markers_skipGap, position_skipGap]
  exact CommentMarkers.settled_gapEnd

theorem Sane.skipsGap (sane : cursor.Sane) : cursor.SkipsGap where
  lands := by
    have text := cursor.text_skipGap
    have markers := cursor.markers_skipGap
    have position := cursor.position_skipGap
    cases skipped : cursor.skipGap.1
    rw [skipped] at text markers position
    cases text
    cases markers
    cases position
    rfl
  onward := CommentMarkers.le_gapEnd
  inside := CommentMarkers.gapEnd_le sane.inside
  lookEnds _ enough := CommentMarkers.gapEndWithin_enough enough
  skipEnds _ enough := skipGapWithin_enough enough
  again := skipGapWithin_settled cursor.settled_skipGap _
  kept := skipGapWithin_sublist
  stretch := by
    refine ⟨cursor.markers.commentsFrom cursor.text cursor.position, CommentMarkers.gap_within _,
      cursor.mem_skipGap sane.listed, fun start => ?_⟩
    have given : cursor.skipGap.2 = some start ↔ _ :=
      @skipGapWithin_unclosed_iff cursor cursor.remaining none start
    rw [given]
    constructor
    · rintro (⟨comment, member, unclosed, starts⟩ | ⟨_, none⟩)
      · exact ⟨comment, member, unclosed, starts,
          CommentMarkers.stop_of_mem_unclosed sane.inside member unclosed⟩
      · cases none
    · rintro ⟨comment, member, unclosed, starts, _⟩
      exact Or.inl ⟨comment, member, unclosed, starts⟩
  noBlank := CommentMarkers.settled_gapEnd.2
  noComment comment isComment starts := by
    have found := CommentMarkers.commentAt_of_isComment isComment
    have none := (@CommentMarkers.settled_gapEnd cursor.markers cursor.text cursor.position).1
    rw [starts] at found
    exact absurd (found.symm.trans none) (Option.some_ne_none comment)

/-- However a cursor has been moved in its text, skipping the gap at it and looking for the end of that
gap agree, whatever the markers of comments are. -/
theorem skipping_agrees_with_looking (text : Text) (markers : CommentMarkers) (moves : List Move) :
    (({ text, markers } : Cursor).moved moves).SkipsGap :=
  ((sane_new text markers).moved moves).skipsGap

end Cursor

end ExprLang
