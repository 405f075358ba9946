import ExprLang.Proofs.Lossless

/-!
The comments of a document. All gaps between its pieces are passed over in one way, which notes their
comments, but for those between the words of an operator: they are looked over only to find the next
word. And keywords behind an operand are read on trial, so that the comments behind them are noted
even if the trial is undone.
-/

namespace ExprLang

namespace Document

/-- The comments of the gap at the start and of those behind the pieces. -/
def gapComments (document : Document) (markers : CommentMarkers) : List Comment :=
  (0 :: document.pieces.map Prod.snd).flatMap (markers.commentsFrom document.text)

/-- What a document notes of the comments in its text. -/
structure Annotated (document : Document) (grammar : Grammar) : Prop where
  /-- In text order, and none is noted twice. -/
  inOrder : document.comments.Pairwise (·.start < ·.start)
  genuine : ∀ comment ∈ document.comments,
    grammar.comments.commentAt? document.text comment.start = some comment
  apart : ∀ comment ∈ document.gapComments grammar.comments, ∀ piece ∈ document.pieces,
    comment.stop ≤ piece.1 ∨ piece.2 ≤ comment.start
  noted : ∀ comment ∈ document.gapComments grammar.comments,
    comment ∈ document.comments ∨ grammar.BetweenWords document.text comment
  only : ∀ comment ∈ document.comments,
    comment ∈ document.gapComments grammar.comments ∨ grammar.BehindKeyword document.text comment
  /-- Without such operators and such keywords the comments are those of the gaps, one gap after the
  other. -/
  exact : (∀ comment ∈ document.gapComments grammar.comments,
      ¬ grammar.BetweenWords document.text comment) →
    (∀ comment ∈ document.comments, grammar.BehindKeyword document.text comment →
      comment ∈ document.gapComments grammar.comments) →
    ∃ row : List (Nat × Nat), row.Perm document.pieces ∧
      (row.Pairwise fun left right => left.2 ≤ right.1) ∧
      document.comments = (0 :: row.map Prod.snd).flatMap (grammar.comments.commentsFrom document.text)

end Document

open ParseState

namespace Grammar

variable {grammar : Grammar} {config : Config} {isLiteralChar : Char → Nat → Bool}

/-- A parse that goes on to the end of the text notes the comments in its gaps, if no extension takes
part. -/
theorem parse_notes_comments (built : build config isLiteralChar [] = .ok grammar) (text : String)
    (calm : (grammar.parse text).faults.hasCritical = false) :
    (grammar.parse text).Annotated grammar := by
  obtain ⟨rooted, _⟩ := rooted_of_calm built text calm
  obtain ⟨_, _, standing⟩ := rooted.standing
  have listed : (grammar.finalState (Text.ofString text)).cursor.Listed := standing.next.listed
  have sameMarkers := standing.next.markers
  have sameText : (grammar.finalState (Text.ofString text)).cursor.text = Text.ofString text :=
    standing.text
  obtain ⟨row, all, tally⟩ := exists_tally built text calm
  have spaced : grammar.comments.Spaced (Text.ofString text) 0 row (Text.ofString text).size :=
    tally.spaced
  have final : grammar.comments.gapEnd (Text.ofString text) (Text.ofString text).size =
      (Text.ofString text).size :=
    CommentMarkers.gapEnd_of_settled (CommentMarkers.settled_of_size_le (Nat.le_refl _))
  have between := CommentMarkers.commentsBetween_eq spaced final
  have inGaps : ∀ comment, comment ∈ (grammar.parse text).gapComments grammar.comments ↔
      comment ∈ grammar.comments.commentsBetween (Text.ofString text) 0 row (Text.ofString text).size := by
    intro comment
    rw [between]
    exact (((all.map Prod.snd).cons 0).flatMap_right _).mem_iff.symm
  refine ⟨listed.sorted, fun comment member => ?_, fun comment member piece isPiece => ?_,
    fun comment member => ?_, fun comment member => ?_, fun unbroken untried => ?_⟩
  · have genuine := listed.genuine comment member
    rwa [sameMarkers, sameText] at genuine
  · exact CommentMarkers.commentsBetween_apart spaced ((inGaps comment).mp member)
      (all.mem_iff.mpr isPiece)
  · exact tally.noted comment ((inGaps comment).mp member)
  · rcases tally.only comment member with none | inGap | onTrial
    · cases none
    · exact Or.inl ((inGaps comment).mpr inGap)
    · exact Or.inr onTrial
  · refine ⟨row, all, spaced.apart.2, between ▸ Comment.eq_of_sorted listed.sorted
      (CommentMarkers.commentsBetween_sorted spaced) fun comment => ⟨fun member => ?_, fun inGap => ?_⟩⟩
    · rcases tally.only comment member with none | inGap | onTrial
      · cases none
      · exact inGap
      · exact (inGaps comment).mp (untried comment member onTrial)
    · exact (tally.noted comment inGap).resolve_right (unbroken comment ((inGaps comment).mpr inGap))

/-- Two of the three comments of this text are noted. -/
theorem notes_all_but_one :
    build sampleConfig stockLiteralChar [] = .ok (sampleGrammar []) ∧
      ((sampleGrammar []).parse "const /* a */ x is /* b */ null // c").comments =
        [⟨6, 7, .multiline, true⟩, ⟨32, 4, .line, true⟩] ∧
      ((sampleGrammar []).parse "const /* a */ x is /* b */ null // c").Annotated (sampleGrammar []) :=
  ⟨build_sample, by decide +kernel, parse_notes_comments build_sample _ (by decide +kernel)⟩

/-- The comment between the words of an operator is lost. -/
theorem comment_between_words :
    ((sampleGrammar []).parse "x is /* b */ null").faults = [] ∧
      ((sampleGrammar []).parse "x is /* b */ null").gapComments (sampleGrammar []).comments =
        [⟨5, 7, .multiline, true⟩] ∧
      ((sampleGrammar []).parse "x is /* b */ null").comments = [] := by
  decide +kernel

end Grammar

end ExprLang
