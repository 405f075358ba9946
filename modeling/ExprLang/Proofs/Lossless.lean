import ExprLang.Proofs.Forest.Walk
import ExprLang.Proofs.Language
import ExprLang.Proofs.Parse.Statements

/-!
No character is lost. The tokens of a document, with the keywords and symbols that were reported and
dropped, are the pieces of its text; between two of them stands one gap and nothing else.
-/

namespace ExprLang

namespace Document

/-- The tokens of a document from left to right. -/
def tokens (document : Document) : List ItemId := document.forest.tokens document.root

/-- The spans of the tokens, and those of the faults that stand for dropped characters. -/
def pieces (document : Document) : List (Nat × Nat) :=
  document.tokens.map document.forest.span ++ document.faults.pieces

/-- The text can be put together again from the pieces of the document and the gaps between them. -/
structure Lossless (document : Document) (comments : CommentMarkers) : Prop where
  /-- The walk over the tree meets all its tokens. -/
  walk : ∀ token, token ∈ document.tokens ↔
    Relation.ReflTransGen document.forest.Owns document.root token ∧ document.forest.IsToken token
  inOrder : document.tokens.Pairwise document.forest.Before
  spelled : ∀ token ∈ document.tokens, ∃ kind,
    document.forest.kind? token = some (.token kind
      (document.text.slice (document.forest.start token) (document.forest.stop token)))
  filled : ∀ piece ∈ document.pieces, piece.1 < piece.2
  apart : document.pieces.Pairwise fun left right => left.2 ≤ right.1 ∨ right.2 ≤ left.1
  /-- In text order, the gap at the start and the ones behind the pieces reach just up to the pieces
  and the end of the text. -/
  gaps : ∃ row : List (Nat × Nat), row.Perm document.pieces ∧
    (row.Pairwise fun left right => left.2 ≤ right.1) ∧
    (0 :: row.map Prod.snd).map (comments.gapEnd document.text) =
      row.map Prod.fst ++ [document.text.size]

end Document

open ParseState

namespace Grammar

variable {grammar : Grammar} {config : Config} {isLiteralChar : Char → Nat → Bool}

/-- The pieces of a document in text order are those that the parser has kept its tally of, from the
start of the text to its end. -/
theorem exists_tally (built : build config isLiteralChar [] = .ok grammar) (text : String)
    (calm : (grammar.parse text).faults.hasCritical = false) :
    ∃ row, row.Perm (grammar.parse text).pieces ∧
      Tally grammar (grammar.blankState (Text.ofString text)) (grammar.finalState (Text.ofString text))
        [] row (Text.ofString text).size := by
  obtain ⟨rooted, atEnd⟩ := rooted_of_calm built text calm
  obtain ⟨held, isRoot, standing⟩ := rooted.standing
  have linked := standing.sound.linked
  have holds := (standing.strict trivial).exact
  -- What was counted on the way is what the walk over the finished tree meets.
  have spans := Forest.tokenSpans_perm linked standing.sound.laid
    (fun _ isToken => (holds.written linked isToken).1)
    fun id isToken => rooted.below (Forest.get_lt_size isToken.choose_spec.1)
  obtain ⟨row, tally⟩ := standing.tally trivial
  have noWords : Held.wordSpans [held] = [] := by cases held <;> first | rfl | cases isRoot
  have same : ((grammar.finalState (Text.ofString text)).pieces []).Perm
      ((grammar.finalState (Text.ofString text)).pieces [held]) := by
    rw [ParseState.pieces, ParseState.pieces, noWords, Held.wordSpans_nil]
  have all := tally.of_perm same rfl rfl
  refine ⟨row, ?_, atEnd ▸ all⟩
  have counted : row.Perm ((grammar.finalState (Text.ofString text)).pieces []) := all.counted.symm
  rw [ParseState.pieces, Held.wordSpans_nil, List.append_nil] at counted
  exact counted.trans (spans.append_right _)

/-- A parse that goes on to the end of the text loses nothing of it, if no extension takes part. -/
theorem parse_is_lossless (built : build config isLiteralChar [] = .ok grammar) (text : String)
    (calm : (grammar.parse text).faults.hasCritical = false) :
    (grammar.parse text).Lossless grammar.comments := by
  obtain ⟨rooted, _⟩ := rooted_of_calm built text calm
  obtain ⟨_, _, standing⟩ := rooted.standing
  have linked := standing.sound.linked
  have holds := (standing.strict trivial).exact
  have sameText : (grammar.finalState (Text.ofString text)).cursor.text = Text.ofString text :=
    standing.text
  rw [sameText] at holds
  have tokens : ∀ token ∈ (grammar.parse text).tokens,
      (grammar.parse text).forest.IsToken token := fun token member =>
    ((Forest.mem_tokens linked).mp member).2
  obtain ⟨row, all, tally⟩ := exists_tally built text calm
  obtain ⟨filled, apart⟩ := tally.spaced.apart
  have inOrder := Forest.tokens_inOrder linked standing.sound.laid 0
  refine ⟨fun _ => Forest.mem_tokens linked, ?_, ?_, ?_, ?_, row, all, apart, ?_⟩
  · refine inOrder.imp_of_mem fun {x y} inX _ before => ⟨?_, before⟩
    exact Nat.lt_of_lt_of_le (holds.written linked (tokens x inX)).1 before
  · exact fun token member => (holds.written linked (tokens token member)).2
  · exact fun piece member => (filled piece (all.mem_iff.mpr member)).2
  · exact (all.pairwise_iff fun either => either.symm).mp (apart.imp Or.inl)
  · have final : grammar.comments.gapEnd (Text.ofString text) (Text.ofString text).size =
        (Text.ofString text).size :=
      CommentMarkers.gapEnd_of_settled (CommentMarkers.settled_of_size_le (Nat.le_refl _))
    exact tally.spaced.gapEnds.trans (congrArg (fun place => row.map Prod.fst ++ [place]) final)

/-- A repeated keyword and a comma without braces are dropped, and still nothing is lost. -/
theorem lossless_with_dropped_symbols :
    build sampleConfig stockLiteralChar [] = .ok (sampleGrammar []) ∧
      ((sampleGrammar []).parse "const const f(a) /* b */ + \"c\", d is // e").faults.map Fault.code =
        [.multipleOccurrencesOfKeyword, .unexpectedSymbol, .noSeparationBetweenSymbols] ∧
      ((sampleGrammar []).parse "const const f(a) /* b */ + \"c\", d is // e").Lossless
        (sampleGrammar []).comments :=
  ⟨build_sample, by decide +kernel, parse_is_lossless build_sample _ (by decide +kernel)⟩

end Grammar

end ExprLang
