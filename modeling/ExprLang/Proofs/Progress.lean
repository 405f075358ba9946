import ExprLang.Proofs.Language
import ExprLang.Proofs.Progress.Segments

/-!
The parser moves on and comes to an end. What is handed to a function of the parser matters only where
the function comes to; so it is known where the loops go round again and where braces, code blocks and
segments inside others begin, and that is further on each time.
-/

namespace ExprLang

open ParseState (Within Onward Beyond)

open Parse

namespace Parse

variable {grammar : Grammar} {inner other : Inner} {s : ParseState}

theorem InnerAlike.enclosed (inside : InnerAlike s.Beyond inner other) :
    EnclosedAlike grammar s inner other where
  braces name _ onward _ := alike_braces onward.within
    (fun context _ beyond => inside context _ (onward.trans_beyond beyond)) name
  codeBlock _ onward starts := alike_codeBlock onward.within starts
    fun context _ beyond => inside context _ (onward.trans_beyond beyond)

/-- A segment inside another one begins strictly behind the start of that one. -/
theorem segment_advances (plain : grammar.extensions = []) (named : grammar.Named) :
    Advances ClosedBeyond (segment grammar) (segmentWith grammar) := by
  apply advances
  · exact fun _ s within => goes_stuckHere within
  · exact fun _ => rfl
  · intro again againOther context s within later
    exact alike_segmentWith plain named context within (InnerAlike.enclosed later)

/-- Where the functions of the parser call one another, and where its loops go round again. -/
structure MovesOn (grammar : Grammar) : Prop where
  /-- Of two segments inside one another the inner one begins strictly behind the start of the outer one. -/
  segments : Advances ClosedBeyond (segment grammar) (segmentWith grammar)
  /-- A segment asks for braces and code blocks only where they begin, from its own start onward. -/
  enclosed : ∀ depth context s other, s.Within →
    (∀ name t, s.Onward t → Grammar.isOpeningBraceAt t.cursor.text t.cursor.position = true →
      braces other name t = braces (segment grammar depth) name t) →
    (∀ t, s.Onward t → grammar.isBlockStartAt t.cursor.text t.cursor.position = true →
      codeBlock grammar other t = codeBlock grammar (segment grammar depth) t) →
    segmentWith grammar other context s = segmentWith grammar (segment grammar depth) context s
  /-- Braces ask for segments strictly behind their start. -/
  braces : ∀ depth name s other, s.Within →
    (∀ context t, s.Beyond t → other context t = segment grammar depth context t) →
    braces other name s = braces (segment grammar depth) name s
  /-- So do code blocks. -/
  codeBlock : ∀ depth s other, s.Within →
    grammar.isBlockStartAt s.cursor.text s.cursor.position = true →
    (∀ context t, s.Beyond t → other context t = segment grammar depth context t) →
    codeBlock grammar other s = codeBlock grammar (segment grammar depth) s
  /-- The root asks for segments from its own start onward. -/
  root : ∀ depth root passes s other, s.Within →
    (∀ context t, s.Onward t → other context t = segment grammar depth context t) →
    rootStatements grammar other root passes s =
      rootStatements grammar (segment grammar depth) root passes s
  rootPasses : ∀ depth root, Advances (fun _ _ _ => True)
    (fun count (_ : Unit) => rootStatements grammar (segment grammar depth) root count)
    (rootRound grammar (segment grammar depth) root)
  blockPasses : ∀ depth block markers start, Advances (fun _ _ _ => True)
    (fun count (_ : Unit) => blockStatements grammar (segment grammar depth) block markers start count)
    (blockRound grammar (segment grammar depth) block markers start)
  bracesPasses : ∀ depth item kind, Advances (fun _ _ _ => True)
    (fun count (read : List (Option ItemId) × Bool) =>
      parameters (segment grammar depth) item kind count read.1 read.2)
    (parametersRound (segment grammar depth) item kind)
  /-- Each return of a segment to its prefixes and keywords. -/
  segmentPasses : ∀ depth context, Advances EndBeyond (passes grammar (segment grammar depth) context)
    (segmentRound grammar (segment grammar depth) context)
  modifierPasses : ∀ depth, Advances OperandBeyond (modifiers grammar (segment grammar depth))
    (modifiersRound grammar (segment grammar depth))
  keywordPasses : ∀ reportRepeats, Advances (fun _ _ _ => True) (keywordRun grammar reportRepeats)
    (keywordRound grammar reportRepeats)
  postfixPasses : ∀ depth context target, Advances (fun _ _ _ => True)
    (fun count (_ : Unit) => postfixes grammar (segment grammar depth) context target count)
    (postfixesRound grammar (segment grammar depth) context target)
  /-- The parse of a text ends within its bounds: larger ones make no difference. -/
  ends : ∀ text depth passes, text.size < depth → text.size < passes →
    rootStatements grammar (segment grammar depth) 0 passes (grammar.initialState text) =
      rootStatements grammar (segment grammar (text.size + 1)) 0 (text.size + 1)
        (grammar.initialState text)

end Parse

namespace Grammar

variable {grammar : Grammar} {config : Config} {isLiteralChar : Char → Nat → Bool}

/-- Without extensions every loop of the parser and every nesting goes on further in the text. -/
theorem parser_moves_on (built : build config isLiteralChar [] = .ok grammar) : MovesOn grammar := by
  obtain ⟨named, plain⟩ := named_of_build built
  have segments := segment_advances plain named
  have forward : ∀ depth (s : ParseState), s.Within →
      InnerAlike s.Onward (segment grammar depth) (segment grammar depth) :=
    fun depth s _ context t onward => (segments.onwards depth context t onward.within).alike
  have enclosed : ∀ depth (s : ParseState), s.Within →
      EnclosedAlike grammar s (segment grammar depth) (segment grammar depth) :=
    fun depth s within => InnerAlike.enclosed fun context t beyond =>
      forward depth s within context t beyond.toOnward
  have beyond : ∀ depth (s : ParseState) (other : Inner),
      (∀ context t, s.Beyond t → other context t = segment grammar depth context t) →
      InnerAlike s.Beyond (segment grammar depth) other := fun depth s other same context t further =>
    ⟨same context t further, segments.onwards depth context t further.within⟩
  have onward : ∀ depth (s : ParseState) (other : Inner),
      (∀ context t, s.Onward t → other context t = segment grammar depth context t) →
      InnerAlike s.Onward (segment grammar depth) other := fun depth s other same context t further =>
    ⟨same context t further, segments.onwards depth context t further.within⟩
  constructor
  case segments => exact segments
  case enclosed =>
    intro depth context s other within sameBraces sameBlocks
    have known := enclosed depth s within
    refine (alike_segmentWith plain named context within ⟨?_, ?_⟩).same
    · exact fun name t further opens =>
        ⟨sameBraces name t further opens, (known.braces name t further opens).goes⟩
    · exact fun t further starts =>
        ⟨sameBlocks t further starts, (known.codeBlock t further starts).goes⟩
  case braces =>
    exact fun depth name s other within same => (alike_braces within (beyond depth s other same) name).same
  case codeBlock =>
    exact fun depth s other within starts same =>
      (alike_codeBlock within starts (beyond depth s other same)).same
  case root =>
    exact fun depth root passes s other within same =>
      (alike_rootStatements passes within (onward depth s other same)).same
  case rootPasses => exact fun depth root => rootStatements_advances root (forward depth)
  case blockPasses =>
    exact fun depth block markers start => blockStatements_advances block markers start (forward depth)
  case bracesPasses => exact fun depth item kind => parameters_advances item kind (forward depth)
  case segmentPasses => exact fun depth context => passes_advances plain named context (enclosed depth)
  case modifierPasses => exact fun depth => modifiers_advances (enclosed depth)
  case keywordPasses => exact keywordRun_advances grammar
  case postfixPasses =>
    exact fun depth context target => postfixes_advances plain context target (enclosed depth)
  case ends =>
    intro text depth passes deep long
    have within : (grammar.initialState text).Within := Nat.zero_le _
    have left : (grammar.initialState text).cursor.remaining = text.size := Nat.sub_zero _
    -- The bound of the nesting does not matter onward of the start, and then neither does that of the loop.
    have nested : rootStatements grammar (segment grammar depth) 0 passes (grammar.initialState text) =
        rootStatements grammar (segment grammar (text.size + 1)) 0 passes (grammar.initialState text) := by
      refine (alike_rootStatements passes within (onward _ _ _ fun context t further => ?_)).same
      have fewer : t.cursor.remaining ≤ text.size := by
        have size := congrArg Array.size further.text
        have behind := further.further
        simp only [Cursor.remaining] at left ⊢
        omega
      exact segments.enough context t _ _ further.within (by omega) (by omega)
    rw [nested]
    exact (rootStatements_advances 0 (forward _)).enough () _ _ _ within (by omega) (by omega)

/-- Nested braces and blocks without ends, with bounds for their nesting that no text needs. -/
theorem open_braces_end :
    build sampleConfig stockLiteralChar [] = .ok (sampleGrammar []) ∧ MovesOn (sampleGrammar []) ∧
      let text := Text.ofString "([([ \x7b ("
      rootStatements (sampleGrammar []) (segment (sampleGrammar []) 100) 0 50
          ((sampleGrammar []).initialState text) =
        rootStatements (sampleGrammar []) (segment (sampleGrammar []) 9) 0 9
          ((sampleGrammar []).initialState text) :=
  ⟨build_sample, parser_moves_on build_sample,
    (parser_moves_on build_sample).ends _ 100 50 (by decide +kernel) (by decide +kernel)⟩

end Grammar

end ExprLang
