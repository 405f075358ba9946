import ExprLang.Proofs.Lossless
import ExprLang.Proofs.Tandem.Shifted

/-!
What a parse without faults tells of its text. No character was dropped, so the text is made up of the
tokens and the gaps between them, and no gap has a comment without end. So the places where a gap
begins or ends are known from the tokens, and a text with the same tokens elsewhere is parsed alike.
-/

namespace ExprLang

open ParseState

namespace Grammar

/-- A gap begins where the text does and behind each token of the parse. -/
def GapAt (grammar : Grammar) (text : Text) (place : Nat) : Prop :=
  place = 0 ∨ ∃ start, (start, place) ∈ (grammar.finalState text).forest.tokenSpans

/-- At an end of a gap. -/
def Rests (grammar : Grammar) (text : Text) (place : Nat) : Prop :=
  ∃ gap, grammar.GapAt text gap ∧ (place = gap ∨ place = grammar.comments.gapEnd text gap)

/-- The tokens of the parse, in text order, and the gaps between them are the whole text. -/
structure Tiled (grammar : Grammar) (text : Text) (row : List (Nat × Nat)) : Prop where
  all : row.Perm (grammar.finalState text).forest.tokenSpans
  spaced : grammar.comments.Spaced text 0 row text.size
  closed : grammar.comments.countRunsOut text 0 row text.size = 0
  noted : ∀ comment ∈ grammar.comments.commentsBetween text 0 row text.size,
    comment ∈ (grammar.finalState text).cursor.comments ∨ grammar.BetweenWords text comment

variable {grammar : Grammar} {config : Config} {isLiteralChar : Char → Nat → Bool}

theorem exists_tiled (built : build config isLiteralChar [] = .ok grammar) {text : String}
    (clean : (grammar.parse text).faults = []) : ∃ row, grammar.Tiled (Text.ofString text) row := by
  have none : (grammar.finalState (Text.ofString text)).faults = [] := clean
  obtain ⟨row, _, tally⟩ := exists_tally built text (by rw [clean]; rfl)
  refine ⟨row, ?_, tally.spaced, ?_, tally.noted⟩
  · have counted := tally.counted.symm
    simp only [ParseState.pieces, none] at counted
    simpa [blankState, Forest.tokenSpans, Faults.pieces] using counted
  · have unclosed := tally.unclosed
    rw [none] at unclosed
    exact (Nat.eq_zero_of_add_eq_zero_left unclosed.symm)

namespace Tiled

variable {text : Text} {row : List (Nat × Nat)} (tiled : grammar.Tiled text row) {start stop place : Nat}

include tiled

theorem mem_row {span : Nat × Nat} : span ∈ row ↔ span ∈ (grammar.finalState text).forest.tokenSpans :=
  tiled.all.mem_iff

theorem gapAt_iff : grammar.GapAt text place ↔ place ∈ 0 :: row.map Prod.snd := by
  rw [GapAt, List.mem_cons, List.mem_map]
  refine or_congr Iff.rfl ⟨?_, ?_⟩
  · rintro ⟨start, isToken⟩
    exact ⟨(start, place), tiled.mem_row.mpr isToken, rfl⟩
  · rintro ⟨⟨start, _⟩, member, rfl⟩
    exact ⟨start, tiled.mem_row.mp member⟩

theorem token_filled (isToken : (start, stop) ∈ (grammar.finalState text).forest.tokenSpans) :
    start < stop :=
  (tiled.spaced.apart.1 _ (tiled.mem_row.mpr isToken)).2

theorem tokens_apart {start' stop' : Nat}
    (isToken : (start, stop) ∈ (grammar.finalState text).forest.tokenSpans)
    (other : (start', stop') ∈ (grammar.finalState text).forest.tokenSpans) :
    (start = start' ∧ stop = stop') ∨ stop ≤ start' ∨ stop' ≤ start := by
  by_cases same : (start, stop) = (start', stop')
  · exact Or.inl (Prod.mk.inj same)
  · have apart : row.Pairwise fun left right => left.2 ≤ right.1 ∨ right.2 ≤ left.1 :=
      tiled.spaced.apart.2.imp Or.inl
    have : Std.Symm fun left right : Nat × Nat => left.2 ≤ right.1 ∨ right.2 ≤ left.1 :=
      ⟨fun _ _ either => either.symm⟩
    exact Or.inr (apart.forall (tiled.mem_row.mpr isToken) (tiled.mem_row.mpr other) same)

/-- Behind a gap stands a token, or the text ends there. -/
theorem gap_ends (gap : grammar.GapAt text place) :
    (∃ stop, (grammar.comments.gapEnd text place, stop) ∈ (grammar.finalState text).forest.tokenSpans) ∨
      grammar.comments.gapEnd text place = text.size := by
  have ends : grammar.comments.gapEnd text text.size = text.size :=
    CommentMarkers.gapEnd_of_settled (CommentMarkers.settled_of_size_le (Nat.le_refl _))
  have member := List.mem_map_of_mem (f := grammar.comments.gapEnd text) (tiled.gapAt_iff.mp gap)
  rw [tiled.spaced.gapEnds, ends, List.mem_append] at member
  rcases member with starts | last
  · obtain ⟨⟨start, stop⟩, inRow, same⟩ := List.mem_map.mp starts
    exact Or.inl ⟨stop, same ▸ tiled.mem_row.mp inRow⟩
  · exact Or.inr (List.mem_singleton.mp last)

/-- A gap stands before each token. -/
theorem gap_before (isToken : (start, stop) ∈ (grammar.finalState text).forest.tokenSpans) :
    ∃ gap, grammar.GapAt text gap ∧ grammar.comments.gapEnd text gap = start := by
  have starts : start ∈ row.map Prod.fst ++ [grammar.comments.gapEnd text text.size] :=
    List.mem_append_left _ (List.mem_map.mpr ⟨_, tiled.mem_row.mpr isToken, rfl⟩)
  rw [← tiled.spaced.gapEnds] at starts
  obtain ⟨gap, begins, ends⟩ := List.mem_map.mp starts
  exact ⟨gap, tiled.gapAt_iff.mpr begins, ends⟩

theorem settled_token (isToken : (start, stop) ∈ (grammar.finalState text).forest.tokenSpans) :
    grammar.comments.Settled text start := by
  obtain ⟨gap, _, rfl⟩ := tiled.gap_before isToken
  exact CommentMarkers.settled_gapEnd

theorem token_inside (isToken : (start, stop) ∈ (grammar.finalState text).forest.tokenSpans) :
    stop ≤ text.size :=
  tiled.spaced.stop_le _ (tiled.mem_row.mpr isToken)

omit tiled in
theorem rests_zero : grammar.Rests text 0 := ⟨0, Or.inl rfl, Or.inl rfl⟩

omit tiled in
theorem rests_stop (isToken : (start, stop) ∈ (grammar.finalState text).forest.tokenSpans) :
    grammar.Rests text stop := ⟨stop, Or.inr ⟨start, isToken⟩, Or.inl rfl⟩

omit tiled in
theorem rests_gapEnd (rests : grammar.Rests text place) :
    grammar.Rests text (grammar.comments.gapEnd text place) := by
  obtain ⟨gap, begins, rfl | rfl⟩ := rests
  · exact ⟨_, begins, Or.inr rfl⟩
  · exact ⟨gap, begins, Or.inr CommentMarkers.gapEnd_gapEnd⟩

theorem rests_start (isToken : (start, stop) ∈ (grammar.finalState text).forest.tokenSpans) :
    grammar.Rests text start := by
  obtain ⟨gap, begins, ends⟩ := tiled.gap_before isToken
  exact ⟨gap, begins, Or.inr ends.symm⟩

/-- Where no gap goes on a token begins, or the text ends. -/
theorem token_of_settled (rests : grammar.Rests text place)
    (settled : grammar.comments.Settled text place) :
    (∃ stop, (place, stop) ∈ (grammar.finalState text).forest.tokenSpans) ∨ place = text.size := by
  obtain ⟨gap, begins, rfl | rfl⟩ := rests
  · have ends := tiled.gap_ends begins
    rwa [CommentMarkers.gapEnd_of_settled settled] at ends
  · exact tiled.gap_ends begins

/-- The comments behind a token are among those of the whole text. -/
theorem comment_between {comment : Comment} (rests : grammar.Rests text place)
    (member : comment ∈ grammar.comments.commentsFrom text place) :
    grammar.GapAt text place ∧ comment ∈ grammar.comments.commentsBetween text 0 row text.size := by
  obtain ⟨gap, begins, rfl | rfl⟩ := rests
  · have ends : grammar.comments.gapEnd text text.size = text.size :=
      CommentMarkers.gapEnd_of_settled (CommentMarkers.settled_of_size_le (Nat.le_refl _))
    rw [CommentMarkers.commentsBetween_eq tiled.spaced ends]
    exact ⟨begins, List.mem_flatMap.mpr ⟨place, tiled.gapAt_iff.mp begins, member⟩⟩
  · rw [CommentMarkers.commentsFrom_of_settled CommentMarkers.gapEnd_gapEnd] at member
    cases member

/-- No gap has a comment without end. -/
theorem comment_closed {comment : Comment} (rests : grammar.Rests text place)
    (member : comment ∈ grammar.comments.commentsFrom text place) : comment.closed = true := by
  have gap := (tiled.comment_between rests member).1
  have runsOn := CommentMarkers.runsOut_of_countRunsOut tiled.closed place (tiled.gapAt_iff.mp gap)
  refine Bool.not_eq_false _ |>.mp fun unclosed => ?_
  exact Bool.false_ne_true (runsOn.symm.trans (CommentMarkers.runsOut_of_unclosed member unclosed))

/-- A comment that is not noted is followed by the next word of an operator. -/
theorem line_inside {comment : Comment} (rests : grammar.Rests text place)
    (member : comment ∈ grammar.comments.commentsFrom text place) :
    comment ∈ (grammar.finalState text).cursor.comments ∨ comment.stop < text.size := by
  refine (tiled.noted comment (tiled.comment_between rests member).2).imp id ?_
  rintro ⟨start, afterOperand, written, found, part, isPart, behind⟩
  exact Nat.lt_of_le_of_lt (CommentMarkers.commentsFrom_inside behind).2.2
    (operatorAt_gaps_inside found part isPart)

end Tiled

end Grammar

theorem Forest.mem_tokenSpans {forest : Forest} {id : Nat} {item : Item} (found : forest.get? id = some item)
    (isToken : item.isToken = true) : (item.start, item.start + item.length) ∈ forest.tokenSpans := by
  rw [tokenSpans_eq]
  refine List.mem_filterMap.mpr ⟨id, List.mem_range.mpr (get_lt_size found), ?_⟩
  rw [found, Option.bind_some, Item.tokenSpan?, if_pos isToken]

/-! Moved tokens -/

namespace Tandem

/-- A text, and another one where its tokens stand where `move` tells. -/
def moved (grammar : Grammar) (text other : Text) (move : Nat → Nat) : Tandem where
  grammar
  text
  other
  move
  earlier := { items := #[Grammar.rootItem] }
  fold := id
  decoded text text' := text' = text
  rest := grammar.Rests text
  front place := grammar.Rests text place ∧ grammar.comments.Settled text place
  expects place length := (place, place + length) ∈ (grammar.finalState text).forest.tokenSpans
  rigid := False

variable {grammar : Grammar} {text other : Text} {move : Nat → Nat} {forest forest' : Forest}

@[simp]
theorem rename_moved (id : Nat) : (moved grammar text other move).rename id = id := by
  rw [rename]
  split
  · rename_i isRoot
    exact isRoot.symm
  · rfl

@[simp]
theorem word_moved (word : String) : (moved grammar text other move).word word = word := by
  simp [Tandem.word, moved]

theorem carryKind_moved (kind : ItemKind) : (moved grammar text other move).carryKind kind = kind := by
  have renamed : (moved grammar text other move).rename = id := funext rename_moved
  cases kind <;> simp [carryKind, renamed]

theorem kind_moved {kind kind' : ItemKind} (alike : (moved grammar text other move).Kind kind kind') :
    kind' = kind := by
  cases kind with
  | constantText raw decoded quote closed =>
      obtain ⟨_, rfl, rfl⟩ := alike
      rw [word_moved]
  | _ => exact Eq.trans alike (carryKind_moved _)

/-- Nothing but the places of the items is changed. -/
theorem get_moved (mirror : (moved grammar text other move).Mirror forest forest') (id : Nat) :
    forest'.get? id = (forest.get? id).map fun item =>
      { item with start := if id = 0 then item.start else move item.start } := by
  have renamed : (moved grammar text other move).rename = fun id => id := funext rename_moved
  have same : ∀ parts : Parts, parts.map (moved grammar text other move).rename = parts := by
    intro parts
    simp [Parts.map, renamed]
  by_cases isRoot : id = 0
  · subst isRoot
    obtain ⟨root, image, found, foundOther, ⟨isRoot, first, foundFirst, _, alike⟩⟩ := mirror.root
    obtain rfl : Grammar.rootItem = first := Option.some.inj foundFirst
    obtain ⟨statements, separators, kind⟩ := isRoot.kind
    rw [found, foundOther, alike, Option.map_some, if_pos rfl, carryRoot, carryKind_moved, same, kind]
    obtain ⟨_, _, _, _, _⟩ := root
    cases kind
    simp [Grammar.rootItem, ItemKind.append, Parts.append]
  · cases found : forest.get? id with
    | none =>
        have missing := mirror.missing isRoot found
        rw [rename_moved] at missing
        rw [missing, Option.map_none]
    | some item =>
        obtain ⟨image, foundOther, alike⟩ := mirror.items id item isRoot found
        rw [rename_moved] at foundOther
        have parent : image.parent = item.parent := by
          rw [alike.parent, renamed, Option.map_id']
        have kind := kind_moved alike.kind
        have parts := alike.parts
        rw [same] at parts
        rw [foundOther, Option.map_some, if_neg isRoot, ← parent, ← kind, ← parts]
        obtain ⟨_, _, _, _, _⟩ := image
        simp only [Option.some.injEq, Item.mk.injEq, and_true, true_and]
        exact ⟨alike.start, alike.length⟩

/-- A parse without faults comes as far in the other text. -/
theorem landed_moved {along calm : Nat → Prop} {halting : Char → Prop} (stock : grammar.Stock)
    (course : (moved grammar text other move).Course along calm halting) (start : move 0 = 0)
    (clean : (grammar.finalState text).faults = []) :
    ∃ t' origin closedByBlock passes,
      (moved grammar text other move).Landed (grammar.finalState text) t' passes ∧
        grammar.rootLoop other.size (grammar.initialState other) =
          behindRoot grammar 0 origin closedByBlock
            (Parse.rootStatements grammar (Parse.segment grammar (other.size + 1)) 0 passes) t' := by
  have linked : (Forest.mk #[Grammar.rootItem] true).Linked := by
    obtain ⟨_, _, standing⟩ := (@ParseState.rooted_initialState grammar False text).standing
    exact standing.sound.linked
  have isRoot : Grammar.rootItem.IsRoot := ⟨rfl, ⟨[], [], rfl⟩, rfl⟩
  have mirror := @mirror_initial (moved grammar text other move) Grammar.rootItem rfl isRoot rfl rfl linked rfl
  have beside : (moved grammar text other move).Beside (grammar.initialState text)
      (grammar.initialState other) := by
    refine ⟨⟨rfl, rfl, rfl, rfl, mirror, .nil⟩, Grammar.Tiled.rests_zero, start.symm⟩
  have founded : (moved grammar text other move).Founded := ⟨linked, nofun⟩
  have room : (grammar.initialState other).cursor.remaining < other.size + 1 := Nat.lt_succ_self _
  have sane := grammar.sane_finalState stock.named stock.plain text
  exact course.lawful.clean_run founded sane beside ⟨room, room⟩ clean
    fun found isToken _ => Forest.mem_tokenSpans found isToken

end Tandem

end ExprLang
