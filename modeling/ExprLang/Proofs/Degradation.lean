import ExprLang.Proofs.Lossless
import ExprLang.Proofs.Parse.Degrading

/-!
What is wrong with a text shows in its document twice, in the tree and among the faults, and both agree:
each construct without an end has its own fault, a comment without end at the end of the text has one,
and there is a series if and only if a fault tells why.
-/

namespace ExprLang

namespace Document

/-- The root and all that stands below it. -/
def items (document : Document) : List ItemId :=
  (List.range document.forest.size).filter (document.forest.isAncestorOrSelf document.root)

/-- How many faults of that code there are. -/
def reports (document : Document) (code : Fault.Code) : Nat := (document.faults.withCode code).length

/-- Where the last piece of the text ends. -/
def lastStop (document : Document) : Nat :=
  document.pieces.foldl (fun stop piece => max stop piece.2) 0

/-- Faults and tree tell the same. -/
structure Accountable (document : Document) (comments : CommentMarkers) : Prop where
  items : ∀ id, id ∈ document.items ↔
    id < document.forest.size ∧ Relation.ReflTransGen document.forest.Owns document.root id
  once : document.items.Nodup
  /-- Open braces, open code blocks and open text constants. -/
  lacks : ∀ flaw : Flaw,
    document.reports flaw.code = document.items.countP (document.forest.lacks flaw)
  comment : document.reports .commentNotClosed =
    if comments.runsOut document.text document.lastStop then 1 else 0
  series : (∃ id ∈ document.items, document.forest.kind? id = some .series) ↔
    ∃ fault ∈ document.faults, fault.code.degrades = true
  clean : document.faults = [] →
    (∀ id ∈ document.items, (∀ flaw, document.forest.lacks flaw id = false) ∧
      document.forest.kind? id ≠ some .series) ∧
    comments.runsOut document.text document.lastStop = false

end Document

open ParseState

namespace Grammar

variable {grammar : Grammar} {config : Config} {isLiteralChar : Char → Nat → Bool}

/-- From the root alone the parser accounts for all that it adds. -/
theorem fair_of_calm (built : build config isLiteralChar [] = .ok grammar) (text : String)
    (calm : (grammar.parse text).faults.hasCritical = false) :
    Fair (grammar.parse text).forest.marks (grammar.parse text).faults := by
  obtain ⟨_, plain⟩ := named_of_build built
  have early := @hasCritical_iff_stopsEarly grammar (Text.ofString text)
  cases run : grammar.rootLoop (Text.ofString text).size (grammar.initialState (Text.ofString text)) with
  | error stopped t =>
      exact absurd (calm.symm.trans (early.mpr ⟨stopped, t, run⟩)) nofun
  | ok _ t =>
      have accounted : Parse.Accounted (fun _ _ => True) (grammar.rootLoop (Text.ofString text).size) :=
        Parse.accounted_rootStatements (Parse.accounted_segment plain _) _
      obtain ⟨_, marks, faults, grown, added, fair⟩ := (accounted _).of_ok run
      have final : grammar.finalState (Text.ofString text) = t := finalState_of_ok run
      have forest : (grammar.parse text).forest.marks = [.whole] ++ marks := by
        rw [← final] at grown
        exact grown
      have noted : (grammar.parse text).faults = faults := by
        rw [← final] at added
        exact added
      rw [forest, noted]
      exact Fair.whole.append fair

theorem comment_of_calm (built : build config isLiteralChar [] = .ok grammar) (text : String)
    (calm : (grammar.parse text).faults.hasCritical = false) :
    (grammar.parse text).reports .commentNotClosed =
      if grammar.comments.runsOut (Text.ofString text) (grammar.parse text).lastStop then 1 else 0 := by
  obtain ⟨row, same, tally⟩ := exists_tally built text calm
  have spaced : grammar.comments.Spaced (Text.ofString text) 0 row (Text.ofString text).size :=
    tally.spaced
  have counted : (grammar.parse text).faults.openComments =
      grammar.comments.countRunsOut (Text.ofString text) 0 row (Text.ofString text).size :=
    tally.unclosed.trans (Nat.zero_add _)
  have commutes : RightCommutative fun (stop : Nat) (piece : Nat × Nat) => max stop piece.2 :=
    ⟨fun stop one other => by simp only [Nat.max_assoc, Nat.max_comm one.2]⟩
  have last : (grammar.parse text).lastStop = CommentMarkers.lastStop 0 row := by
    rw [spaced.lastStop_eq]
    exact (same.foldl_eq 0).symm
  have reports : (grammar.parse text).reports .commentNotClosed =
      (grammar.parse text).faults.openComments := (List.countP_eq_length_filter).symm
  rw [reports, counted, spaced.countRunsOut_eq (Nat.le_refl _), last]
  split
  · rename_i atEnd
    rw [← atEnd, CommentMarkers.runsOut_of_settled (CommentMarkers.settled_of_size_le (Nat.le_refl _))]
    rfl
  · cases grammar.comments.runsOut (Text.ofString text) (CommentMarkers.lastStop 0 row) <;> rfl

/-- Whatever is missing from a text is accounted for if the parser comes to its end and no extension
takes part. -/
theorem parse_accounts_for_degradation (built : build config isLiteralChar [] = .ok grammar)
    (text : String) (calm : (grammar.parse text).faults.hasCritical = false) :
    (grammar.parse text).Accountable grammar.comments := by
  obtain ⟨rooted, _⟩ := rooted_of_calm built text calm
  obtain ⟨_, _, standing⟩ := rooted.standing
  have reached : ∀ id < (grammar.parse text).forest.size,
      Relation.ReflTransGen (grammar.parse text).forest.Owns 0 id := fun _ inside => rooted.below inside
  have all : (grammar.parse text).items = List.range (grammar.parse text).forest.size :=
    List.filter_eq_self.mpr fun id member =>
      (standing.sound.linked.isAncestorOrSelf_iff (List.mem_range.mp member)).mpr
        (reached id (List.mem_range.mp member))
  have fair := fair_of_calm built text calm
  have lacks : ∀ flaw : Flaw, (grammar.parse text).reports flaw.code =
      (grammar.parse text).items.countP ((grammar.parse text).forest.lacks flaw) := by
    intro flaw
    have each := fair.each flaw
    rw [Forest.count_marks, ← all] at each
    exact (List.countP_eq_length_filter).symm.trans each.symm
  have comment := comment_of_calm built text calm
  have series : (∃ id ∈ (grammar.parse text).items,
      (grammar.parse text).forest.kind? id = some .series) ↔
        ∃ fault ∈ (grammar.parse text).faults, fault.code.degrades = true := by
    rw [all]
    simp only [List.mem_range]
    exact Forest.series_mem_marks.symm.trans fair.series
  refine ⟨fun id => ?_, ?_, lacks, comment, series, fun none => ⟨fun id member => ⟨?_, ?_⟩, ?_⟩⟩
  · rw [all, List.mem_range]
    exact ⟨fun inside => ⟨inside, reached id inside⟩, And.left⟩
  · exact List.nodup_range.filter _
  · intro flaw
    have reported := lacks flaw
    rw [Document.reports, none] at reported
    exact Bool.eq_false_iff.mpr (List.countP_eq_zero.mp reported.symm id member)
  · intro isSeries
    obtain ⟨fault, inFaults, _⟩ := series.mp ⟨id, member, isSeries⟩
    rw [none] at inFaults
    cases inFaults
  · rw [Document.reports, none] at comment
    cases out : grammar.comments.runsOut (Text.ofString text) (grammar.parse text).lastStop with
    | false => exact out
    | true => rw [out] at comment; cases comment

/-- Nothing in this text comes to its end, and all of it is reported. -/
theorem accounts_for_open_constructs :
    build sampleConfig stockLiteralChar [] = .ok (sampleGrammar []) ∧
      ((sampleGrammar []).parse "f(a b \x7b \"c\" /* d").faults.map Fault.code =
        [.commentNotClosed, .codeBlockEndMarkerMissing, .noSeparationBetweenSymbols,
          .closingBraceMissing] ∧
      ((sampleGrammar []).parse "f(a b \x7b \"c\" /* d").Accountable (sampleGrammar []).comments :=
  ⟨build_sample, by decide +kernel, parse_accounts_for_degradation build_sample _ (by decide +kernel)⟩

end Grammar

end ExprLang
