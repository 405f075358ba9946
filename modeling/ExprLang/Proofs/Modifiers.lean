import ExprLang.Proofs.Degradation
import ExprLang.Proofs.Fields
import ExprLang.Proofs.Modifiers.Segments
import ExprLang.Proofs.Modifiers.TextOrder

/-!
Prefixes and keywords belong to what follows them. What stands in front of a whole segment belongs to its
item, and what stands further behind to the next operand. No other item has prefixes or keywords.
-/

namespace ExprLang

open Relation (ReflTransGen)

namespace Forest

def IsOperator (forest : Forest) (id : ItemId) : Prop :=
  ∃ number kind priority words operand right,
    forest.kind? id = some (.operator number kind priority words operand right)

end Forest

namespace Document

/-- The modifiers of a segment, whose operators and operands are those of the tree, are where they
belong. -/
structure Assigns (document : Document) (comments : CommentMarkers) (tree : ItemTree) : Prop where
  /-- Only the root and the operands have modifiers, and an operand in front has none of its own. -/
  routed : document.forest.Routed tree
  heads : ∀ head ∈ tree.heads, document.forest.IsHead head
  alternates : tree.heads.IsChain fun head next =>
    document.forest.IsWords head ∨ document.forest.IsWords next
  filed : ∀ item ∈ tree.items, document.forest.Filed item
  whole : document.forest.tokens tree.root =
    (document.forest.written tree).flatMap document.forest.tokens
  /-- The modifiers of the root are followed by the first head, and each other head follows its own
  modifiers; nothing but gaps is between them. -/
  row : (document.forest.written tree).IsChain fun part next =>
    comments.gapEnd document.text (document.forest.stop part) = document.forest.start next

/-- Every segment has its modifiers where they belong, and there are no others. -/
structure WellModified (document : Document) (comments : CommentMarkers) : Prop where
  segments : ∀ construct segment, document.forest.IsSegment construct segment →
    ∃ tree : ItemTree, tree.root = segment ∧ document.Assigns comments tree
  others : ∀ owner part, document.forest.Owns owner part → document.forest.modifiers part ≠ [] →
    document.forest.IsSegment owner part ∨ document.forest.IsOperator owner
  root : document.forest.modifiers document.root = []

/-! Tokens one behind the other -/

variable {document : Document} {comments : CommentMarkers}

theorem isChain_of_gaps {gapEnd : Nat → Nat} {row : List (Nat × Nat)} {start size : Nat}
    (gaps : (start :: row.map Prod.snd).map gapEnd = row.map Prod.fst ++ [size]) :
    row.IsChain fun piece next => gapEnd piece.2 = next.1 := by
  induction row generalizing start with
  | nil => exact List.isChain_nil
  | cons piece rest ih =>
      obtain ⟨_, behind⟩ := List.cons.inj gaps
      refine List.isChain_cons.mpr ⟨fun next isNext => ?_, ih behind⟩
      cases rest with
      | nil => cases isNext
      | cons other rest =>
          obtain rfl : other = next := Option.some.inj isNext
          exact (List.cons.inj behind).1

/-- Where nothing has been dropped, the gap behind a token reaches up to the next one. -/
theorem Lossless.adjoining (lossless : document.Lossless comments) (clean : document.faults = []) :
    document.tokens.IsChain fun token next =>
      comments.gapEnd document.text (document.forest.stop token) = document.forest.start next := by
  have pieces : document.pieces = document.tokens.map document.forest.span := by
    rw [Document.pieces, clean]
    exact List.append_nil _
  obtain ⟨row, same, sorted, gaps⟩ := lossless.gaps
  have filled := lossless.filled
  rw [pieces] at same filled
  have inOrder : (document.tokens.map document.forest.span).Pairwise fun left right => left.2 ≤ right.1 :=
    List.pairwise_map.mpr (lossless.inOrder.imp And.right)
  obtain rfl : row = document.tokens.map document.forest.span := by
    refine same.eq_of_pairwise (fun left right isLeft isRight before behind => ?_) sorted inOrder
    have first := filled left (same.mem_iff.mp isLeft)
    have second := filled right isRight
    omega
  exact (List.isChain_map _).mp (isChain_of_gaps gaps)

end Document

open Forest

namespace Forest

variable {forest : Forest}

theorem IsOperand.isHead {id : ItemId} (isOperand : forest.IsOperand id)
    (noSeries : forest.kind? id ≠ some .series) : forest.IsHead id := by
  obtain ⟨kind, isKind, isOperand⟩ := isOperand
  refine ⟨kind, isKind, ?_⟩
  cases kind with
  | series => exact absurd isKind noSeries
  | _ => first | rfl | cases isOperand

end Forest

namespace Grammar

variable {grammar : Grammar} {config : Config} {isLiteralChar : Char → Nat → Bool}

theorem collecting_initialState (grammar : Grammar) (text : Text) :
    Parse.Collecting (grammar.initialState text).forest 0 :=
  ⟨.root [] [], rfl, rfl, by rintro _ ⟨⟩⟩

theorem parts_initialState (grammar : Grammar) (text : Text) (id : ItemId) :
    (grammar.initialState text).forest.parts id = {} := by
  cases id <;> rfl

theorem neat_initialState (grammar : Grammar) (text : Text) : (grammar.initialState text).forest.Neat where
  closed := grammar.closed_initialState text
  filed owner := by constructor <;> simp [parts_initialState, Forest.body]
  flat := by
    intro id item found _
    obtain ⟨inside, rfl⟩ := Array.getElem?_eq_some_iff.mp found
    obtain rfl : id = 0 := Nat.lt_one_iff.mp inside
    rfl

/-- A parse without a critical fault has collected its statements from the root alone. -/
theorem collects_of_calm (built : build config isLiteralChar [] = .ok grammar) (text : String)
    (calm : (grammar.parse text).faults.hasCritical = false) :
    Parse.Collects 0 (grammar.initialState (Text.ofString text)).forest (grammar.parse text).forest := by
  obtain ⟨_, plain⟩ := named_of_build built
  have early := @hasCritical_iff_stopsEarly grammar (Text.ofString text)
  cases run : grammar.rootLoop (Text.ofString text).size (grammar.initialState (Text.ofString text)) with
  | error stopped t => exact absurd (calm.symm.trans (early.mpr ⟨stopped, t, run⟩)) nofun
  | ok _ t =>
      have final : grammar.finalState (Text.ofString text) = t := finalState_of_ok run
      have ends : Ends (grammar.rootLoop (Text.ofString text).size)
          (grammar.initialState (Text.ofString text))
          (fun _ t => Parse.Collects 0 (grammar.initialState (Text.ofString text)).forest t.forest)
          fun _ _ => True :=
        Parse.ends_rootStatements_collects (Parse.guides_segment plain _) _
          (grammar.neat_initialState (Text.ofString text))
          (grammar.collecting_initialState (Text.ofString text))
      have forest : (grammar.parse text).forest = t.forest := congrArg ParseState.forest final
      exact forest ▸ ends.of_ok run

section Collected

variable {text : Text} {forest : Forest}
  (collects : Parse.Collects 0 (grammar.initialState text).forest forest)

include collects

theorem routed_of_collects {construct segment : ItemId} (isSegment : forest.IsSegment construct segment) :
    ∃ tree : ItemTree, tree.root = segment ∧ forest.Routed tree := by
  have routed : forest.RoutedFrom (construct + 1) [] segment := by
    rcases Nat.eq_zero_or_pos construct with rfl | positive
    · obtain ⟨kind, isKind, _, routed⟩ := collects.collecting
      obtain ⟨other, isOther, member⟩ := isSegment
      obtain rfl := Option.some.inj (isKind.symm.trans isOther)
      exact routed segment member
    · exact (collects.guided.minds construct positive).segments segment isSegment
  obtain ⟨tree, isRoot, routed, _⟩ := routed
  exact ⟨tree, isRoot, routed⟩

theorem modified_of_collects {owner part : ItemId} (owns : forest.Owns owner part)
    (modified : forest.modifiers part ≠ []) : forest.IsSegment owner part ∨ forest.IsJoint owner := by
  rcases Nat.eq_zero_or_pos owner with rfl | positive
  · rcases collects.grows part owns with old | isSegment | aside
    · rw [parts_initialState] at old
      cases old
    · exact Or.inl isSegment
    · exact absurd aside.bare modified
  · by_cases isJoint : forest.IsJoint owner
    · exact Or.inr isJoint
    · refine Or.inl (((collects.guided.minds owner positive).parts isJoint part owns).resolve_right ?_)
      exact fun aside => modified aside.bare

end Collected

/-- In a text without faults every prefix and every keyword belongs to what follows it, if no extension
takes part. -/
theorem parse_assigns_modifiers (built : build config isLiteralChar [] = .ok grammar) (text : String)
    (clean : (grammar.parse text).faults = []) :
    (grammar.parse text).WellModified grammar.comments := by
  have calm : (grammar.parse text).faults.hasCritical = false := by rw [clean]; rfl
  have collects := collects_of_calm built text calm
  obtain ⟨rooted, _⟩ := rooted_of_calm built text calm
  obtain ⟨_, _, standing⟩ := rooted.standing
  have sound : (grammar.parse text).forest.Sound := standing.sound
  have agree : ∀ id < (grammar.parse text).forest.size, (grammar.parse text).forest.Agrees id :=
    fun id inside => (grammar.fields_agree_with_parts text id (rooted.below inside)).2
  have accounted := parse_accounts_for_degradation built text calm
  have noSeries : ∀ id, (grammar.parse text).forest.kind? id ≠ some .series := fun id isSeries => by
    have inside := lt_size_of_kind isSeries
    have member := (accounted.items id).mpr ⟨inside, rooted.below inside⟩
    exact ((accounted.clean clean).1 id member).2 isSeries
  have adjoining := (parse_is_lossless built text calm).adjoining clean
  refine ⟨fun construct segment isSegment => ?_, fun owner part owns modified => ?_, ?_⟩
  · obtain ⟨tree, isRoot, routed⟩ := routed_of_collects collects isSegment
    have stores := routed.stores
    have whole := routed.tokens_eq agree sound.linked
    refine ⟨tree, isRoot, routed, fun head member => ?_, stores.alternates,
      fun item _ => collects.guided.neat.filed item, whole, ?_⟩
    · rcases stores.of_head member with isOperand | isWords
      · exact isOperand.isHead (noSeries head)
      · obtain ⟨_, _, _, isKind⟩ := isWords.kind
        exact ⟨_, isKind, rfl⟩
    · have tokens := adjoining.infix
        (sound.linked.tokens_infix (rooted.below (stores.lt_size _ tree.root_mem_items)))
      rw [whole] at tokens
      refine isChain_of_tokens
        (R := fun stop start => grammar.comments.gapEnd (Text.ofString text) stop = start)
        (fun part member => ?_) tokens
      obtain ⟨owner, owns⟩ := exists_owner_of_written member
      exact sound.covers (standing.strict trivial).plain collects.guided.neat.flat owns
  · refine (modified_of_collects collects owns modified).imp_right ?_
    rintro ⟨kind, isKind, isJoint⟩
    cases kind with
    | operator number kind priority words operand right => exact ⟨_, _, _, _, _, _, isKind⟩
    | series => exact absurd isKind (noSeries owner)
    | _ => cases isJoint
  · exact collects.modifiers.trans rfl

def modifiedDocument : Document := (sampleGrammar []).parse "(a) const x + (b) const y; \x7bconst w\x7d"

/-- The first modifiers belong to the sum, the others to its second operand and to the statement in the
block. -/
theorem modifiers_of_sum_and_operand :
    build sampleConfig stockLiteralChar [] = .ok (sampleGrammar []) ∧ modifiedDocument.faults = [] ∧
      modifiedDocument.forest.kind? 19 = some (.operator 1 .binary 4 17 7 (some 15)) ∧
      modifiedDocument.forest.modifiers 19 = [2, 6] ∧ modifiedDocument.forest.modifiers 7 = [] ∧
      modifiedDocument.forest.modifiers 15 = [10, 14] ∧ modifiedDocument.forest.modifiers 24 = [23] ∧
      modifiedDocument.WellModified (sampleGrammar []).comments :=
  ⟨build_sample, by decide +kernel, by decide +kernel, by decide +kernel, by decide +kernel,
    by decide +kernel, by decide +kernel, parse_assigns_modifiers build_sample _ (by decide +kernel)⟩

end Grammar

end ExprLang
