import ExprLang.Proofs.Fields.Segments
import ExprLang.Proofs.Language
import ExprLang.Proofs.Stopping

/-!
The tree of a parse agrees with itself. The root is being made all the time, so it is looked at between
two of the steps that change it. A step of the loop over the statements that stops has changed nothing
below the items it found, and so what hangs on the root afterwards is what hung there before.
-/

namespace ExprLang

open Forest (Filled IsComplex Closed Built Owns)
open Relation (ReflTransGen)

/-! The root -/

namespace ItemKind

variable {tokenKind? : ItemId → Option TokenKind} {regular children statements separators : List ItemId}
  {item : ItemId}

theorem Agrees.addStatement
    (agrees : (root statements separators).Agrees tokenKind? regular children)
    (complex : tokenKind? item = none) :
    (root (statements ++ [item]) separators).Agrees tokenKind? (regular ++ [item])
      (children ++ [item]) := by
  obtain ⟨rfl, rfl, isStatement, isSeparator⟩ := agrees
  have others : ∀ part ∈ regular, (part ∉ statements ++ [item]) ↔ part ∉ statements := by
    intro part member
    refine ⟨fun notIn inStatements => notIn (List.mem_append_left _ inStatements), ?_⟩
    intro notIn inAll
    rcases List.mem_append.mp inAll with inStatements | isItem
    · exact notIn inStatements
    · have separates := isSeparator part (List.mem_filter.mpr ⟨member, by simpa using notIn⟩)
      rw [List.mem_singleton.mp isItem, complex] at separates
      cases separates
  have kept : regular.filter (· ∉ statements ++ [item]) = regular.filter (· ∉ statements) :=
    List.filter_congr fun part member => by simp only [others part member]
  refine ⟨rfl, ?_, fun statement member => ?_, isSeparator⟩
  · rw [List.filter_append, kept]
    simp
  · rcases List.mem_append.mp member with old | new
    · exact isStatement statement old
    · exact List.mem_singleton.mp new ▸ complex

theorem Agrees.addSeparator
    (agrees : (root statements separators).Agrees tokenKind? regular children)
    (separates : tokenKind? item = some .separator) :
    (root statements (separators ++ [item])).Agrees tokenKind? (regular ++ [item]) children := by
  obtain ⟨rfl, rfl, isStatement, isSeparator⟩ := agrees
  have noStatement : item ∉ statements := fun member => by
    rw [isStatement item member] at separates
    cases separates
  refine ⟨rfl, by simp [List.filter_append, noStatement], isStatement, fun separator member => ?_⟩
  rcases List.mem_append.mp member with old | new
  · exact isSeparator separator old
  · exact List.mem_singleton.mp new ▸ separates

end ItemKind

namespace Forest

/-- Every item agrees with itself, and the first one is a root. -/
structure Consistent (forest : Forest) : Prop where
  closed : forest.Closed
  agree : ∀ id < forest.size, forest.Agrees id
  root : ∃ statements separators, forest.kind? 0 = some (.root statements separators)

/-- What was there is still there. -/
structure Spares (before after : Forest) : Prop where
  size : before.size ≤ after.size
  same : ∀ id < before.size, after.parts id = before.parts id ∧ after.kind? id = before.kind? id

variable {before after : Forest}

theorem Consistent.filled (consistent : before.Consistent) (filled : Filled [] before after) :
    after.Consistent where
  closed := filled.closed
  agree id inside := by
    by_cases old : id < before.size
    · exact (consistent.agree id old).stays consistent.closed (filled.kept id old List.not_mem_nil)
        filled.tokens
    · exact filled.agree id (Nat.le_of_not_lt old) inside
  root := by
    obtain ⟨statements, separators, isRoot⟩ := consistent.root
    exact ⟨statements, separators,
      (filled.kept 0 (lt_size_of_kind isRoot) List.not_mem_nil).kind.trans isRoot⟩

/-- The root itself may change, too. -/
theorem Consistent.built (consistent : before.Consistent) {statements separators regular children}
    (built : Built 0 (.root statements separators) regular children before after)
    (agrees : (ItemKind.root statements separators).Agrees after.tokenKind? regular children) :
    after.Consistent where
  closed := built.filled.closed
  agree id inside := by
    by_cases isRoot : id = 0
    · subst isRoot
      intro kind isKind
      obtain rfl : ItemKind.root statements separators = kind :=
        Option.some.inj (built.kind.symm.trans isKind)
      rw [built.regular, built.children]
      exact agrees
    · by_cases old : id < before.size
      · exact (consistent.agree id old).stays consistent.closed
          (built.filled.kept id old (by simpa using isRoot)) built.filled.tokens
      · exact built.filled.agree id (Nat.le_of_not_lt old) inside
  root := ⟨statements, separators, built.kind⟩

theorem spares_of_eq (same : after = before) : Spares before after :=
  ⟨same ▸ Nat.le_refl _, fun _ _ => same ▸ ⟨rfl, rfl⟩⟩

theorem Spares.owns (spares : Spares before after) (closed : before.Closed) {root id : ItemId}
    (inside : root < before.size) (reached : ReflTransGen after.Owns root id) : id < before.size := by
  induction reached with
  | refl => exact inside
  | @tail owner part _ owns ih =>
      rw [Owns, (spares.same owner ih).1] at owns
      exact closed.parts owner part (List.mem_append_left _ owns)

theorem Spares.agrees (spares : Spares before after) (consistent : before.Consistent) {id : ItemId}
    (inside : id < before.size) : after.Agrees id := by
  have same := spares.same id inside
  exact (consistent.agree id inside).stays consistent.closed (sameFields_of_parts same.1 same.2)
    fun other inside => tokenKind_of_kind (spares.same other inside).2

end Forest

open Forest (Consistent Spares)

namespace Parse

variable {grammar : Grammar} {inner : Inner} {s : ParseState}

/-- The root between two changes. -/
theorem built_root (consistent : s.forest.Consistent) :
    ∃ statements separators,
      Built 0 (.root statements separators) (s.forest.parts 0).regular (s.forest.parts 0).children
        s.forest s.forest ∧
      (ItemKind.root statements separators).Agrees s.forest.tokenKind? (s.forest.parts 0).regular
        (s.forest.parts 0).children := by
  obtain ⟨statements, separators, isRoot⟩ := consistent.root
  have inside := Forest.lt_size_of_kind isRoot
  have filled : Filled [0] s.forest s.forest :=
    Forest.filled_refl consistent.closed (by simpa using inside)
  exact ⟨statements, separators, ⟨filled, isRoot, rfl, rfl⟩, consistent.agree 0 inside _ isRoot⟩

theorem consistent_addStatement (consistent : s.forest.Consistent) {item : ItemId}
    (complex : s.forest.IsComplex item) :
    Ends (addStatement 0 item) s (fun _ t => t.forest.Consistent)
      (fun _ t => Spares s.forest t.forest) := by
  obtain ⟨statements, separators, built, agrees⟩ := built_root consistent
  have stops : Ends (addStatement 0 item) s (fun _ _ => True) fun _ t => t.forest = s.forest :=
    Ends.bind (RootStage.ends_attach true) (fun _ _ _ => ends_ok rfl trivial) fun _ _ same => same
  refine ((ends_addStatement_built built rfl rfl).and stops).imp ?_ ?_
  · intro _ t reached
    obtain ⟨⟨filled, builtHere⟩, _⟩ := reached
    refine consistent.built builtHere (ItemKind.Agrees.addStatement ?_ (complex.stays filled).noToken)
    exact Forest.agrees_of_tokens consistent.closed filled.tokens agrees
  · exact fun _ t reached => Forest.spares_of_eq reached.2

theorem spares_push {forest : Forest} {new : Item} (bare : new.parts = {}) :
    Spares forest (forest.push new).2 where
  size := by rw [Forest.size_push]; exact Nat.le_succ _
  same id inside := ⟨Forest.parts_push_old bare, Forest.kind_push_old inside⟩

theorem consistent_addSeparator (consistent : s.forest.Consistent) {place : Nat} :
    Ends (addSeparator 0 place) s (fun _ t => t.forest.Consistent)
      (fun _ t => Spares s.forest t.forest) := by
  obtain ⟨statements, separators, built, agrees⟩ := built_root consistent
  have stops : Ends (addSeparator 0 place) s (fun _ _ => True)
      fun _ t => Spares s.forest t.forest := by
    unfold addSeparator
    simp only [ends_slice_bind, ends_createToken_bind]
    refine Ends.bind (RootStage.ends_attach false) (fun _ _ _ => ends_ok rfl trivial) ?_
    intro _ t same
    rw [same]
    exact spares_push rfl
  refine ((ends_addSeparator_built built rfl fun _ => rfl).and stops).imp ?_ fun _ _ reached => reached.2
  intro _ t reached
  obtain ⟨⟨token, separated⟩, _⟩ := reached
  refine consistent.built separated.built (ItemKind.Agrees.addSeparator ?_ separated.isSeparator)
  exact Forest.agrees_of_tokens consistent.closed separated.filled.tokens agrees

theorem consistent_afterStatement (consistent : s.forest.Consistent) {start : Nat}
    {closedByBlock : Bool} :
    Ends (afterStatement grammar 0 start closedByBlock) s (fun _ t => t.forest.Consistent)
      (fun _ t => Spares s.forest t.forest) := by
  unfold afterStatement
  refine Ends.bind ends_skipGap ?_ fun _ _ never => never.elim
  intro _ t reached
  obtain ⟨same, _⟩ := reached
  rw [← same] at consistent ⊢
  simp only [ends_position_bind, ends_current_bind]
  split
  · exact ends_pure consistent
  · split
    · refine Ends.bind (consistent_addSeparator consistent) ?_ fun _ _ spares => spares
      exact fun _ _ still => ends_pure still
    · split
      · exact ends_pure consistent
      · simp only [ends_text_bind]
        split
        · exact ends_ok rfl consistent
        · split
          · exact ends_ok rfl consistent
          · split
            · exact ends_error rfl (Forest.spares_of_eq rfl)
            · exact ends_pure consistent

/-- Where the loop stops, the root and what hangs on it are those of a consistent forest. -/
theorem consistent_rootStatements (contained : InnerContained inner) (fills : InnerFills inner)
    (passes : Nat) : ∀ {s : ParseState}, s.forest.Consistent →
      Ends (rootStatements grammar inner 0 passes) s (fun _ t => t.forest.Consistent)
        (fun _ t => ∃ forest, forest.Consistent ∧ Spares forest t.forest) := by
  induction passes with
  | zero => exact fun consistent => ends_error rfl ⟨_, consistent, Forest.spares_of_eq rfl⟩
  | succ passes ih =>
      intro s consistent
      unfold rootStatements
      simp only [ends_position_bind]
      have first := (contained s.forest.size .root s consistent.closed.at_size).and
        (fills .root s consistent.closed (by simp))
      refine Ends.bind first ?_ ?_
      · intro segment t reached
        obtain ⟨_, complex, filled⟩ := reached
        have consistentHere := consistent.filled filled
        have added : Ends (segment.item.forM (addStatement 0)) t (fun _ u => u.forest.Consistent)
            (fun _ u => Spares t.forest u.forest) := by
          cases isItem : segment.item with
          | none => exact ends_pure consistentHere
          | some item => exact consistent_addStatement consistentHere (complex item (by simp [isItem]))
        refine Ends.bind added ?_ fun _ _ spares => ⟨t.forest, consistentHere, spares⟩
        intro _ u consistentAdded
        refine Ends.bind (consistent_afterStatement consistentAdded) ?_
          fun _ _ spares => ⟨u.forest, consistentAdded, spares⟩
        intro again v consistentBehind
        cases again with
        | true => exact ih consistentBehind
        | false => exact ends_pure consistentBehind
      · intro _ t reached
        obtain ⟨⟨above, _⟩, _⟩ := reached
        exact ⟨s.forest, consistent, above.holds.size, fun id inside => above.untouched.same inside⟩

end Parse

namespace Grammar

variable (grammar : Grammar)

theorem consistent_initialState (text : Text) : (grammar.initialState text).forest.Consistent where
  closed := grammar.closed_initialState text
  agree id inside := by
    obtain rfl : id = 0 := Nat.lt_one_iff.mp inside
    intro kind isKind
    obtain rfl : ItemKind.root [] [] = kind := Option.some.inj isKind
    exact ⟨rfl, rfl, by simp, by simp⟩
  root := ⟨[], [], rfl⟩

/-- What hangs on the root of a parse hangs on the root of a consistent forest. -/
theorem exists_consistent (text : Text) :
    ∃ forest, forest.Consistent ∧ Spares forest (grammar.finalState text).forest := by
  have ends : Ends (grammar.rootLoop text.size) (grammar.initialState text)
      (fun _ t => t.forest.Consistent) (fun _ t => ∃ forest, forest.Consistent ∧ Spares forest t.forest) :=
    Parse.consistent_rootStatements (Parse.contained_segment grammar _) (Parse.fills_segment grammar _) _
      (grammar.consistent_initialState text)
  cases run : grammar.rootLoop text.size (grammar.initialState text) with
  | ok value t =>
      rw [finalState_of_ok run]
      exact ⟨t.forest, ends.of_ok run, Forest.spares_of_eq rfl⟩
  | error stopped t =>
      rw [finalState_of_error run]
      exact ends.of_error run

/-- The fields of every item that hangs on the root of a parse agree with its parts, whatever the
language, its extensions and the text are. -/
theorem fields_agree_with_parts (text : String) (id : ItemId)
    (reached : ReflTransGen (grammar.parse text).forest.Owns (grammar.parse text).root id) :
    id < (grammar.parse text).forest.size ∧ (grammar.parse text).forest.Agrees id := by
  obtain ⟨forest, consistent, spares⟩ := grammar.exists_consistent (Text.ofString text)
  obtain ⟨statements, separators, isRoot⟩ := consistent.root
  have inside := spares.owns consistent.closed (Forest.lt_size_of_kind isRoot) reached
  exact ⟨Nat.lt_of_lt_of_le inside spares.size, spares.agrees consistent inside⟩

def callDocument : Document := (sampleGrammar []).parse "F(a, , b + c)"

/-- Braces with an empty place between their two commas. -/
theorem empty_place_is_a_parameter :
    callDocument.forest.kind? 4 =
        some (.braces .round (some 1) 3 (some 16) [some 5, none, some 15]) ∧
      (callDocument.forest.parts 4).regular = [1, 3, 5, 7, 8, 15, 16] ∧
      ReflTransGen callDocument.forest.Owns callDocument.root 4 ∧
      4 < callDocument.forest.size ∧ callDocument.forest.Agrees 4 := by
  have owns : 4 ∈ (callDocument.forest.parts callDocument.root).all := by decide +kernel
  have reached : ReflTransGen callDocument.forest.Owns callDocument.root 4 := .single owns
  have agrees := (sampleGrammar []).fields_agree_with_parts "F(a, , b + c)" 4 reached
  exact ⟨by decide +kernel, by decide +kernel, reached, agrees⟩

end Grammar

end ExprLang
