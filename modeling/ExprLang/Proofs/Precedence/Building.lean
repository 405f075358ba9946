import ExprLang.Proofs.Parse.Resolving
import ExprLang.Proofs.Precedence.Run

/-!
The items of an operator tree. What the parser builds of a row of slots is read back from the items:
every node names its operator, its operands and the words it is written with, and below it stand the
nodes of the smaller trees.
-/

namespace ExprLang

open Held (item)

open ParseState

def Chosen.itemKind (chosen : Chosen) (info operand : ItemId) (right : Option ItemId) : ItemKind :=
  .operator chosen.operator.id chosen.operator.kind chosen.operator.priority info operand right

/-- The parts of an operator item, in text order. -/
def Chosen.parts (chosen : Chosen) (info operand : ItemId) (right : Option ItemId) : Parts :=
  match chosen.operator.kind with
  | .prefixOp => { regular := [info, operand], children := [operand] }
  | .postfixOp => { regular := [operand, info], children := [operand] }
  | .binary => { regular := operand :: info :: right.toList, children := operand :: right.toList }

namespace Forest

/-- A token for a word of an operator, where it stands. -/
def ShowsWord (forest : Forest) (word : Nat × String) (token : ItemId) : Prop :=
  forest.face? token = some (.token .operatorNamePart word.2, word.1, word.2.length)

/-- The operator as it is written. -/
structure ShowsInfo (forest : Forest) (chosen : Chosen) (info : ItemId) : Prop where
  kind : forest.kind? info =
    some (.operatorInfo chosen.operator.id chosen.operator.kind chosen.operator.name)
  words : ∃ tokens, forest.parts info = { regular := tokens } ∧
    List.Forall₂ forest.ShowsWord chosen.written.parts tokens

/-- An operator with its operands. -/
structure ShowsOperator (forest : Forest) (chosen : Chosen) (operand : ItemId)
    (right : Option ItemId) (node : ItemId) : Prop where
  shown : ∃ info, forest.ShowsInfo chosen info ∧
    forest.kind? node = some (chosen.itemKind info operand right) ∧
    forest.parts node = chosen.parts info operand right

/-- The items below `node` make up the tree. -/
def Shows (forest : Forest) : OperatorTree → ItemId → Prop
  | .operand leaf, node => node = leaf
  | .unary chosen inside, node => ∃ operand,
      forest.ShowsOperator chosen operand none node ∧ forest.Shows inside operand
  | .binary chosen left right, node => ∃ first second,
      forest.ShowsOperator chosen first (some second) node ∧ forest.Shows left first ∧
        forest.Shows right second

end Forest

namespace ParseState.Steady

variable {s t : ParseState} {chosen : Chosen} {info operand node : Nat} {right : Option ItemId}

theorem kinds (steady : Steady s t) {id : Nat} (inside : id < s.forest.size) :
    t.forest.kind? id = s.forest.kind? id := by
  rw [Forest.kind_eq_face, steady.faces id inside, Forest.kind_eq_face]

theorem showsInfo (steady : Steady s t) (written : s.forest.ShowsInfo chosen info) :
    t.forest.ShowsInfo chosen info := by
  have inside := Forest.lt_size_of_kind written.kind
  obtain ⟨tokens, parts, words⟩ := written.words
  refine ⟨(steady.kinds inside).trans written.kind, tokens, (steady.parts info inside).trans parts,
    words.imp fun word token shown => ?_⟩
  exact (steady.faces token (Forest.lt_size_of_face shown)).trans shown

theorem showsOperator (steady : Steady s t)
    (written : s.forest.ShowsOperator chosen operand right node) :
    t.forest.ShowsOperator chosen operand right node := by
  obtain ⟨info, written, kind, parts⟩ := written.shown
  have inside := Forest.lt_size_of_kind kind
  exact ⟨info, steady.showsInfo written, (steady.kinds inside).trans kind,
    (steady.parts node inside).trans parts⟩

/-- What has been built is not touched again. -/
theorem shows (steady : Steady s t) {tree : OperatorTree} {node : Nat}
    (shown : s.forest.Shows tree node) : t.forest.Shows tree node := by
  induction tree generalizing node with
  | operand leaf => exact shown
  | unary chosen inside ih =>
      obtain ⟨operand, top, below⟩ := shown
      exact ⟨operand, steady.showsOperator top, ih below⟩
  | binary chosen left right ihLeft ihRight =>
      obtain ⟨first, second, top, belowLeft, belowRight⟩ := shown
      exact ⟨first, second, steady.showsOperator top, ihLeft belowLeft, ihRight belowRight⟩

end ParseState.Steady

namespace Parse

variable {s t : ParseState} {chosen : Chosen}

/-- What `owner` becomes when it takes one more regular part. -/
def taking (parts : Parts) (part : ItemId) (isChild : Bool) : Parts :=
  { parts with
    regular := parts.regular ++ [part]
    children := if isChild then parts.children ++ [part] else parts.children }

/-- A part that is attached becomes a part of its owner, and nothing else changes. -/
theorem ends_attached (steady : Steady s t) {owner part : Nat} (isChild : Bool) {parts : Parts}
    (new : s.forest.size ≤ owner) (before : t.forest.parts owner = parts) :
    Ends (attach (·.attach owner part .regular isChild)) t
      (fun _ u => Steady s u ∧ u.forest.size = t.forest.size ∧ u.forest.face? = t.forest.face? ∧
        u.forest.parts owner = taking parts part isChild) (fun _ _ => True) := by
  unfold attach attachOr
  simp only [ends_forest_bind]
  cases attached : t.forest.attach owner part .regular isChild with
  | error error => exact ends_error rfl trivial
  | ok next =>
      obtain ⟨rfl, inside, _⟩ := Forest.attach_ok attached
      refine ends_ok rfl ⟨steady.link new, Forest.size_link, funext fun _ => Forest.face_link, ?_⟩
      refine (Forest.parts_link_owner inside).trans ?_
      rw [before]
      cases isChild <;> rfl

section Words

variable {info : Nat} {words done : List (Nat × String)} {tokens : List Nat}

/-- Some words of an operator have their tokens. -/
structure Wording (s : ParseState) (info : Nat) (done : List (Nat × String)) (t : ParseState) :
    Prop where
  steady : Steady s t
  inside : info < t.forest.size
  shown : ∃ tokens, t.forest.parts info = { regular := tokens } ∧
    List.Forall₂ t.forest.ShowsWord done tokens

theorem ends_wordShown (new : s.forest.size ≤ info) (wording : Wording s info done t) (start : Nat)
    (text : String) :
    Ends (createToken .operatorNamePart text start >>= addRegular info) t
      (fun _ u => Wording s info (done ++ [(start, text)]) u ∧
        u.forest.face? info = t.forest.face? info) (fun _ _ => True) := by
  obtain ⟨steady, inside, tokens, parts, shown⟩ := wording
  rw [ends_createToken_bind]
  have pushed : Steady s (t.withForest (t.forest.createToken .operatorNamePart text start).2) :=
    steady.push rfl
  refine (ends_attached pushed false new ((Forest.parts_push_old rfl).trans parts)).imp ?_
    fun _ _ _ => trivial
  rintro _ u ⟨steady, size, faces, parts⟩
  have old : ∀ id < t.forest.size, u.forest.face? id = t.forest.face? id := fun id inside =>
    (congrFun faces id).trans (Forest.face_push_old inside)
  refine ⟨⟨steady, ?_, _, parts, ?_⟩, old info inside⟩
  · have grown : (t.forest.createToken .operatorNamePart text start).2.size = t.forest.size + 1 :=
      Forest.size_push _
    exact size ▸ grown ▸ Nat.lt_succ_of_lt inside
  · refine List.rel_append (shown.imp fun word token here => ?_) (.cons ?_ .nil)
    · exact (old token (Forest.lt_size_of_face here)).trans here
    · exact (congrFun faces _).trans Forest.face_push_new

theorem ends_wordsShown (new : s.forest.size ≤ info) (wording : Wording s info done t) :
    Ends (words.forM fun (start, text) => do
        addRegular info (← createToken .operatorNamePart text start)) t
      (fun _ u => Wording s info (done ++ words) u ∧ u.forest.face? info = t.forest.face? info)
      (fun _ _ => True) := by
  induction words generalizing t done with
  | nil => exact ends_pure ⟨by simpa using wording, rfl⟩
  | cons word words ih =>
      obtain ⟨start, text⟩ := word
      rw [List.forM]
      refine (ends_wordShown new wording start text).bind ?_ fun _ _ _ => trivial
      rintro _ u ⟨wording, face⟩
      refine (ih wording).imp ?_ fun _ _ _ => trivial
      rintro _ v ⟨wording, same⟩
      exact ⟨by simpa using wording, same.trans face⟩

theorem ends_infoShown (s : ParseState) :
    Ends (createInfo chosen) s
      (fun info t => Steady s t ∧ t.forest.ShowsInfo chosen info) (fun _ _ => True) := by
  unfold createInfo
  simp only [ends_create_bind]
  have complex : (ItemKind.operatorInfo chosen.operator.id chosen.operator.kind
    chosen.operator.name).isToken = false := rfl
  have created := Steady.create s complex chosen.written.start
  rw [Forest.create_complex complex] at created ⊢
  have start : Wording s s.forest.size [] (s.withForest (s.forest.push _).2) :=
    ⟨created, by rw [withForest, Forest.size_push]; omega, [], Forest.parts_push_new, .nil⟩
  refine (ends_wordsShown (Nat.le_refl _) start).bind ?_ fun _ _ _ => trivial
  rintro _ u ⟨wording, face⟩
  refine ends_pure ⟨wording.steady, ?_, wording.shown⟩
  rw [Forest.kind_eq_face, face]
  exact congrArg (Option.map _) Forest.face_push_new

end Words

section Operator

variable {node operand : Nat} {right : Option Nat} {kind : ItemKind} {parts : Parts}

/-- A new item with some of its parts. -/
structure Assembled (s : ParseState) (node : Nat) (kind : ItemKind) (parts : Parts)
    (t : ParseState) : Prop where
  steady : Steady s t
  new : s.forest.size ≤ node
  kind : t.forest.kind? node = some kind
  parts : t.forest.parts node = parts

theorem assembled_create (s : ParseState) (complex : kind.isToken = false) (start : Nat) :
    Assembled s s.forest.size kind {} (s.withForest (s.forest.create kind start).2) := by
  refine ⟨Steady.create s complex start, Nat.le_refl _, ?_, ?_⟩ <;>
    rw [Forest.create_complex complex]
  · exact Forest.kind_of_get (Forest.get_push_new _)
  · exact Forest.parts_push_new

theorem ends_takes (assembled : Assembled s node kind parts t) (part : ItemId) (isChild : Bool) :
    Ends (attach (·.attach node part .regular isChild)) t
      (fun _ u => Assembled s node kind (taking parts part isChild) u) (fun _ _ => True) := by
  refine (ends_attached assembled.steady isChild assembled.new assembled.parts).imp ?_
    fun _ _ _ => trivial
  rintro _ u ⟨steady, _, faces, parts⟩
  refine ⟨steady, assembled.new, ?_, parts⟩
  rw [Forest.kind_eq_face, faces, ← Forest.kind_eq_face]
  exact assembled.kind

/-- An operator is built around its operands, which stay as they are. -/
theorem ends_operatorShown (s : ParseState) (operand : ItemId) (right : Option ItemId) :
    Ends (createOperator chosen operand right) s
      (fun node t => Steady s t ∧ t.forest.ShowsOperator chosen operand right node)
      (fun _ _ => True) := by
  unfold createOperator
  refine (ends_infoShown s).bind ?_ fun _ _ _ => trivial
  rintro info t ⟨steady, written⟩
  simp only [ends_create_bind]
  have created : Assembled t t.forest.size (chosen.itemKind info operand right) {} _ :=
    assembled_create t rfl chosen.written.start
  have finished : ∀ {u : ParseState} {parts : Parts},
      Assembled t t.forest.size (chosen.itemKind info operand right) parts u →
      parts = chosen.parts info operand right →
      Steady s u ∧ u.forest.ShowsOperator chosen operand right t.forest.size := by
    rintro u parts assembled rfl
    exact ⟨steady.trans assembled.steady, info, assembled.steady.showsInfo written, assembled.kind,
      assembled.parts⟩
  change Ends _ (t.withForest (t.forest.create (chosen.itemKind info operand right)
    chosen.written.start).2) _ _
  generalize t.withForest (t.forest.create (chosen.itemKind info operand right) _).2 = u at created ⊢
  cases kind : chosen.operator.kind with
  | prefixOp =>
      refine (ends_takes created info false).bind ?_ fun _ _ _ => trivial
      intro _ u assembled
      refine (ends_takes assembled operand true).bind ?_ fun _ _ _ => trivial
      intro _ v assembled
      exact ends_pure (finished assembled (by simp [Chosen.parts, kind, taking]))
  | postfixOp =>
      refine (ends_takes created operand true).bind ?_ fun _ _ _ => trivial
      intro _ u assembled
      refine (ends_takes assembled info false).bind ?_ fun _ _ _ => trivial
      intro _ v assembled
      exact ends_pure (finished assembled (by simp [Chosen.parts, kind, taking]))
  | binary =>
      refine (ends_takes created operand true).bind ?_ fun _ _ _ => trivial
      intro _ u assembled
      refine (ends_takes assembled info false).bind ?_ fun _ _ _ => trivial
      intro _ v assembled
      cases right with
      | none => exact ends_pure (finished assembled (by simp [Chosen.parts, kind, taking]))
      | some second =>
          refine (ends_takes assembled second true).bind ?_ fun _ _ _ => trivial
          intro _ w assembled
          exact ends_pure (finished assembled (by simp [Chosen.parts, kind, taking]))

end Operator

/-! Runs -/

/-- A tree and its node behind the same operator. -/
def ShowsBehind {α : Type} (s : ParseState) (tree : α × OperatorTree) (node : α × ItemId) : Prop :=
  node.1 = tree.1 ∧ s.forest.Shows tree.2 node.2

/-- In both runs the same operators stand between trees and their nodes. -/
structure ShowsRun (s : ParseState) (trees : Run OperatorTree) (run : Run ItemId) : Prop where
  first : s.forest.Shows trees.first run.first
  links : List.Forall₂ (ShowsBehind s) trees.links run.links

theorem ShowsBehind.steady {α : Type} {tree : α × OperatorTree} {node : α × ItemId}
    (shown : ShowsBehind s tree node) (steady : Steady s t) : ShowsBehind t tree node :=
  ⟨shown.1, steady.shows shown.2⟩

theorem ShowsRun.steady {trees : Run OperatorTree} {run : Run ItemId} (shown : ShowsRun s trees run)
    (steady : Steady s t) : ShowsRun t trees run :=
  ⟨steady.shows shown.first, shown.links.imp fun _ _ here => here.steady steady⟩

theorem ends_combineShown {left right : OperatorTree} {first second : ItemId}
    (shownLeft : s.forest.Shows left first) (shownRight : s.forest.Shows right second) :
    Ends (combine chosen first second) s
      (fun node t => Steady s t ∧ t.forest.Shows (.binary chosen left right) node)
      (fun _ _ => True) := by
  refine (ends_operatorShown s first (some second)).imp ?_ fun _ _ _ => trivial
  rintro node t ⟨steady, shown⟩
  exact ⟨steady, first, second, shown, steady.shows shownLeft, steady.shows shownRight⟩

/-- The unary operators of a slot. -/
theorem ends_wrapShown {nest : List Chosen} {tree : OperatorTree} {node : ItemId}
    (shown : s.forest.Shows tree node) :
    Ends (nest.foldlM (fun node chosen => createOperator chosen node none) node) s
      (fun node t => Steady s t ∧ t.forest.Shows (.wrap nest tree) node) (fun _ _ => True) := by
  induction nest generalizing s tree node with
  | nil => exact ends_pure ⟨Steady.refl s, shown⟩
  | cons chosen nest ih =>
      rw [List.foldlM_cons]
      refine (ends_operatorShown s node none).bind ?_ fun _ _ _ => trivial
      rintro next t ⟨steady, top⟩
      have shown : t.forest.Shows (.unary chosen tree) next := ⟨node, top, steady.shows shown⟩
      refine (ih shown).imp ?_ fun _ _ _ => trivial
      rintro last u ⟨steadyMore, shown⟩
      exact ⟨steady.trans steadyMore, shown⟩

/-- The items of one priority are built as the trees of that priority are. -/
theorem ends_combineAtShown {priority : Int} {trees : Run OperatorTree} {run : Run ItemId}
    (shown : ShowsRun s trees run) :
    Ends (Run.combineAt combine priority run.first run.links) s
      (fun run t => Steady s t ∧ ShowsRun t (Id.run (Run.combineAt
        (fun chosen left right => pure (.binary chosen left right)) priority trees.first trees.links)) run)
      (fun _ _ => True) := by
  obtain ⟨top, topLinks⟩ := trees
  obtain ⟨first, links⟩ := run
  induction links generalizing s top topLinks first with
  | nil =>
      obtain ⟨shownFirst, shownLinks⟩ := shown
      cases shownLinks
      exact ends_pure ⟨Steady.refl s, shownFirst, .nil⟩
  | cons node links ih =>
      obtain ⟨shownFirst, shownLinks⟩ := shown
      obtain ⟨chosen, second⟩ := node
      rcases shownLinks with _ | @⟨⟨_, right⟩, _, topLinks, _, ⟨rfl, shownSecond⟩, rest⟩
      have shownRest : ShowsRun s ⟨right, topLinks⟩ ⟨second, links⟩ := ⟨shownSecond, rest⟩
      dsimp only at shownFirst ⊢
      unfold Run.combineAt
      by_cases same : chosen.operator.priority = priority
      · simp only [same, if_true]
        refine (ends_combineShown shownFirst shownSecond).bind ?_ fun _ _ _ => trivial
        rintro next t ⟨steady, shown⟩
        refine (ih _ _ _ ⟨shown, (shownRest.steady steady).links⟩).imp ?_ fun _ _ _ => trivial
        rintro run u ⟨steadyMore, shown⟩
        exact ⟨steady.trans steadyMore, shown⟩
      · simp only [same, if_false]
        refine (ih _ _ _ shownRest).bind ?_ fun _ _ _ => trivial
        rintro run t ⟨steady, shown⟩
        exact ends_pure ⟨steady, steady.shows shownFirst, .cons ⟨rfl, shown.first⟩ shown.links⟩

theorem ends_foldAtShown {priorities : List Int} {trees : Run OperatorTree} {run : Run ItemId}
    (shown : ShowsRun s trees run) :
    Ends (Run.foldAt combine priorities run) s
      (fun node t => Steady s t ∧ t.forest.Shows (Id.run (Run.foldAt
        (fun chosen left right => pure (.binary chosen left right)) priorities trees)) node)
      (fun _ _ => True) := by
  induction priorities generalizing s trees run with
  | nil => exact ends_pure ⟨Steady.refl s, shown.first⟩
  | cons priority rest ih =>
      refine (ends_combineAtShown shown).bind ?_ fun _ _ _ => trivial
      rintro next t ⟨steady, shown⟩
      refine (ih shown).imp ?_ fun _ _ _ => trivial
      rintro node u ⟨steadyMore, shown⟩
      exact ⟨steady.trans steadyMore, shown⟩

theorem ends_foldShown {trees : Run OperatorTree} {run : Run ItemId} (shown : ShowsRun s trees run) :
    Ends (Run.fold combine run) s (fun node t => Steady s t ∧ t.forest.Shows trees.tree node)
      (fun _ _ => True) := by
  have same : run.priorities = trees.priorities := by
    have operators : trees.links.map (·.1) = run.links.map (·.1) := by
      have links := shown.links
      generalize trees.links = topLinks, run.links = links at links
      induction links with
      | nil => rfl
      | cons here _ ih => rw [List.map_cons, List.map_cons, here.1, ih]
    have through : ∀ {Node : Type} (links : List (Chosen × Node)),
        links.map (·.1.operator.priority) = (links.map (·.1)).map (·.operator.priority) := fun links => by
      rw [List.map_map]
      rfl
    rw [Run.priorities, Run.priorities, through, through, operators]
  rw [Run.fold, same]
  exact ends_foldAtShown shown

/-! Rows of slots -/

/-- The runs are split at the same places. -/
theorem shows_split {tree : OperatorTree} {node : ItemId} (shown : s.forest.Shows tree node)
    {trees : List (Option Chosen × OperatorTree)} {nodes : List (Option Chosen × ItemId)}
    (rest : List.Forall₂ (ShowsBehind s) trees nodes) :
    ShowsRun s (Run.split tree trees).1 (Run.split node nodes).1 ∧
      List.Forall₂ (ShowsRun s) (Run.split tree trees).2 (Run.split node nodes).2 := by
  induction rest generalizing tree node with
  | nil => exact ⟨⟨shown, .nil⟩, .nil⟩
  | @cons next other _ _ here _ ih =>
      obtain ⟨link, next⟩ := next
      obtain ⟨link', other⟩ := other
      obtain ⟨same, shownNext⟩ := here
      obtain rfl : link' = link := same
      obtain ⟨first, later⟩ := ih shownNext
      cases link' with
      | none => exact ⟨⟨shown, .nil⟩, .cons first later⟩
      | some chosen => exact ⟨⟨shown, .cons ⟨rfl, first.first⟩ first.links⟩, later⟩

/-- Items are built one after the other, and what has been built stays as it is. -/
theorem ends_mapMShown {α β γ : Type} (s : ParseState) (f : α → Parse β) (before : ParseState → γ → α → Prop)
    (after : ParseState → γ → β → Prop)
    (keepsBefore : ∀ {s t z x}, Steady s t → before s z x → before t z x)
    (keepsAfter : ∀ {s t z y}, Steady s t → after s z y → after t z y)
    (step : ∀ {s z x}, before s z x →
      Ends (f x) s (fun y t => Steady s t ∧ after t z y) (fun _ _ => True))
    {zs : List γ} {xs : List α} (shown : List.Forall₂ (before s) zs xs) :
    Ends (xs.mapM f) s (fun ys t => Steady s t ∧ List.Forall₂ (after t) zs ys) (fun _ _ => True) := by
  induction xs generalizing s zs with
  | nil =>
      cases shown
      exact ends_pure ⟨Steady.refl s, .nil⟩
  | cons x xs ih =>
      rcases shown with _ | ⟨here, rest⟩
      rw [List.mapM_cons]
      refine (step here).bind ?_ fun _ _ _ => trivial
      rintro y t ⟨steady, shown⟩
      refine (ih t (rest.imp fun _ _ => keepsBefore steady)).bind ?_ fun _ _ _ => trivial
      rintro ys u ⟨steadyMore, shownMore⟩
      exact ends_pure ⟨steady.trans steadyMore, .cons (keepsAfter steadyMore shown) shownMore⟩

theorem ends_slotShown {slot : Slot} :
    Ends (do return (slot.link, ← applyUnary slot)) s
      (fun node t => Steady s t ∧ ShowsBehind t (slot.link, slot.tree) node) (fun _ _ => True) := by
  have operand : s.forest.Shows (.operand slot.operand) slot.operand := rfl
  refine (ends_wrapShown operand).bind ?_ fun _ _ _ => trivial
  rintro node t ⟨steady, shown⟩
  exact ends_pure ⟨steady, rfl, shown⟩

/-- Whatever the state, the items that slots are folded to show the trees of the slots. -/
theorem ends_foldSlotsShown (s : ParseState) (slots : List Slot) :
    Ends (foldSlots slots) s
      (fun nodes t => Steady s t ∧ List.Forall₂ t.forest.Shows (Slot.trees slots) nodes)
      (fun _ _ => True) := by
  have ofSlots : List.Forall₂ (fun (tree : Option Chosen × OperatorTree) (slot : Slot) =>
      tree = (slot.link, slot.tree)) (slots.map fun slot => (slot.link, slot.tree)) slots :=
    List.forall₂_map_left_iff.mpr (List.forall₂_same.mpr fun _ _ => rfl)
  have nodes := ends_mapMShown s (fun slot => do return (slot.link, ← applyUnary slot))
    (fun _ tree slot => tree = (slot.link, slot.tree)) ShowsBehind (fun _ same => same)
    (fun steady shown => shown.steady steady) (fun same => by subst same; exact ends_slotShown) ofSlots
  unfold foldSlots
  refine nodes.bind ?_ fun _ _ _ => trivial
  rintro nodes t ⟨steady, shown⟩
  unfold Slot.trees
  generalize (slots.map fun slot => (slot.link, slot.tree)) = trees at shown
  cases shown with
  | nil => exact ends_pure ⟨steady, .nil⟩
  | @cons tree node trees nodes here rest =>
      obtain ⟨first, later⟩ := shows_split here.2 rest
      refine (ends_mapMShown t _ ShowsRun (fun t trees node => t.forest.Shows trees.tree node)
        (fun steady shown => shown.steady steady) (fun steady shown => steady.shows shown)
        (fun shown => ends_foldShown shown) (.cons first later)).imp ?_ fun _ _ _ => trivial
      rintro last u ⟨steadyMore, shown⟩
      exact ⟨steady.trans steadyMore, List.forall₂_map_left_iff.mpr shown⟩

end Parse

end ExprLang
