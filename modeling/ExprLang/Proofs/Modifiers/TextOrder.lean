import ExprLang.Proofs.Fields.Agreement
import ExprLang.Proofs.Forest.Covering
import ExprLang.Proofs.Modifiers.Trees

/-!
Routed trees in the text. The fields of an operator tell in which order its parts stand, so the operands
and the words of the operators follow one another as the tree lists them, each behind its modifiers. Only
the first one has its modifiers from the root.
-/

namespace ExprLang

open Relation

/-- The parts of an operator in text order. -/
def OperatorKind.row (words operand : ItemId) (right : Option ItemId) : OperatorKind → List ItemId
  | prefixOp => [words, operand]
  | postfixOp => [operand, words]
  | binary => operand :: words :: right.toList

namespace Forest

/-- What the tree consists of, in text order. -/
def written (forest : Forest) (tree : ItemTree) : List ItemId :=
  forest.modifiers tree.root ++ tree.heads.head?.toList.flatMap forest.body ++
    tree.heads.tail.flatMap fun head => forest.modifiers head ++ forest.body head

variable {forest : Forest} {tree inside : ItemTree} {item words operand head : ItemId} {kind : OperatorKind}
  {right : Option ItemId}

theorem parts_all (forest : Forest) (id : ItemId) :
    (forest.parts id).all = forest.modifiers id ++ forest.body id := by
  simp [Parts.all, modifiers, body]

theorem exists_owner_of_written {part : ItemId} (member : part ∈ forest.written tree) :
    ∃ owner, forest.Owns owner part := by
  simp only [written, List.mem_append, List.mem_flatMap] at member
  rcases member with (isModifier | ⟨head, _, inBody⟩) | ⟨head, _, inHead⟩
  · exact ⟨tree.root, by rw [Owns, parts_all]; exact List.mem_append_left _ isModifier⟩
  · exact ⟨head, by rw [Owns, parts_all]; exact List.mem_append_right _ inBody⟩
  · exact ⟨head, by rw [Owns, parts_all]; exact List.mem_append.mpr inHead⟩

/-! Heads -/

theorem Stores.of_head (stores : forest.Stores tree) (member : head ∈ tree.heads) :
    forest.IsOperand head ∨ forest.IsWords head := by
  induction tree with
  | operand item =>
      obtain rfl := List.mem_singleton.mp member
      exact Or.inl stores
  | before item words inside ih =>
      rcases List.mem_cons.mp member with rfl | member
      · exact Or.inr stores.1.words
      · exact ih stores.2 member
  | behind item words inside ih =>
      rcases List.mem_append.mp member with member | isWords
      · exact ih stores.2 member
      · obtain rfl := List.mem_singleton.mp isWords
        exact Or.inr stores.1.words
  | between item words left right ihLeft ihRight =>
      rcases List.mem_append.mp member with member | member
      · exact ihLeft stores.2.1 member
      · rcases List.mem_cons.mp member with rfl | member
        · exact Or.inr stores.1.words
        · exact ihRight stores.2.2 member

/-- Next to an operand stand the words of an operator. -/
theorem Stores.alternates (stores : forest.Stores tree) :
    tree.heads.IsChain fun head next => forest.IsWords head ∨ forest.IsWords next := by
  induction tree with
  | operand item => exact List.isChain_singleton _
  | before item words inside ih =>
      exact List.isChain_cons.mpr ⟨fun _ _ => Or.inl stores.1.words, ih stores.2⟩
  | behind item words inside ih =>
      refine List.isChain_append.mpr ⟨ih stores.2, List.isChain_singleton _, fun _ _ next isNext => ?_⟩
      obtain rfl : words = next := Option.some.inj isNext
      exact Or.inr stores.1.words
  | between item words left right ihLeft ihRight =>
      have behind : (words :: right.heads).IsChain fun head next =>
          forest.IsWords head ∨ forest.IsWords next :=
        List.isChain_cons.mpr ⟨fun _ _ => Or.inl stores.1.words, ihRight stores.2.2⟩
      refine List.isChain_append.mpr ⟨ihLeft stores.2.1, behind, fun _ _ next isNext => ?_⟩
      obtain rfl : words = next := Option.some.inj isNext
      exact Or.inr stores.1.words

theorem IsOperand.complex (isOperand : forest.IsOperand item) :
    ∃ kind, forest.kind? item = some kind ∧ kind.isToken = false := by
  obtain ⟨kind, isKind, isOperand⟩ := isOperand
  exact ⟨kind, isKind, by cases kind <;> first | rfl | cases isOperand⟩

theorem Stores.complex_head (stores : forest.Stores tree) (member : head ∈ tree.heads) :
    ∃ kind, forest.kind? head = some kind ∧ kind.isToken = false := by
  rcases stores.of_head member with isOperand | isWords
  · exact isOperand.complex
  · obtain ⟨_, _, _, isKind⟩ := isWords.kind
    exact ⟨_, isKind, rfl⟩

/-! The parts of operators -/

section Operators

variable (agree : ∀ id < forest.size, forest.Agrees id)

include agree

theorem Operates.body_eq (operates : forest.Operates item kind words operand right) :
    forest.body item = kind.row words operand right := by
  obtain ⟨id, priority, isKind⟩ := operates.kind
  have agrees := agree item (lt_size_of_kind isKind) _ isKind
  rw [body, operates.alone, List.append_nil]
  cases kind with
  | prefixOp => exact agrees.2
  | postfixOp => exact agrees.2
  | binary =>
      obtain ⟨other, rfl, parts⟩ := agrees
      exact parts

theorem Operates.owns (operates : forest.Operates item kind words operand right) {part : ItemId}
    (member : part ∈ kind.row words operand right) : forest.Owns item part := by
  rw [Owns, parts_all, operates.body_eq agree]
  exact List.mem_append_right _ member

/-- All items of a tree are at or below its root. -/
theorem Stores.below (stores : forest.Stores tree) :
    ∀ id ∈ tree.items, ReflTransGen forest.Owns tree.root id := by
  induction tree with
  | operand item =>
      intro id member
      obtain rfl : id = item := by simpa [ItemTree.items, ItemTree.operators, ItemTree.heads] using member
      exact .refl
  | before item words inside ih =>
      have owns : ∀ part ∈ _, forest.Owns item part := fun _ => stores.1.owns agree
      exact ItemTree.forall_items_before.mpr ⟨.refl, .single (owns words (by simp [OperatorKind.row])),
        fun id member => .head (owns inside.root (by simp [OperatorKind.row])) (ih stores.2 id member)⟩
  | behind item words inside ih =>
      have owns : ∀ part ∈ _, forest.Owns item part := fun _ => stores.1.owns agree
      exact ItemTree.forall_items_behind.mpr ⟨.refl, .single (owns words (by simp [OperatorKind.row])),
        fun id member => .head (owns inside.root (by simp [OperatorKind.row])) (ih stores.2 id member)⟩
  | between item words left right ihLeft ihRight =>
      have owns : ∀ part ∈ _, forest.Owns item part := fun _ => stores.1.owns agree
      exact ItemTree.forall_items_between.mpr ⟨.refl, .single (owns words (by simp [OperatorKind.row])),
        fun id member => .head (owns left.root (by simp [OperatorKind.row])) (ihLeft stores.2.1 id member),
        fun id member => .head (owns right.root (by simp [OperatorKind.row])) (ihRight stores.2.2 id member)⟩

variable (linked : forest.Linked)

include linked

theorem Operates.tokens_eq (operates : forest.Operates item kind words operand right) :
    forest.tokens item = (forest.modifiers item).flatMap forest.tokens ++
      (kind.row words operand right).flatMap forest.tokens := by
  obtain ⟨_, _, isKind⟩ := operates.kind
  rw [linked.tokens_complex isKind rfl, parts_all, operates.body_eq agree, List.flatMap_append]

/-- If no operator but the root is modified, the walk goes from head to head. -/
theorem Stores.tokens_eq (stores : forest.Stores tree)
    (bare : ∀ item ∈ tree.operators.tail, forest.modifiers item = []) :
    forest.tokens tree.root = (tree.operators.head?.toList.flatMap forest.modifiers).flatMap forest.tokens ++
      tree.heads.flatMap forest.tokens := by
  have inner : ∀ {inside : ItemTree}, (∀ item ∈ inside.operators, forest.modifiers item = []) →
      (∀ item ∈ inside.operators.tail, forest.modifiers item = []) ∧
        inside.operators.head?.toList.flatMap forest.modifiers = [] := by
    intro inside bare
    refine ⟨fun item member => bare item (List.mem_of_mem_tail member), ?_⟩
    cases first : inside.operators.head? with
    | none => rfl
    | some item => simp [bare item (List.mem_of_mem_head? first)]
  induction tree with
  | operand item => simp [ItemTree.root, ItemTree.operators, ItemTree.heads]
  | before item words inside ih =>
      obtain ⟨below, none⟩ := inner bare
      have rest := ih stores.2 below
      rw [none] at rest
      change forest.tokens item = _
      rw [stores.1.tokens_eq agree linked]
      simp [OperatorKind.row, ItemTree.operators, ItemTree.heads, rest]
  | behind item words inside ih =>
      obtain ⟨below, none⟩ := inner bare
      have rest := ih stores.2 below
      rw [none] at rest
      change forest.tokens item = _
      rw [stores.1.tokens_eq agree linked]
      simp [OperatorKind.row, ItemTree.operators, ItemTree.heads, rest]
  | between item words left right ihLeft ihRight =>
      obtain ⟨onLeft, onRight⟩ := List.forall_mem_append.mp bare
      obtain ⟨belowLeft, noneLeft⟩ := inner onLeft
      obtain ⟨belowRight, noneRight⟩ := inner onRight
      have left := ihLeft stores.2.1 belowLeft
      have right := ihRight stores.2.2 belowRight
      rw [noneLeft] at left
      rw [noneRight] at right
      change forest.tokens item = _
      rw [stores.1.tokens_eq agree linked]
      simp [OperatorKind.row, ItemTree.operators, ItemTree.heads, left, right]

theorem Routed.bare (routed : forest.Routed tree) :
    ∀ item ∈ tree.operators.tail, forest.modifiers item = [] := by
  have stores := routed.stores
  -- The root owns what the others stand below, so it is none of them.
  have bare : ∀ {part other}, forest.Owns tree.root part → ReflTransGen forest.Owns part other →
      other ∈ tree.operators → forest.modifiers other = [] := fun owns path member =>
    routed.inner _ member fun same => by
      rw [same] at path
      exact linked.acyclic tree.root (.head' owns path)
  cases tree with
  | operand item => exact fun _ member => nomatch member
  | before item words inside =>
      exact fun other member => bare (stores.1.owns agree (by simp [OperatorKind.row]))
        (stores.2.below agree other (List.mem_append_left _ member)) (List.mem_cons_of_mem _ member)
  | behind item words inside =>
      exact fun other member => bare (stores.1.owns agree (by simp [OperatorKind.row]))
        (stores.2.below agree other (List.mem_append_left _ member)) (List.mem_cons_of_mem _ member)
  | between item words left right =>
      intro other member
      rcases List.mem_append.mp member with onLeft | onRight
      · exact bare (stores.1.owns agree (by simp [OperatorKind.row]))
          (stores.2.1.below agree other (List.mem_append_left _ onLeft)) (List.mem_cons_of_mem _ member)
      · exact bare (stores.1.owns agree (by simp [OperatorKind.row]))
          (stores.2.2.below agree other (List.mem_append_left _ onRight)) (List.mem_cons_of_mem _ member)

omit agree linked in
/-- What stands in front of the first head are the modifiers of the root. -/
theorem Routed.lead_eq (routed : forest.Routed tree) (isFirst : tree.heads.head? = some head) :
    tree.operators.head?.toList.flatMap forest.modifiers ++ forest.modifiers head =
      forest.modifiers tree.root := by
  have bare : ∀ {kind words operand right}, forest.Operates tree.root kind words operand right →
      forest.modifiers head = [] := by
    rintro kind words operand right ⟨⟨_, _, isOperator⟩, -, -⟩
    refine routed.first head isFirst ?_
    rintro rfl
    rcases routed.stores.of_head (List.mem_of_mem_head? isFirst) with ⟨_, isKind, isOperand⟩ | isWords
    · cases isOperator.symm.trans isKind
      cases isOperand
    · obtain ⟨_, _, _, isKind⟩ := isWords.kind
      cases isOperator.symm.trans isKind
  have stores := routed.stores
  cases tree with
  | operand item => cases isFirst; rfl
  | before item words inside => simp [bare stores.1, ItemTree.operators, ItemTree.root]
  | behind item words inside => simp [bare stores.1, ItemTree.operators, ItemTree.root]
  | between item words left right => simp [bare stores.1, ItemTree.operators, ItemTree.root]

/-- The walk over a routed tree goes over what it consists of. -/
theorem Routed.tokens_eq (routed : forest.Routed tree) :
    forest.tokens tree.root = (forest.written tree).flatMap forest.tokens := by
  have head : ∀ head ∈ tree.heads,
      forest.tokens head = (forest.modifiers head ++ forest.body head).flatMap forest.tokens := by
    intro head member
    obtain ⟨kind, isKind, complex⟩ := routed.stores.complex_head member
    rw [linked.tokens_complex isKind complex, parts_all]
  obtain ⟨first, rest, heads⟩ := List.exists_cons_of_ne_nil tree.heads_ne_nil
  have lead := routed.lead_eq (show tree.heads.head? = some first by rw [heads]; rfl)
  have behind : rest.flatMap forest.tokens =
      (rest.flatMap fun head => forest.modifiers head ++ forest.body head).flatMap forest.tokens := by
    rw [List.flatMap_assoc]
    exact List.flatMap_congr fun item member => head item (heads ▸ List.mem_cons_of_mem _ member)
  rw [routed.stores.tokens_eq agree linked (routed.bare agree linked), written, ← lead, heads,
    List.flatMap_cons, head first (heads ▸ List.mem_cons_self), behind]
  simp

end Operators

end Forest

end ExprLang
