import ExprLang.Proofs.Forest.Floor

/-!
Operator trees by the items that they are stored in. Of such a tree only the root and the operands have
prefixes and keywords, and the operand at the left end has none if it is not the root, since what stands
before it belongs to the whole. All this is about the items of the tree alone, so it stays true as long
as those are left as they are.
-/

namespace ExprLang

/-- An operator tree by its items; an operator has an item for its words as well. -/
inductive ItemTree where
  | operand (item : ItemId)
  | before (item words : ItemId) (inside : ItemTree)
  | behind (item words : ItemId) (inside : ItemTree)
  | between (item words : ItemId) (left right : ItemTree)
  deriving DecidableEq, Repr

namespace ItemTree

def root : ItemTree → ItemId
  | operand item | before item _ _ | behind item _ _ | between item _ _ _ => item

def operators : ItemTree → List ItemId
  | operand _ => []
  | before item _ inside | behind item _ inside => item :: inside.operators
  | between item _ left right => item :: (left.operators ++ right.operators)

/-- The operands and the words of the operators, from left to right. -/
def heads : ItemTree → List ItemId
  | operand item => [item]
  | before _ words inside => words :: inside.heads
  | behind _ words inside => inside.heads ++ [words]
  | between _ words left right => left.heads ++ words :: right.heads

def items (tree : ItemTree) : List ItemId := tree.operators ++ tree.heads

theorem heads_ne_nil (tree : ItemTree) : tree.heads ≠ [] := by
  cases tree <;> simp [heads]

theorem root_mem_items (tree : ItemTree) : tree.root ∈ tree.items := by
  cases tree <;> simp [root, items, operators, heads]

section Items

variable {item words : ItemId} {inside left right : ItemTree} {P : ItemId → Prop}

theorem forall_items_before : (∀ id ∈ (before item words inside).items, P id) ↔
    P item ∧ P words ∧ ∀ id ∈ inside.items, P id := by
  simp only [items, operators, heads, List.cons_append, List.mem_cons, List.mem_append]
  grind

theorem forall_items_behind : (∀ id ∈ (behind item words inside).items, P id) ↔
    P item ∧ P words ∧ ∀ id ∈ inside.items, P id := by
  simp only [items, operators, heads, List.cons_append, List.mem_cons, List.mem_append]
  grind

theorem forall_items_between : (∀ id ∈ (between item words left right).items, P id) ↔
    P item ∧ P words ∧ (∀ id ∈ left.items, P id) ∧ ∀ id ∈ right.items, P id := by
  simp only [items, operators, heads, List.cons_append, List.mem_cons, List.mem_append]
  grind

end Items

end ItemTree

namespace ItemKind

/-- What stands where an operand can. -/
def isOperand : ItemKind → Bool
  | token .. | operator .. | operatorInfo .. | root .. => false
  | _ => true

/-- The expressions that are separated from one another in a construct. -/
def segments : ItemKind → List ItemId
  | braces _ _ _ _ parameters => parameters.filterMap id
  | codeBlock _ _ statements | root statements _ => statements
  | _ => []

end ItemKind

namespace Forest

/-- The prefixes and keywords of an item, as they stand in the text. -/
def modifiers (forest : Forest) (id : ItemId) : List ItemId :=
  (forest.parts id).prefixes ++ (forest.parts id).keywords

/-- What an item has behind its prefixes and keywords. -/
def body (forest : Forest) (id : ItemId) : List ItemId :=
  (forest.parts id).regular ++ (forest.parts id).postfixes

def IsOperand (forest : Forest) (id : ItemId) : Prop :=
  ∃ kind, forest.kind? id = some kind ∧ kind.isOperand = true

/-- The words of an operator. -/
structure IsWords (forest : Forest) (id : ItemId) : Prop where
  kind : ∃ number kind name, forest.kind? id = some (.operatorInfo number kind name)
  bare : forest.modifiers id = []

/-- The item of an operator; it has no postfixes. -/
structure Operates (forest : Forest) (item : ItemId) (kind : OperatorKind) (words operand : ItemId)
    (right : Option ItemId) : Prop where
  kind : ∃ id priority, forest.kind? item = some (.operator id kind priority words operand right)
  alone : (forest.parts item).postfixes = []
  words : forest.IsWords words

/-- The items are of the kinds that the tree says, and name one another. -/
def Stores (forest : Forest) : ItemTree → Prop
  | .operand item => forest.IsOperand item
  | .before item words inside =>
      forest.Operates item .prefixOp words inside.root none ∧ forest.Stores inside
  | .behind item words inside =>
      forest.Operates item .postfixOp words inside.root none ∧ forest.Stores inside
  | .between item words left right =>
      forest.Operates item .binary words left.root (some right.root) ∧ forest.Stores left ∧
        forest.Stores right

/-- Only the root of the tree and its operands have prefixes and keywords, and those that stand in
front of the whole belong to the root. -/
structure Routed (forest : Forest) (tree : ItemTree) : Prop where
  stores : forest.Stores tree
  inner : ∀ item ∈ tree.operators, item ≠ tree.root → forest.modifiers item = []
  first : ∀ head ∈ tree.heads.head?, head ≠ tree.root → forest.modifiers head = []

/-! Items that are left as they are -/

/-- The item has the kind and the parts that it had. -/
structure Same (before after : Forest) (id : ItemId) : Prop where
  parts : after.parts id = before.parts id
  kind : after.kind? id = before.kind? id

variable {before after : Forest} {id item words operand : ItemId} {tree : ItemTree}

theorem Same.modifiers (same : Same before after id) : after.modifiers id = before.modifiers id := by
  rw [Forest.modifiers, same.parts, Forest.modifiers]

theorem Same.trans {mid : Forest} (first : Same before mid id) (second : Same mid after id) :
    Same before after id :=
  ⟨second.parts.trans first.parts, second.kind.trans first.kind⟩

/-- The item is still good for what it was good for in a tree, whatever modifies it now. -/
structure SameRole (before after : Forest) (id : ItemId) : Prop where
  kind : after.kind? id = before.kind? id
  postfixes : (after.parts id).postfixes = (before.parts id).postfixes
  bare : before.IsWords id → after.modifiers id = []

theorem Same.role (same : Same before after id) : SameRole before after id where
  kind := same.kind
  postfixes := congrArg Parts.postfixes same.parts
  bare isWords := same.modifiers.trans isWords.bare

theorem Operates.congr {kind : OperatorKind} {right : Option ItemId}
    (operates : before.Operates item kind words operand right) (same : SameRole before after item)
    (sameWords : SameRole before after words) : after.Operates item kind words operand right where
  kind := same.kind ▸ operates.kind
  alone := same.postfixes.trans operates.alone
  words := ⟨sameWords.kind ▸ operates.words.kind, sameWords.bare operates.words⟩

theorem Stores.congr (stores : before.Stores tree) (same : ∀ id ∈ tree.items, SameRole before after id) :
    after.Stores tree := by
  induction tree with
  | operand item =>
      obtain ⟨kind, isKind, isOperand⟩ := stores
      exact ⟨kind, (same item (by simp [ItemTree.items, ItemTree.heads])).kind.trans isKind, isOperand⟩
  | before item words inside ih =>
      obtain ⟨here, there, below⟩ := ItemTree.forall_items_before.mp same
      exact ⟨stores.1.congr here there, ih stores.2 below⟩
  | behind item words inside ih =>
      obtain ⟨here, there, below⟩ := ItemTree.forall_items_behind.mp same
      exact ⟨stores.1.congr here there, ih stores.2 below⟩
  | between item words left right ihLeft ihRight =>
      obtain ⟨here, there, onLeft, onRight⟩ := ItemTree.forall_items_between.mp same
      exact ⟨stores.1.congr here there, ihLeft stores.2.1 onLeft, ihRight stores.2.2 onRight⟩

theorem Stores.root_not_words (stores : before.Stores tree) : ¬ before.IsWords tree.root := by
  rintro ⟨⟨number, kind, name, isWords⟩, -⟩
  have never : ∀ {kind words operand right}, ¬ before.Operates tree.root kind words operand right := by
    rintro kind words operand right ⟨⟨_, _, isOperator⟩, -, -⟩
    cases isWords.symm.trans isOperator
  cases tree with
  | operand item =>
      obtain ⟨kind, isKind, isOperand⟩ := stores
      cases isWords.symm.trans isKind
      cases isOperand
  | before item words inside => exact never stores.1
  | behind item words inside => exact never stores.1
  | between item words left right => exact never stores.1

/-- In a routed tree the root may be modified, and the operands that do not stand in front. -/
theorem Routed.congr (routed : before.Routed tree) (roles : ∀ id ∈ tree.items, SameRole before after id)
    (same : ∀ id ∈ tree.items, id ≠ tree.root → Same before after id) : after.Routed tree where
  stores := routed.stores.congr roles
  inner item member notRoot :=
    (same item (List.mem_append_left _ member) notRoot).modifiers.trans
      (routed.inner item member notRoot)
  first head isFirst notRoot :=
    (same head (List.mem_append_right _ (List.mem_of_mem_head? isFirst)) notRoot).modifiers.trans
      (routed.first head isFirst notRoot)

theorem Routed.same (routed : before.Routed tree) (same : ∀ id ∈ tree.items, Same before after id) :
    after.Routed tree :=
  routed.congr (fun id member => (same id member).role) fun id member _ => same id member

/-- All items of a tree exist. -/
theorem Stores.lt_size (stores : before.Stores tree) : ∀ id ∈ tree.items, id < before.size := by
  have here : ∀ {item words operand kind right}, before.Operates item kind words operand right →
      item < before.size ∧ words < before.size := by
    intro item words operand kind right operates
    obtain ⟨_, _, isKind⟩ := operates.kind
    obtain ⟨_, _, _, isWords⟩ := operates.words.kind
    exact ⟨lt_size_of_kind isKind, lt_size_of_kind isWords⟩
  induction tree with
  | operand item =>
      intro id member
      obtain ⟨kind, isKind, _⟩ := stores
      obtain rfl : id = item := by simpa [ItemTree.items, ItemTree.operators, ItemTree.heads] using member
      exact lt_size_of_kind isKind
  | before item words inside ih =>
      exact ItemTree.forall_items_before.mpr ⟨(here stores.1).1, (here stores.1).2, ih stores.2⟩
  | behind item words inside ih =>
      exact ItemTree.forall_items_behind.mpr ⟨(here stores.1).1, (here stores.1).2, ih stores.2⟩
  | between item words left right ihLeft ihRight =>
      exact ItemTree.forall_items_between.mpr
        ⟨(here stores.1).1, (here stores.1).2, ihLeft stores.2.1, ihRight stores.2.2⟩

/-- An operand by itself is a tree, whatever modifies it. -/
theorem IsOperand.routed (isOperand : before.IsOperand item) : before.Routed (.operand item) where
  stores := isOperand
  inner _ member := nomatch member
  first _ isFirst notRoot := absurd (Option.some.inj isFirst).symm notRoot

end Forest

end ExprLang
