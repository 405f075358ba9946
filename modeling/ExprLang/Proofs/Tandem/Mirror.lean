import ExprLang.Proofs.Forest.Layout
import ExprLang.Proofs.Tandem.Growing

/-!
Two parses side by side. One of them reads `text` and the other one `other`, and what the first does at
a place the other does at the place that `move` gives. The other parse may have come across something
before. So its root has more statements, and every other number of an item is `shift` further on. The
characters of words may be replaced by others, but each always by the same one.

The forests of the two parses mirror one another: every item has an image with the same links, and what
the other parse has found before it keeps.
-/

namespace ExprLang

/-- A parse beside another one. -/
structure Tandem where
  grammar : Grammar
  text : Text
  other : Text
  /-- The place in the other text. -/
  move : Nat → Nat
  /-- What the other parse has found where this one begins. -/
  earlier : Forest
  fold : Char → Char
  /-- What escaped constants stand for. -/
  decoded : String → String → Prop
  /-- Places behind a token, where a gap may follow. -/
  rest : Nat → Prop
  /-- Places behind a gap. -/
  front : Nat → Prop
  /-- A token of this length is to come at this place. -/
  expects : Nat → Nat → Prop
  /-- Every place is moved by the same distance. If not so, only parses without faults are looked at. -/
  rigid : Prop

def Parts.map (f : ItemId → ItemId) (parts : Parts) : Parts where
  prefixes := parts.prefixes.map f
  keywords := parts.keywords.map f
  regular := parts.regular.map f
  postfixes := parts.postfixes.map f
  children := parts.children.map f

def Parts.append (parts more : Parts) : Parts where
  prefixes := parts.prefixes ++ more.prefixes
  keywords := parts.keywords ++ more.keywords
  regular := parts.regular ++ more.regular
  postfixes := parts.postfixes ++ more.postfixes
  children := parts.children ++ more.children

/-- The statements of two roots in one. -/
def ItemKind.append : ItemKind → ItemKind → ItemKind
  | .root statements separators, .root more others => .root (statements ++ more) (separators ++ others)
  | kind, _ => kind

/-- The root of a parse belongs to no other item and owns what stands in the text. -/
structure Item.IsRoot (item : Item) : Prop where
  free : item.parent = none
  kind : ∃ statements separators, item.kind = .root statements separators
  parts : item.parts = { regular := item.parts.regular, children := item.parts.children }

theorem Item.IsRoot.complex {item : Item} (isRoot : item.IsRoot) : item.isToken = false := by
  obtain ⟨_, _, kind⟩ := isRoot.kind
  rw [Item.isToken, kind]
  rfl

namespace Parts

variable (f : ItemId → ItemId) (parts : Parts)

@[simp]
theorem all_map : (parts.map f).all = parts.all.map f := by
  simp [map, all]

@[simp]
theorem map_push (part : ItemId) (place : Section) :
    (parts.push part place).map f = (parts.map f).push (f part) place := by
  cases place <;> simp [map, push]

@[simp]
theorem map_pushChild (part : ItemId) :
    (parts.pushChild part).map f = (parts.map f).pushChild (f part) := by
  simp [map, pushChild]

@[simp]
theorem neighbours_map (place : Section) : Forest.neighbours (parts.map f) place =
    ((Forest.neighbours parts place).1.map f, (Forest.neighbours parts place).2.map f) := by
  cases place <;> simp [Forest.neighbours, map, all, ← List.map_append]

end Parts

namespace Tandem

variable (W : Tandem)

/-- How many items more the other parse has. The root is one for both. -/
def shift : Nat := W.earlier.size - 1

def rename (id : Nat) : Nat := if id = 0 then 0 else id + W.shift

def word (text : String) : String := String.ofList (text.toList.map W.fold)

def carryKind : ItemKind → ItemKind
  | .token kind text => .token kind (W.word text)
  | .literal name => .literal (W.word name)
  | .numeric value type kind => .numeric (W.word value) type kind
  | .constantText raw text quote closed => .constantText (W.word raw) text quote closed
  | .braces kind name opening closing parameters =>
      .braces kind (name.map W.rename) (W.rename opening) (closing.map W.rename)
        (parameters.map (·.map W.rename))
  | .codeBlock start stop statements =>
      .codeBlock (W.rename start) (stop.map W.rename) (statements.map W.rename)
  | .operator id kind priority info operand right =>
      .operator id kind priority (W.rename info) (W.rename operand) (right.map W.rename)
  | .root statements separators => .root (statements.map W.rename) (separators.map W.rename)
  | kind => kind

/-- Kinds that tell the same, but for what an escaped constant stands for. -/
def Kind : ItemKind → ItemKind → Prop
  | .constantText raw text quote closed, other =>
      ∃ text', W.decoded text text' ∧ other = .constantText (W.word raw) text' quote closed
  | kind, other => other = W.carryKind kind

structure ItemAlike (item other : Item) : Prop where
  parent : other.parent = item.parent.map W.rename
  placed : W.front item.start
  start : other.start = W.move item.start
  length : other.length = item.length
  kind : W.Kind item.kind other.kind
  parts : other.parts = item.parts.map W.rename

/-- The root `first` of the earlier parse with all that the root of the first parse has. -/
def carryRoot (first root : Item) : Item :=
  { root with
    kind := first.kind.append (W.carryKind root.kind)
    parts := first.parts.append (root.parts.map W.rename) }

structure RootAlike (root image : Item) : Prop where
  isRoot : root.IsRoot
  image : ∃ first, W.earlier.get? 0 = some first ∧ first.IsRoot ∧ image = W.carryRoot first root

structure Mirror (forest other : Forest) : Prop where
  size : other.size = forest.size + W.shift
  root : ∃ root image, forest.get? 0 = some root ∧ other.get? 0 = some image ∧ W.RootAlike root image
  earlier : ∀ id, id ≠ 0 → id < W.earlier.size → other.get? id = W.earlier.get? id
  items : ∀ id item, id ≠ 0 → forest.get? id = some item →
    ∃ image, other.get? (W.rename id) = some image ∧ W.ItemAlike item image
  linked : forest.Linked
  linkedOther : other.Linked
  ordered : forest.ordered = true
  orderedOther : other.ordered = true

/-- What the earlier parse has put below the root stands before all that comes. -/
structure Founded : Prop where
  linked : W.earlier.Linked
  behind : ∀ part ∈ (W.earlier.parts 0).all, ∀ p, W.front p → W.earlier.start part < W.move p

/-- An item that can be given regular parts. -/
def Hosts (owner : Nat) : Prop := owner ≠ 0 ∨ owner = 0 ∧ W.Founded

@[simp]
theorem rename_zero : W.rename 0 = 0 := rfl

theorem rename_of_ne {id : Nat} (known : id ≠ 0) : W.rename id = id + W.shift := if_neg known

theorem rename_inj {a b : Nat} : W.rename a = W.rename b ↔ a = b := by
  unfold rename
  split <;> split <;> omega

@[simp]
theorem rename_eq_zero {id : Nat} : W.rename id = 0 ↔ id = 0 := W.rename_inj (b := 0)

theorem rename_ne_zero {id : Nat} (known : id ≠ 0) : W.rename id ≠ 0 := mt W.rename_eq_zero.mp known

@[simp]
theorem length_word (text : String) : (W.word text).length = text.length := by
  simp [word, String.length_toList]

variable {W}

theorem isToken_of_kind {kind other : ItemKind} (same : W.Kind kind other) :
    other.isToken = kind.isToken := by
  cases kind <;> first | (cases same; rfl) | (obtain ⟨_, _, rfl⟩ := same; rfl)

theorem RootAlike.isRootOther {root image : Item} (alike : W.RootAlike root image) : image.IsRoot := by
  obtain ⟨isRoot, first, _, isFirst, rfl⟩ := alike
  obtain ⟨statements, separators, kind⟩ := isRoot.kind
  obtain ⟨before, others, kindFirst⟩ := isFirst.kind
  refine ⟨isRoot.free, ⟨before ++ statements.map W.rename, others ++ separators.map W.rename, ?_⟩, ?_⟩
  · rw [carryRoot, kind, kindFirst]
    rfl
  · rw [carryRoot, isRoot.parts, isFirst.parts]
    rfl

/-! Spans and owners -/

namespace Mirror

variable {forest other : Forest} (mirror : W.Mirror forest other)

include mirror

theorem size_pos : 0 < forest.size := by
  obtain ⟨_, _, found, _⟩ := mirror.root
  exact Forest.get_lt_size found

theorem earlier_pos : 0 < W.earlier.size := by
  obtain ⟨_, _, _, _, _, _, found, _⟩ := mirror.root
  exact Forest.get_lt_size found

/-- The images stand behind all that was found earlier. -/
theorem earlier_le_rename {id : Nat} (known : id ≠ 0) : W.earlier.size ≤ W.rename id := by
  have := mirror.earlier_pos
  rw [W.rename_of_ne known, shift]
  omega

theorem not_part_zero {id : ItemId} : 0 ∉ (forest.parts id).all := by
  intro owns
  obtain ⟨root, _, found, _, alike⟩ := mirror.root
  exact mirror.linked.not_owned ((Forest.parent_of_get found).trans alike.isRoot.free) owns

/-- Both forests take the same steps down, to the first part or, for the stop, to the last one. -/
theorem startWithin_rename {steps id : Nat} (known : id ≠ 0) (inside : id < forest.size)
    (enough : forest.weight id ≤ steps) :
    other.startWithin steps (W.rename id) = W.move (forest.startWithin steps id) ∧
      W.front (forest.startWithin steps id) := by
  induction steps generalizing id with
  | zero =>
      have := Forest.weight_pos inside
      omega
  | succ steps ih =>
      obtain ⟨item, found⟩ := Forest.get_of_lt inside
      obtain ⟨image, foundImage, alike⟩ := mirror.items id item known found
      have first : image.firstPart? = item.firstPart?.map W.rename := by
        simp only [Item.firstPart?, Item.isToken, isToken_of_kind alike.kind, alike.parts]
        by_cases isToken : item.kind.isToken = true <;> simp [isToken]
      simp only [Forest.startWithin, found, foundImage, first]
      cases isFirst : item.firstPart? with
      | none => exact ⟨alike.start, alike.placed⟩
      | some part =>
          have owns : forest.Owns id part := by
            rw [Forest.owns_of_get found]
            unfold Item.firstPart? at isFirst
            split at isFirst
            · cases isFirst
            · exact List.mem_of_mem_head? isFirst
          have lighter := mirror.linked.weight_lt owns
          have notRoot : part ≠ 0 := fun isRoot => mirror.not_part_zero (isRoot ▸ owns)
          exact ih notRoot (mirror.linked.part_lt_size owns) (by omega)

theorem start_rename {id : Nat} (known : id ≠ 0) (inside : id < forest.size) :
    other.start (W.rename id) = W.move (forest.start id) ∧ W.front (forest.start id) := by
  have bound := @Forest.weight_le_size forest id
  have size := mirror.size
  have enough := mirror.linked.startWithin_eq bound (show forest.weight id ≤ other.size by omega)
  rw [Forest.start, Forest.start, enough]
  exact mirror.startWithin_rename known inside (by omega)

theorem missing {id : Nat} (known : id ≠ 0) (outside : forest.get? id = none) :
    other.get? (W.rename id) = none := by
  have beyond : forest.size ≤ id := Array.getElem?_eq_none_iff.mp outside
  have size := mirror.size
  rw [W.rename_of_ne known]
  exact Array.getElem?_eq_none (by simp only [Forest.size] at *; omega)

theorem parent_rename (id : Nat) :
    other.parent? (W.rename id) = (forest.parent? id).map W.rename := by
  by_cases known : id = 0
  · obtain ⟨root, image, found, foundOther, alike⟩ := mirror.root
    rw [known, rename_zero, Forest.parent_of_get found, Forest.parent_of_get foundOther,
      alike.isRoot.free, alike.isRootOther.free]
    rfl
  · cases found : forest.get? id with
    | some item =>
        obtain ⟨image, foundImage, alike⟩ := mirror.items id item known found
        rw [Forest.parent_of_get found, Forest.parent_of_get foundImage, alike.parent]
    | none =>
        simp [Forest.parent?, found, mirror.missing known found]

/-- A walk up that meets its end without meeting the item does so in the other forest, too. -/
theorem not_ancestor {steps more ancestor : Nat} {id : Option ItemId} (fewer : steps ≤ more)
    (never : forest.isAncestorOrSelfWithin ancestor steps id = false) :
    other.isAncestorOrSelfWithin (W.rename ancestor) more (id.map W.rename) = false := by
  induction steps generalizing more id with
  | zero => cases never
  | succ steps ih =>
      obtain ⟨more, rfl⟩ : ∃ less, more = less + 1 := ⟨more - 1, by omega⟩
      cases id with
      | none => rfl
      | some id =>
          simp only [Forest.isAncestorOrSelfWithin, Option.map_some, Bool.or_eq_false_iff,
            beq_eq_false_iff_ne, ne_eq, W.rename_inj, mirror.parent_rename] at never ⊢
          exact ⟨never.1, ih (by omega) never.2⟩

/-- Where all places move by one distance, so do the stops. -/
theorem stop_rename {distance id : Nat} (rigid : ∀ p, W.move p = p + distance) (known : id ≠ 0)
    (inside : id < forest.size) : other.stop (W.rename id) = W.move (forest.stop id) := by
  have walk : ∀ steps id, id ≠ 0 → id < forest.size → forest.weight id ≤ steps →
      other.stopWithin steps (W.rename id) = W.move (forest.stopWithin steps id) := by
    intro steps
    induction steps with
    | zero =>
        intro id _ inside enough
        have := Forest.weight_pos inside
        omega
    | succ steps ih =>
        intro id known inside enough
        obtain ⟨item, found⟩ := Forest.get_of_lt inside
        obtain ⟨image, foundImage, alike⟩ := mirror.items id item known found
        have last : image.lastPart? = item.lastPart?.map W.rename := by
          simp only [Item.lastPart?, Item.isToken, isToken_of_kind alike.kind, alike.parts]
          by_cases isToken : item.kind.isToken = true <;> simp [isToken]
        simp only [Forest.stopWithin, found, foundImage, last]
        cases isLast : item.lastPart? with
        | none =>
            simp only [Option.map_none, alike.start, alike.length, rigid]
            omega
        | some part =>
            have owns : forest.Owns id part := by
              rw [Forest.owns_of_get found]
              unfold Item.lastPart? at isLast
              split at isLast
              · cases isLast
              · exact List.mem_of_mem_getLast? isLast
            have lighter := mirror.linked.weight_lt owns
            have notRoot : part ≠ 0 := fun isRoot => mirror.not_part_zero (isRoot ▸ owns)
            exact ih part notRoot (mirror.linked.part_lt_size owns) (by omega)
  have bound := @Forest.weight_le_size forest id
  have size := mirror.size
  have enough := mirror.linked.stopWithin_eq bound (show forest.weight id ≤ other.size by omega)
  rw [Forest.stop, Forest.stop, enough]
  exact walk _ id known inside (by omega)

/-! Kinds -/

theorem kind_rename {id : Nat} (known : id ≠ 0) :
    (forest.kind? id = none ∧ other.kind? (W.rename id) = none) ∨
      ∃ kind image, forest.kind? id = some kind ∧ other.kind? (W.rename id) = some image ∧
        W.Kind kind image := by
  cases found : forest.get? id with
  | none =>
      have missing := mirror.missing known found
      exact Or.inl (by simp [Forest.kind?, found, missing])
  | some item =>
      obtain ⟨image, foundImage, alike⟩ := mirror.items id item known found
      exact Or.inr ⟨_, _, Forest.kind_of_get found, Forest.kind_of_get foundImage, alike.kind⟩

theorem tokenKind_rename (id : Nat) :
    other.tokenKind? (W.rename id) = forest.tokenKind? id := by
  by_cases known : id = 0
  · obtain ⟨root, image, found, foundOther, alike⟩ := mirror.root
    have noToken : ∀ {item : Item}, item.IsRoot → item.tokenKind? = none := by
      intro item isRoot
      obtain ⟨_, _, kind⟩ := isRoot.kind
      rw [Item.tokenKind?, kind]
    simp [known, Forest.tokenKind?, found, foundOther, noToken alike.isRoot, noToken alike.isRootOther]
  · cases found : forest.get? id with
    | none => simp [Forest.tokenKind?, found, mirror.missing known found]
    | some item =>
        obtain ⟨image, foundImage, alike⟩ := mirror.items id item known found
        have same := alike.kind
        simp only [Forest.tokenKind?, found, foundImage, Option.bind_some, Item.tokenKind?]
        cases kind : item.kind with
        | constantText raw text quote closed =>
            rw [kind] at same
            obtain ⟨_, _, isConstant⟩ := same
            rw [isConstant]
        | _ =>
            rw [kind] at same
            rw [same]
            rfl

theorem acceptsPostfix_rename {target postfixed : Nat} (known : target ≠ 0)
    (knownPostfix : postfixed ≠ 0) :
    other.acceptsPostfix (W.rename target) (W.rename postfixed) =
      forest.acceptsPostfix target postfixed := by
  have names : (other.kind? (W.rename postfixed)).map ItemKind.name =
      (forest.kind? postfixed).map ItemKind.name := by
    rcases mirror.kind_rename knownPostfix with ⟨none, noneOther⟩ | ⟨kind, image, here, there, same⟩
    · rw [none, noneOther]
    · rw [here, there]
      cases kind <;> first | (cases same; rfl) | (obtain ⟨_, _, rfl⟩ := same; rfl)
  have anyName : ∀ accepts, (other.kind? (W.rename postfixed)).any (·.name == accepts) =
      (forest.kind? postfixed).any (·.name == accepts) := by
    intro accepts
    have mapped : ∀ kind : Option ItemKind, kind.any (·.name == accepts) =
        (kind.map ItemKind.name).any (· == accepts) := fun kind => by cases kind <;> rfl
    rw [mapped, mapped, names]
  unfold Forest.acceptsPostfix
  rcases mirror.kind_rename known with ⟨none, noneOther⟩ | ⟨kind, image, here, there, same⟩
  · rw [none, noneOther]
  · rw [here, there]
    cases kind with
    | constantText raw text quote closed =>
        obtain ⟨_, _, rfl⟩ := same
        rfl
    | _ =>
        cases same
        simp only [carryKind, anyName]

/-! New items -/

theorem push {new image : Item} (bare : new.parts = {}) (free : new.parent = none)
    (alike : W.ItemAlike new image) :
    W.Mirror (forest.push new).2 (other.push image).2 := by
  have size := mirror.size
  have positive := mirror.size_pos
  have bareImage : image.parts = {} := by rw [alike.parts, bare]; rfl
  have freeImage : image.parent = none := by rw [alike.parent, free]; rfl
  constructor
  · simp only [Forest.size_push]
    omega
  · obtain ⟨root, rootOther, found, foundOther, same⟩ := mirror.root
    exact ⟨root, rootOther, (Forest.get_push_old new (Forest.get_lt_size found)).trans found,
      (Forest.get_push_old image (Forest.get_lt_size foundOther)).trans foundOther, same⟩
  · intro id known old
    have inside : id < other.size := by
      rw [size, shift]
      omega
    rw [Forest.get_push_old image inside, mirror.earlier id known old]
  · intro id item known found
    rw [Forest.get_push] at found
    by_cases isNew : id = forest.size
    · rw [if_pos isNew] at found
      cases found
      refine ⟨image, ?_, alike⟩
      rw [isNew, W.rename_of_ne (by omega), ← size, Forest.get_push_new]
    · rw [if_neg isNew] at found
      obtain ⟨old, foundOld, same⟩ := mirror.items id item known found
      exact ⟨old, (Forest.get_push_old image (Forest.get_lt_size foundOld)).trans foundOld, same⟩
  · exact Forest.linked_push bare free mirror.linked
  · exact Forest.linked_push bareImage freeImage mirror.linkedOther
  · exact mirror.ordered
  · exact mirror.orderedOther

/-! Changes -/

theorem changeKind {id : Nat} (known : id ≠ 0) {change changeOther : ItemKind → ItemKind}
    (alike : ∀ item, forest.get? id = some item → ∀ kind, W.Kind item.kind kind →
      W.Kind (change item.kind) (changeOther kind))
    (keeps : ∀ item, forest.get? id = some item → (change item.kind).isToken = item.kind.isToken) :
    W.Mirror (forest.modify id fun item => { item with kind := change item.kind })
      (other.modify (W.rename id) fun item => { item with kind := changeOther item.kind }) := by
  have keepsImage : ∀ image, other.get? (W.rename id) = some image →
      (changeOther image.kind).isToken = image.kind.isToken := by
    intro image foundImage
    cases found : forest.get? id with
    | none =>
        have missing := mirror.missing known found
        exact absurd (missing.symm.trans foundImage) nofun
    | some item =>
        obtain ⟨same, foundSame, itemAlike⟩ := mirror.items id item known found
        cases foundSame.symm.trans foundImage
        rw [isToken_of_kind (alike item found _ itemAlike.kind), keeps item found,
          isToken_of_kind itemAlike.kind]
  constructor
  · simp only [Forest.size_modify, mirror.size]
  · obtain ⟨root, image, found, foundOther, same⟩ := mirror.root
    refine ⟨root, image, ?_, ?_, same⟩
    · rw [Forest.get_modify, if_neg known, found]
    · rw [Forest.get_modify, if_neg (W.rename_ne_zero known), foundOther]
  · intro old notRoot inside
    have behind := mirror.earlier_le_rename known
    rw [Forest.get_modify, if_neg (by omega), mirror.earlier old notRoot inside]
  · intro changed item notRoot found
    rw [Forest.get_modify] at found ⊢
    simp only [W.rename_inj]
    by_cases here : id = changed
    · subst here
      rw [if_pos rfl] at found ⊢
      obtain ⟨before, foundBefore, rfl⟩ := Option.map_eq_some_iff.mp found
      obtain ⟨image, foundImage, itemAlike⟩ := mirror.items id before known foundBefore
      rw [foundImage]
      exact ⟨_, rfl, { itemAlike with kind := alike before foundBefore _ itemAlike.kind }⟩
    · rw [if_neg here] at found ⊢
      exact mirror.items changed item notRoot found
  · exact Forest.linked_changeKind keeps mirror.linked
  · exact Forest.linked_changeKind keepsImage mirror.linkedOther
  · exact mirror.ordered
  · exact mirror.orderedOther

/-- What is in order in the first forest is in order in the other one. -/
theorem isInOrder {owner item : Nat} {place : Section} (knownOwner : owner ≠ 0)
    (knownItem : item ≠ 0) (insideOwner : owner < forest.size) (inside : item < forest.size)
    (ascends : ∀ p q, W.front p → W.front q → p < q → W.move p < W.move q)
    (inOrder : forest.isInOrder owner item place = true) :
    other.isInOrder (W.rename owner) (W.rename item) place = true := by
  obtain ⟨owning, foundOwner⟩ := Forest.get_of_lt insideOwner
  obtain ⟨image, foundImage, alike⟩ := mirror.items owner owning knownOwner foundOwner
  obtain ⟨start, front⟩ := mirror.start_rename knownItem inside
  have starts : ∀ part ∈ owning.parts.all,
      other.start (W.rename part) = W.move (forest.start part) ∧ W.front (forest.start part) := by
    intro part member
    have owns : forest.Owns owner part := (Forest.owns_of_get foundOwner).mpr member
    have notRoot : part ≠ 0 := fun isRoot => mirror.not_part_zero (isRoot ▸ owns)
    exact mirror.start_rename notRoot (mirror.linked.part_lt_size owns)
  have parts : other.parts (W.rename owner) = owning.parts.map W.rename := by
    rw [Forest.parts_of_get foundImage, alike.parts]
  simp only [Forest.isInOrder, parts, Forest.parts_of_get foundOwner, Parts.neighbours_map, start,
    Bool.and_eq_true, Option.all_map] at inOrder ⊢
  rw [Forest.neighbours_eq] at inOrder ⊢
  have among : ∀ part, part ∈ owning.parts.upTo place ∨ part ∈ owning.parts.beyond place →
      part ∈ owning.parts.all := by
    intro part
    rw [Parts.all_eq owning.parts place]
    exact List.mem_append.mpr
  constructor
  · cases last : (owning.parts.upTo place).getLast? with
    | none => rfl
    | some part =>
        obtain ⟨startPart, frontPart⟩ := starts part (among part (Or.inl (List.mem_of_getLast? last)))
        have before := inOrder.1
        simp only [last, Option.all_some, decide_eq_true_eq, startPart] at before ⊢
        exact ascends _ _ frontPart front before
  · cases first : (owning.parts.beyond place).head? with
    | none => rfl
    | some part =>
        obtain ⟨startPart, frontPart⟩ := starts part (among part (Or.inr (List.mem_of_mem_head? first)))
        have behind := inOrder.2
        simp only [first, Option.all_some, decide_eq_true_eq, startPart] at behind ⊢
        exact ascends _ _ front frontPart behind

/-- An item that can be attached can be attached in the other forest, too. -/
theorem attach {owner item : Nat} {place : Section} {isChild : Bool} {next : Forest}
    (knownOwner : owner ≠ 0) (knownItem : item ≠ 0) (regular : isChild = true → place = .regular)
    (ascends : ∀ p q, W.front p → W.front q → p < q → W.move p < W.move q)
    (attached : forest.attach owner item place isChild = .ok next) :
    ∃ nextOther, other.attach (W.rename owner) (W.rename item) place isChild = .ok nextOther ∧
      W.Mirror next nextOther := by
  have linked := Forest.linked_attach mirror.linked regular attached
  obtain ⟨owning, part, foundOwner, complex, foundItem, apart, free, inOrder, rfl⟩ :=
    Forest.attach_ok_iff.mp attached
  obtain ⟨owningImage, foundOwnerImage, ownerAlike⟩ := mirror.items owner owning knownOwner foundOwner
  obtain ⟨partImage, foundItemImage, itemAlike⟩ := mirror.items item part knownItem foundItem
  have size := mirror.size
  have attachedOther : other.attach (W.rename owner) (W.rename item) place isChild =
      .ok (other.link (W.rename owner) (W.rename item) place isChild) := by
    refine Forest.attach_ok_iff.mpr ⟨owningImage, partImage, foundOwnerImage, ?_, foundItemImage,
      ?_, ?_, fun _ => ?_, rfl⟩
    · exact (isToken_of_kind ownerAlike.kind).trans complex
    · exact mirror.not_ancestor (by omega) apart
    · rw [itemAlike.parent, free]
      rfl
    · exact mirror.isInOrder knownOwner knownItem (Forest.get_lt_size foundOwner)
        (Forest.get_lt_size foundItem) ascends (inOrder mirror.ordered)
  refine ⟨_, attachedOther, ?_⟩
  have different : owner ≠ item := by
    simp only [Forest.isAncestorOrSelf, Forest.isAncestorOrSelfWithin, Bool.or_eq_false_iff,
      beq_eq_false_iff_ne, ne_eq] at apart
    exact apart.1
  have differentImage : W.rename owner ≠ W.rename item := mt W.rename_inj.mp different
  constructor
  · simp only [Forest.size_link, size]
  · obtain ⟨root, image, found, foundOther, same⟩ := mirror.root
    refine ⟨root, image, ?_, ?_, same⟩
    · rw [Forest.get_link_other knownItem.symm knownOwner.symm, found]
    · rw [Forest.get_link_other (W.rename_ne_zero knownItem).symm
        (W.rename_ne_zero knownOwner).symm, foundOther]
  · intro old notRoot inside
    have behindOwner := mirror.earlier_le_rename knownOwner
    have behindItem := mirror.earlier_le_rename knownItem
    rw [Forest.get_link_other (by omega) (by omega), mirror.earlier old notRoot inside]
  · intro id found known foundLinked
    by_cases isItem : id = item
    · subst isItem
      rw [Forest.get_link_item different, foundItem] at foundLinked
      rw [Forest.get_link_item differentImage, foundItemImage]
      cases foundLinked
      exact ⟨_, rfl, { itemAlike with parent := rfl }⟩
    · by_cases isOwner : id = owner
      · subst isOwner
        rw [Forest.get_link_owner different, foundOwner] at foundLinked
        rw [Forest.get_link_owner differentImage, foundOwnerImage]
        cases foundLinked
        refine ⟨_, rfl, { ownerAlike with parts := ?_ }⟩
        cases isChild <;> simp [ownerAlike.parts]
      · rw [Forest.get_link_other isItem isOwner] at foundLinked
        rw [Forest.get_link_other (mt W.rename_inj.mp isItem) (mt W.rename_inj.mp isOwner)]
        exact mirror.items id found known foundLinked
  · exact linked
  · exact Forest.linked_attach mirror.linkedOther regular attachedOther
  · exact mirror.ordered
  · exact mirror.orderedOther

/-! The root -/

/-- What stands below the root of the earlier parse stands where it stood. -/
theorem start_earlier {id : Nat} (linked : W.earlier.Linked) (known : id ≠ 0)
    (inside : id < W.earlier.size) : other.start id = W.earlier.start id := by
  obtain ⟨_, _, _, _, _, first, foundFirst, isFirst, _⟩ := mirror.root
  have closed : ∀ owner part, owner ≠ 0 ∧ owner < W.earlier.size → W.earlier.Owns owner part →
      part ≠ 0 ∧ part < W.earlier.size := by
    intro owner part _ owns
    refine ⟨?_, linked.part_lt_size owns⟩
    rintro rfl
    exact linked.not_owned ((Forest.parent_of_get foundFirst).trans isFirst.free) owns
  have same : ∀ id, id ≠ 0 ∧ id < W.earlier.size →
      ∃ a b, W.earlier.get? id = some a ∧ other.get? id = some b ∧ Forest.SameShape a b := by
    rintro id ⟨known, inside⟩
    obtain ⟨item, found⟩ := Forest.get_of_lt inside
    exact ⟨item, item, found, (mirror.earlier id known inside).trans found, rfl, rfl, rfl⟩
  exact (Forest.spans_agree linked mirror.linkedOther closed same ⟨known, inside⟩).1

/-- What is in order at the end of the first root is so at the end of the other one. -/
theorem isInOrder_root {item : Nat} (linked : W.earlier.Linked) (knownItem : item ≠ 0)
    (inside : item < forest.size)
    (behind : ∀ part ∈ (W.earlier.parts 0).all, ∀ p, W.front p → W.earlier.start part < W.move p)
    (ascends : ∀ p q, W.front p → W.front q → p < q → W.move p < W.move q)
    (inOrder : forest.isInOrder 0 item .regular = true) :
    other.isInOrder 0 (W.rename item) .regular = true := by
  obtain ⟨root, image, found, foundImage, alike⟩ := mirror.root
  obtain ⟨isRoot, first, foundFirst, isFirst, isImage⟩ := alike
  obtain ⟨start, front⟩ := mirror.start_rename knownItem inside
  have regular : image.parts = {
      regular := first.parts.regular ++ root.parts.regular.map W.rename
      children := first.parts.children ++ root.parts.children.map W.rename } := by
    rw [isImage, carryRoot, isRoot.parts, isFirst.parts]
    rfl
  simp only [Forest.isInOrder, Forest.parts_of_get foundImage, Forest.parts_of_get found, regular,
    start, Forest.neighbours, List.nil_append, List.head?_nil, Option.all_none, Bool.and_true]
    at inOrder ⊢
  cases last : root.parts.regular.getLast? with
  | some part =>
      have member := List.mem_of_getLast? last
      have among : part ∈ root.parts.all := by
        rw [isRoot.parts]
        simpa [Parts.all] using member
      have owns : forest.Owns 0 part := (Forest.owns_of_get found).mpr among
      have notRoot : part ≠ 0 := fun isRoot => mirror.not_part_zero (isRoot ▸ owns)
      obtain ⟨startPart, frontPart⟩ := mirror.start_rename notRoot (mirror.linked.part_lt_size owns)
      have before : forest.start part < forest.start item := by
        rw [isRoot.parts] at inOrder
        simpa [last] using inOrder
      simpa [last, startPart] using ascends _ _ frontPart front before
  | none =>
      have none : root.parts.regular = [] := List.getLast?_eq_none_iff.mp last
      simp only [none, List.map_nil, List.append_nil]
      cases lastFirst : first.parts.regular.getLast? with
      | none => rfl
      | some part =>
          have among : part ∈ (W.earlier.parts 0).all := by
            rw [Forest.parts_of_get foundFirst, isFirst.parts]
            simpa [Parts.all] using List.mem_of_getLast? lastFirst
          have owns : W.earlier.Owns 0 part := among
          have notRoot : part ≠ 0 := by
            rintro rfl
            exact linked.not_owned ((Forest.parent_of_get foundFirst).trans isFirst.free) owns
          rw [Option.all_some, mirror.start_earlier linked notRoot (linked.part_lt_size owns)]
          exact decide_eq_true (behind part among _ front)

/-- What can be attached to the end of the first root can be attached to the other one. -/
theorem attachRoot {item : Nat} {isChild : Bool} {next : Forest} (linked : W.earlier.Linked)
    (knownItem : item ≠ 0)
    (behind : ∀ part ∈ (W.earlier.parts 0).all, ∀ p, W.front p → W.earlier.start part < W.move p)
    (ascends : ∀ p q, W.front p → W.front q → p < q → W.move p < W.move q)
    (attached : forest.attach 0 item .regular isChild = .ok next) :
    ∃ nextOther, other.attach 0 (W.rename item) .regular isChild = .ok nextOther ∧
      W.Mirror next nextOther := by
  have linkedNext := Forest.linked_attach mirror.linked (fun _ => rfl) attached
  obtain ⟨root, part, found, _, foundItem, apart, free, inOrder, rfl⟩ :=
    Forest.attach_ok_iff.mp attached
  obtain ⟨_, image, sameFound, foundImage, alike⟩ := mirror.root
  cases sameFound.symm.trans found
  obtain ⟨partImage, foundItemImage, itemAlike⟩ := mirror.items item part knownItem foundItem
  have size := mirror.size
  have attachedOther : other.attach 0 (W.rename item) .regular isChild =
      .ok (other.link 0 (W.rename item) .regular isChild) := by
    refine Forest.attach_ok_iff.mpr ⟨image, partImage, foundImage, alike.isRootOther.complex,
      foundItemImage, ?_, ?_, fun _ => ?_, rfl⟩
    · exact mirror.not_ancestor (show forest.size + 1 ≤ other.size + 1 by omega) apart
    · rw [itemAlike.parent, free]
      rfl
    · exact mirror.isInOrder_root linked knownItem (Forest.get_lt_size foundItem) behind ascends
        (inOrder mirror.ordered)
  refine ⟨_, attachedOther, ?_⟩
  have knownImage := W.rename_ne_zero knownItem
  obtain ⟨isRoot, first, foundFirst, isFirst, rfl⟩ := alike
  constructor
  · simp only [Forest.size_link, size]
  · rw [Forest.get_link_owner knownItem.symm, found, Forest.get_link_owner knownImage.symm, foundImage]
    refine ⟨_, _, rfl, rfl, ⟨isRoot.free, isRoot.kind, ?_⟩, first, foundFirst, isFirst, ?_⟩
    · dsimp only
      rw [isRoot.parts]
      cases isChild <;> rfl
    · cases isChild <;> simp [carryRoot, Parts.append, Parts.map, Parts.push, Parts.pushChild]
  · intro old notRoot inside
    have behindItem := mirror.earlier_le_rename knownItem
    rw [Forest.get_link_other (by omega) notRoot, mirror.earlier old notRoot inside]
  · intro id itemFound known foundLinked
    by_cases isItem : id = item
    · subst isItem
      rw [Forest.get_link_item knownItem.symm, foundItem] at foundLinked
      rw [Forest.get_link_item knownImage.symm, foundItemImage]
      cases foundLinked
      exact ⟨_, rfl, { itemAlike with parent := rfl }⟩
    · rw [Forest.get_link_other isItem known] at foundLinked
      rw [Forest.get_link_other (mt W.rename_inj.mp isItem) (W.rename_ne_zero known)]
      exact mirror.items id itemFound known foundLinked
  · exact linkedNext
  · exact Forest.linked_attach mirror.linkedOther (fun _ => rfl) attachedOther
  · exact mirror.ordered
  · exact mirror.orderedOther

/-- What the first root notes of a new part the other one notes, too. -/
theorem changeRoot {change changeOther : ItemKind → ItemKind}
    (keeps : ∀ kind, (change kind).isToken = kind.isToken)
    (keepsOther : ∀ kind, (changeOther kind).isToken = kind.isToken)
    (alike : ∀ before others statements separators, ∃ more rest,
      change (.root statements separators) = .root more rest ∧
        changeOther ((ItemKind.root before others).append (W.carryKind (.root statements separators))) =
          (ItemKind.root before others).append (W.carryKind (.root more rest))) :
    W.Mirror (forest.modify 0 fun item => { item with kind := change item.kind })
      (other.modify 0 fun item => { item with kind := changeOther item.kind }) := by
  obtain ⟨root, _, found, foundImage, isRoot, first, foundFirst, isFirst, rfl⟩ := mirror.root
  obtain ⟨statements, separators, kind⟩ := isRoot.kind
  obtain ⟨before, others, kindFirst⟩ := isFirst.kind
  obtain ⟨more, rest, changed, changedOther⟩ := alike before others statements separators
  constructor
  · simp only [Forest.size_modify, mirror.size]
  · rw [Forest.get_modify, if_pos rfl, found, Forest.get_modify, if_pos rfl, foundImage]
    refine ⟨_, _, rfl, rfl, ⟨isRoot.free, ⟨more, rest, ?_⟩, isRoot.parts⟩, first, foundFirst, isFirst, ?_⟩
    · dsimp only
      rw [kind, changed]
    · simp only [carryRoot, kind, kindFirst, changed, changedOther]
  · intro old notRoot inside
    rw [Forest.get_modify, if_neg notRoot.symm, mirror.earlier old notRoot inside]
  · intro id item known foundItem
    rw [Forest.get_modify, if_neg known.symm] at foundItem
    rw [Forest.get_modify, if_neg (W.rename_ne_zero known).symm]
    exact mirror.items id item known foundItem
  · exact Forest.linked_changeKind (fun item _ => keeps item.kind) mirror.linked
  · exact Forest.linked_changeKind (fun item _ => keepsOther item.kind) mirror.linkedOther
  · exact mirror.ordered
  · exact mirror.orderedOther

end Mirror

end Tandem

end ExprLang
