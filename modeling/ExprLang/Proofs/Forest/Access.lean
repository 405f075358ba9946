import ExprLang.Forest.Basic

/-!
What a change of the forest does to each of its items. Every later statement on a change is read
off these equations; nothing else opens the array of items.
-/

namespace ExprLang

namespace Parts

@[simp]
theorem all_empty : ({} : Parts).all = [] := rfl

@[simp]
theorem get_push_self (parts : Parts) (part : ItemId) (place : Section) :
    (parts.push part place).get place = parts.get place ++ [part] := by
  cases place <;> rfl

theorem get_push_other (parts : Parts) (part : ItemId) {place other : Section}
    (different : other ≠ place) : (parts.push part place).get other = parts.get other := by
  cases place <;> cases other <;> first | rfl | exact absurd rfl different

@[simp]
theorem children_push (parts : Parts) (part : ItemId) (place : Section) :
    (parts.push part place).children = parts.children := by
  cases place <;> rfl

@[simp]
theorem all_pushChild (parts : Parts) (part : ItemId) : (parts.pushChild part).all = parts.all := rfl

@[simp]
theorem children_pushChild (parts : Parts) (part : ItemId) :
    (parts.pushChild part).children = parts.children ++ [part] := rfl

theorem mem_all_push {parts : Parts} {part other : ItemId} {place : Section} :
    other ∈ (parts.push part place).all ↔ other ∈ parts.all ∨ other = part := by
  cases place <;> simp only [push, all, List.mem_append, List.mem_singleton] <;> grind

/-- Every item that the parts name. -/
def named (parts : Parts) : List ItemId := parts.all ++ parts.children

@[simp]
theorem named_empty : ({} : Parts).named = [] := rfl

end Parts

namespace Forest

variable {forest : Forest} {id other : Nat}

theorem get_lt_size {item : Item} (found : forest.get? id = some item) : id < forest.size := by
  unfold get? at found
  exact (Array.getElem?_eq_some_iff.mp found).1

theorem get_of_lt (inside : id < forest.size) : ∃ item, forest.get? id = some item :=
  ⟨_, Array.getElem?_eq_getElem inside⟩

theorem parts_of_get {item : Item} (found : forest.get? id = some item) :
    forest.parts id = item.parts := by
  simp [parts, found]

theorem parent_of_get {item : Item} (found : forest.get? id = some item) :
    forest.parent? id = item.parent := by
  simp [parent?, found]

theorem kind_of_get {item : Item} (found : forest.get? id = some item) :
    forest.kind? id = some item.kind := by
  simp [kind?, found]

theorem lt_size_of_kind {kind : ItemKind} (isKind : forest.kind? id = some kind) :
    id < forest.size := by
  obtain ⟨item, found, _⟩ := Option.map_eq_some_iff.mp isKind
  exact get_lt_size found

theorem get_of_parent {owner : ItemId} (owned : forest.parent? id = some owner) :
    ∃ item, forest.get? id = some item ∧ item.parent = some owner := by
  unfold parent? at owned
  exact Option.bind_eq_some_iff.mp owned

theorem get_of_part {part : ItemId} (member : part ∈ (forest.parts id).all) :
    ∃ item, forest.get? id = some item ∧ part ∈ item.parts.all := by
  unfold parts at member
  cases found : forest.get? id with
  | none => simp [found] at member
  | some item => exact ⟨item, rfl, by simpa [found] using member⟩

/-! A new item -/

@[simp]
theorem size_push (item : Item) : (forest.push item).2.size = forest.size + 1 := by
  simp [push, size]

@[simp]
theorem push_id (item : Item) : (forest.push item).1 = forest.size := rfl

theorem get_push (item : Item) :
    (forest.push item).2.get? other = if other = forest.size then some item else forest.get? other := by
  simp only [push, get?, size, Array.getElem?_push]
  rfl

theorem get_push_old (item : Item) (old : other < forest.size) :
    (forest.push item).2.get? other = forest.get? other := by
  rw [get_push, if_neg (Nat.ne_of_lt old)]

@[simp]
theorem get_push_new (item : Item) : (forest.push item).2.get? forest.size = some item := by
  rw [get_push, if_pos rfl]

theorem kind_push_old {new : Item} {id : Nat} (inside : id < forest.size) :
    (forest.push new).2.kind? id = forest.kind? id := by
  rw [kind?, get_push_old new inside, kind?]

/-! A changed item -/

@[simp]
theorem size_modify (change : Item → Item) : (forest.modify id change).size = forest.size := by
  simp [modify, size]

theorem get_modify (change : Item → Item) :
    (forest.modify id change).get? other =
      if id = other then (forest.get? other).map change else forest.get? other := by
  simp only [modify, get?, Array.getElem?_modify]

@[simp]
theorem ordered_modify (change : Item → Item) : (forest.modify id change).ordered = forest.ordered :=
  rfl

/-! A new link -/

variable {owner item : Nat} {place : Section} {isChild : Bool}

@[simp]
theorem size_link : (forest.link owner item place isChild).size = forest.size := by
  simp [link]

@[simp]
theorem ordered_link : (forest.link owner item place isChild).ordered = forest.ordered := rfl

theorem get_link_other (notItem : other ≠ item) (notOwner : other ≠ owner) :
    (forest.link owner item place isChild).get? other = forest.get? other := by
  simp only [link, get_modify, if_neg (Ne.symm notItem), if_neg (Ne.symm notOwner)]

theorem get_link_item (different : owner ≠ item) :
    (forest.link owner item place isChild).get? item =
      (forest.get? item).map fun attached => { attached with parent := some owner } := by
  simp only [link, get_modify, if_neg different, if_true]

theorem get_link_owner (different : owner ≠ item) :
    (forest.link owner item place isChild).get? owner =
      (forest.get? owner).map fun owning =>
        { owning with parts :=
            if isChild then (owning.parts.push item place).pushChild item
            else owning.parts.push item place } := by
  simp only [link, get_modify, if_neg (Ne.symm different), if_true]

theorem parts_link_other (notOwner : other ≠ owner) :
    (forest.link owner item place isChild).parts other = forest.parts other := by
  simp only [parts, link, get_modify, if_neg (Ne.symm notOwner)]
  split <;> simp [Function.comp_def]

theorem parts_link_owner (inside : owner < forest.size) :
    (forest.link owner item place isChild).parts owner =
      if isChild then ((forest.parts owner).push item place).pushChild item
      else (forest.parts owner).push item place := by
  obtain ⟨owning, found⟩ := get_of_lt inside
  simp only [parts, link, get_modify, if_true, found]
  by_cases same : item = owner <;> simp [same]

theorem parent_link_item (inside : item < forest.size) :
    (forest.link owner item place isChild).parent? item = some owner := by
  obtain ⟨attached, found⟩ := get_of_lt inside
  simp only [parent?, link, get_modify, if_true, found]
  by_cases same : owner = item <;> simp [same]

theorem parent_link_other {other : Nat} (notItem : other ≠ item) :
    (forest.link owner item place isChild).parent? other = forest.parent? other := by
  simp only [parent?, link, get_modify, if_neg (Ne.symm notItem)]
  split
  · cases forest.get? other <;> rfl
  · rfl

/-- What an item is in itself, whatever it is attached to. -/
def face? (forest : Forest) (id : ItemId) : Option (ItemKind × Nat × Nat) :=
  (forest.get? id).map fun item => (item.kind, item.start, item.length)

theorem lt_size_of_face {face : ItemKind × Nat × Nat} (found : forest.face? id = some face) :
    id < forest.size := by
  obtain ⟨item, here, _⟩ := Option.map_eq_some_iff.mp found
  exact get_lt_size here

theorem kind_eq_face : forest.kind? id = (forest.face? id).map (·.1) := by
  rw [kind?, face?, Option.map_map]
  rfl

theorem face_push_old {new : Item} (inside : id < forest.size) :
    (forest.push new).2.face? id = forest.face? id := by
  rw [face?, get_push_old new inside, face?]

theorem face_push_new {new : Item} :
    (forest.push new).2.face? forest.size = some (new.kind, new.start, new.length) := by
  rw [face?, get_push_new, Option.map_some]

theorem face_link : (forest.link owner item place isChild).face? other = forest.face? other := by
  simp only [face?, link, get_modify]
  by_cases isOwner : owner = other <;> by_cases isItem : item = other <;>
    simp [isOwner, isItem, Function.comp_def]

theorem kind_link : (forest.link owner item place isChild).kind? other = forest.kind? other := by
  rw [kind_eq_face, face_link, kind_eq_face]

/-- Attaching either changes nothing or makes the link. -/
theorem attach_ok {next : Forest} (attached : forest.attach owner item place isChild = .ok next) :
    next = forest.link owner item place isChild ∧ owner < forest.size ∧ item < forest.size := by
  unfold attach at attached
  split at attached
  · cases attached
  · rename_i owning foundOwner
    split at attached
    · cases attached
    · split at attached
      · cases attached
      · rename_i attachedItem foundItem
        split at attached
        · cases attached
        · split at attached
          · cases attached
          · split at attached
            · cases attached
            · cases attached
              exact ⟨rfl, get_lt_size foundOwner, get_lt_size foundItem⟩

/-- Only what has no owner is attached. -/
theorem free_of_attach {next : Forest} (attached : forest.attach owner item place isChild = .ok next) :
    forest.parent? item = none := by
  unfold attach at attached
  split at attached
  · cases attached
  · split at attached
    · cases attached
    · split at attached
      · cases attached
      · rename_i foundItem
        split at attached
        · cases attached
        · split at attached
          · cases attached
          · rename_i free
            simp only [parent?, foundItem, Option.bind_some, free]

/-! A cut -/

theorem truncate_of_le {count : Nat} (small : forest.size ≤ count) :
    forest.truncate count = forest := by
  simp [truncate, small]

theorem size_truncate {count : Nat} (inside : count ≤ forest.size) :
    (forest.truncate count).size = count := by
  unfold truncate
  split
  · omega
  · simp only [size, Array.size_map, Array.size_extract]
    have : count ≤ forest.items.size := inside
    omega

theorem get_truncate {count : Nat} (inside : other < count) (cut : count < forest.size) :
    (forest.truncate count).get? other = (forest.get? other).map fun item =>
      { item with
        parent := item.parent.filter (· < count)
        parts := item.parts.filter (· < count) } := by
  have notSmall : ¬ forest.size ≤ count := by omega
  have within : other < min count forest.items.size := by
    have : count < forest.items.size := cut
    omega
  simp only [truncate, notSmall, if_false, get?, Array.getElem?_map]
  rw [Array.getElem?_extract, if_pos (by simpa using within), Nat.zero_add]

end Forest

end ExprLang
