import ExprLang.Proofs.Forest.Access

/-!
The items below a floor. Whatever is attached to items from the floor on leaves those below alone,
but for the owner that an item below may get, and a cut at the floor takes that away again.
-/

namespace ExprLang

/-- The item without an owner from `floor` on. -/
def Item.within (floor : Nat) (item : Item) : Item :=
  { item with parent := item.parent.filter (· < floor) }

namespace Forest

/-- The items below `floor` name only one another. -/
structure Floor (floor : Nat) (forest : Forest) : Prop where
  size : floor ≤ forest.size
  below : ∀ id < floor, ∀ part ∈ (forest.parts id).named, part < floor

/-- No item names one that does not exist. -/
structure Closed (forest : Forest) : Prop where
  parts : ∀ id, ∀ part ∈ (forest.parts id).named, part < forest.size
  owners : ∀ id owner, forest.parent? id = some owner → owner < forest.size

/-- The items below `floor` are the same in both, but for owners from `floor` on. -/
structure Untouched (floor : Nat) (before after : Forest) : Prop where
  ordered : after.ordered = before.ordered
  items : ∀ id < floor, (after.get? id).map (Item.within floor) = (before.get? id).map (Item.within floor)

variable {floor : Nat} {forest : Forest}

theorem untouched_refl (floor : Nat) (forest : Forest) : Untouched floor forest forest :=
  ⟨rfl, fun _ _ => rfl⟩

theorem Untouched.trans {first second third : Forest} (left : Untouched floor first second)
    (right : Untouched floor second third) : Untouched floor first third :=
  ⟨right.ordered.trans left.ordered, fun id below => (right.items id below).trans (left.items id below)⟩

/-- Parts and kinds are the same. -/
theorem Untouched.same {before after : Forest} (untouched : Untouched floor before after) {id : Nat}
    (below : id < floor) :
    after.parts id = before.parts id ∧ after.kind? id = before.kind? id := by
  have parts : ∀ forest : Forest, forest.parts id =
      (((forest.get? id).map (Item.within floor)).map (·.parts)).getD {} := fun forest => by
    rw [Option.map_map]
    rfl
  have kinds : ∀ forest : Forest, forest.kind? id =
      ((forest.get? id).map (Item.within floor)).map (·.kind) := fun forest => by
    rw [Option.map_map]
    rfl
  rw [parts, parts, kinds, kinds, untouched.items id below]
  exact ⟨rfl, rfl⟩

theorem floor_zero (forest : Forest) : Floor 0 forest :=
  ⟨Nat.zero_le _, fun id below => absurd below (Nat.not_lt_zero id)⟩

/-- At the size of the forest every item is below the floor. -/
theorem Closed.at_size (closed : Closed forest) : Floor forest.size forest :=
  ⟨Nat.le_refl _, fun id _ => closed.parts id⟩

theorem parts_push_new {item : Item} : (forest.push item).2.parts forest.size = item.parts :=
  parts_of_get (get_push_new item)

theorem parts_push_old {item : Item} {id : Nat} (bare : item.parts = {}) :
    (forest.push item).2.parts id = forest.parts id := by
  by_cases new : id = forest.size
  · have absent : forest.get? id = none := by
      simp [new, get?, size]
    rw [new, parts_push_new, bare, ← new]
    simp [parts, absent]
  · simp [parts, get_push, new]

theorem floor_push {item : Item} (bare : item.parts = {}) (holds : Floor floor forest) :
    Floor floor (forest.push item).2 := by
  refine ⟨?_, ?_⟩
  · rw [size_push]
    exact Nat.le_succ_of_le holds.size
  · intro id below
    rw [parts_push_old bare]
    exact holds.below id below

theorem closed_push {item : Item} (bare : item.parts = {}) (free : item.parent = none)
    (closed : Closed forest) : Closed (forest.push item).2 := by
  refine ⟨fun id part member => ?_, fun id owner owned => ?_⟩ <;> rw [size_push]
  · rw [parts_push_old bare] at member
    exact Nat.lt_succ_of_lt (closed.parts id part member)
  · simp only [parent?, get_push] at owned
    split at owned
    · simp [free] at owned
    · exact Nat.lt_succ_of_lt (closed.owners id owner owned)

theorem untouched_push {item : Item} (holds : Floor floor forest) :
    Untouched floor forest (forest.push item).2 :=
  ⟨rfl, fun id below => by rw [get_push_old item (Nat.lt_of_lt_of_le below holds.size)]⟩

theorem mem_named_push {parts : Parts} {part other : ItemId} {place : Section} {isChild : Bool}
    (member : other ∈ (if isChild then (parts.push part place).pushChild part
      else parts.push part place).named) : other ∈ parts.named ∨ other = part := by
  cases isChild <;>
    simp only [Parts.named, List.mem_append, Parts.mem_all_push, Parts.children_push, if_true,
      Bool.false_eq_true, if_false, Parts.all_pushChild, Parts.children_pushChild,
      List.mem_singleton] at member ⊢ <;> grind

theorem floor_link {owner item : Nat} {place : Section} {isChild : Bool} (above : floor ≤ owner)
    (holds : Floor floor forest) : Floor floor (forest.link owner item place isChild) := by
  refine ⟨by simpa using holds.size, ?_⟩
  intro id below
  rw [parts_link_other (by omega)]
  exact holds.below id below

theorem closed_link {owner item : Nat} {place : Section} {isChild : Bool}
    (ownerInside : owner < forest.size) (itemInside : item < forest.size)
    (closed : Closed forest) : Closed (forest.link owner item place isChild) := by
  refine ⟨fun id part member => ?_, fun id parent owned => ?_⟩ <;> rw [size_link]
  · by_cases isOwner : id = owner
    · rw [isOwner, parts_link_owner ownerInside] at member
      rcases mem_named_push member with old | new
      · exact closed.parts owner part old
      · exact new ▸ itemInside
    · rw [parts_link_other isOwner] at member
      exact closed.parts id part member
  · by_cases isItem : id = item
    · subst isItem
      rw [parent_link_item itemInside] at owned
      cases owned
      exact ownerInside
    · rw [parent_link_other isItem] at owned
      exact closed.owners id parent owned

/-- What is attached has no owner before, and one from the floor on behind. -/
theorem untouched_link {owner item : Nat} {place : Section} {isChild : Bool}
    (above : floor ≤ owner) (free : forest.parent? item = none) :
    Untouched floor forest (forest.link owner item place isChild) := by
  refine ⟨rfl, fun id below => ?_⟩
  have notOwner : id ≠ owner := by omega
  by_cases isItem : id = item
  · subst isItem
    rw [get_link_item notOwner.symm]
    cases found : forest.get? id with
    | none => rfl
    | some here =>
        have noOwner : here.parent = none := by simpa only [parent?, found, Option.bind_some] using free
        simp [Item.within, noOwner, above]
  · rw [get_link_other isItem notOwner]

theorem parts_changeKind {id other : Nat} {change : ItemKind → ItemKind} :
    (forest.modify id fun item => { item with kind := change item.kind }).parts other =
      forest.parts other := by
  simp only [parts, get_modify]
  split <;> simp [Function.comp_def]

theorem floor_changeKind {id : Nat} {change : ItemKind → ItemKind} (holds : Floor floor forest) :
    Floor floor (forest.modify id fun item => { item with kind := change item.kind }) := by
  refine ⟨by simpa using holds.size, ?_⟩
  intro other below
  rw [parts_changeKind]
  exact holds.below other below

theorem parent_changeKind {id other : Nat} {change : ItemKind → ItemKind} :
    (forest.modify id fun item => { item with kind := change item.kind }).parent? other =
      forest.parent? other := by
  simp only [parent?, get_modify]
  split <;> simp [Option.bind_map, Function.comp_def]

theorem closed_changeKind {id : Nat} {change : ItemKind → ItemKind} (closed : Closed forest) :
    Closed (forest.modify id fun item => { item with kind := change item.kind }) := by
  refine ⟨fun other part member => ?_, fun other owner owned => ?_⟩
  · rw [parts_changeKind] at member
    simpa using closed.parts other part member
  · rw [parent_changeKind] at owned
    simpa using closed.owners other owner owned

theorem untouched_changeKind {id : Nat} {change : ItemKind → ItemKind} (above : floor ≤ id) :
    Untouched floor forest (forest.modify id fun item => { item with kind := change item.kind }) :=
  ⟨rfl, fun other below => by simp only [get_modify, if_neg (show ¬ id = other by omega)]⟩

theorem filter_parts_below {parts : Parts} {count : Nat} (inside : ∀ part ∈ parts.named, part < count) :
    parts.filter (· < count) = parts := by
  have keep : ∀ ids : List ItemId, (∀ id ∈ ids, id < count) →
      ids.filter (fun id => decide (id < count)) = ids := fun ids all =>
    List.filter_eq_self.mpr fun id member => decide_eq_true (all id member)
  simp only [Parts.named, Parts.all, List.mem_append] at inside
  simp only [Parts.filter]
  rw [keep parts.prefixes (by grind), keep parts.keywords (by grind), keep parts.regular (by grind),
    keep parts.postfixes (by grind), keep parts.children (by grind)]

theorem parts_truncate {id count : Nat} (inside : id < count) (cut : count < forest.size) :
    (forest.truncate count).parts id = (forest.parts id).filter (· < count) := by
  obtain ⟨item, found⟩ := get_of_lt (Nat.lt_trans inside cut)
  simp [parts, get_truncate inside cut, found]

theorem get_truncate_outside {id count : Nat} (outside : ¬ id < count) (cut : count < forest.size) :
    (forest.truncate count).get? id = none := by
  have := size_truncate (Nat.le_of_lt cut)
  unfold get?
  exact Array.getElem?_eq_none (by simp only [size] at this; omega)

theorem floor_truncate {count : Nat} (above : floor ≤ count) (holds : Floor floor forest) :
    Floor floor (forest.truncate count) := by
  by_cases cut : count < forest.size
  · refine ⟨by rw [size_truncate (Nat.le_of_lt cut)]; exact above, ?_⟩
    intro id below part member
    rw [parts_truncate (Nat.lt_of_lt_of_le below above) cut, filter_parts_below] at member
    · exact holds.below id below part member
    · exact fun other named => Nat.lt_of_lt_of_le (holds.below id below other named) above
  · rw [truncate_of_le (by omega)]
    exact holds

theorem closed_truncate {count : Nat} (closed : Closed forest) : Closed (forest.truncate count) := by
  by_cases cut : count < forest.size
  · have size := size_truncate (Nat.le_of_lt cut)
    refine ⟨fun id part member => ?_, fun id owner owned => ?_⟩ <;> rw [size]
    · by_cases inside : id < count
      · rw [parts_truncate inside cut] at member
        simp only [Parts.named, Parts.all, Parts.filter, List.mem_append, List.mem_filter,
          decide_eq_true_eq] at member
        grind
      · simp [parts, get_truncate_outside inside cut] at member
    · by_cases inside : id < count
      · simp only [parent?, get_truncate inside cut] at owned
        obtain ⟨item, here, kept⟩ := Option.bind_eq_some_iff.mp owned
        obtain ⟨old, _, rfl⟩ := Option.map_eq_some_iff.mp here
        exact of_decide_eq_true (Option.filter_eq_some_iff.mp kept).2
      · simp [parent?, get_truncate_outside inside cut] at owned
  · rw [truncate_of_le (by omega)]
    exact closed

theorem untouched_truncate {count : Nat} (above : floor ≤ count) (holds : Floor floor forest) :
    Untouched floor forest (forest.truncate count) := by
  by_cases cut : count < forest.size
  · refine ⟨by simp only [truncate]; split <;> rfl, fun id below => ?_⟩
    have inside : id < count := Nat.lt_of_lt_of_le below above
    rw [get_truncate inside cut]
    cases found : forest.get? id with
    | none => rfl
    | some item =>
        have parts : item.parts.filter (· < count) = item.parts := filter_parts_below fun part member =>
          Nat.lt_of_lt_of_le (holds.below id below part (parts_of_get found ▸ member)) above
        have owners : (item.parent.filter (· < count)).filter (· < floor) = item.parent.filter (· < floor) := by
          cases item.parent with
          | none => rfl
          | some owner => grind
        simp [Item.within, parts, owners]
  · rw [truncate_of_le (by omega)]
    exact untouched_refl _ _

theorem ordered_truncate {count : Nat} : (forest.truncate count).ordered = forest.ordered := by
  unfold truncate
  split <;> rfl

/-- Forests with the same items are the same. -/
theorem ext_get {before after : Forest} (size : after.size = before.size)
    (ordered : after.ordered = before.ordered) (items : ∀ id < before.size, after.get? id = before.get? id) :
    after = before := by
  have sameItems : after.items = before.items := by
    refine Array.ext_getElem? fun id => ?_
    by_cases inside : id < before.size
    · exact items id inside
    · have outside := Nat.le_of_not_lt inside
      rw [Array.getElem?_eq_none (Nat.le_trans (Nat.le_of_eq size) outside), Array.getElem?_eq_none outside]
  cases before
  cases after
  cases sameItems
  cases ordered
  rfl

/-- A cut at the floor gives back what was there. -/
theorem Untouched.truncate {before after : Forest} (untouched : Untouched before.size before after)
    (holds : Floor before.size after) (closed : Closed before) (closedAfter : Closed after) :
    after.truncate before.size = before := by
  have noLater : ∀ {forest : Forest} {id : Nat} {item : Item} {count : Nat}, Closed forest →
      forest.size ≤ count → forest.get? id = some item → item.within count = item := by
    intro forest id item count closed small found
    have owners : item.parent.filter (· < count) = item.parent := by
      cases owned : item.parent with
      | none => rfl
      | some owner =>
          have inside := closed.owners id owner ((parent_of_get found).trans owned)
          simp [Nat.lt_of_lt_of_le inside small]
    simp [Item.within, owners]
  have items : ∀ id < before.size, (after.truncate before.size).get? id = before.get? id := by
    intro id inside
    obtain ⟨item, found⟩ := get_of_lt inside
    obtain ⟨other, foundAfter⟩ := get_of_lt (Nat.lt_of_lt_of_le inside holds.size)
    have same := untouched.items id inside
    rw [found, foundAfter, Option.map_some, Option.map_some, noLater closed (Nat.le_refl _) found] at same
    by_cases cut : before.size < after.size
    · have parts : other.parts.filter (· < before.size) = other.parts := filter_parts_below
        fun part member => holds.below id inside part (parts_of_get foundAfter ▸ member)
      rw [get_truncate inside cut, foundAfter, found, Option.map_some, parts]
      exact same
    · have small := Nat.le_of_not_lt cut
      rw [truncate_of_le small, foundAfter, found, ← Option.some.inj same, noLater closedAfter small foundAfter]
  exact ext_get (size_truncate holds.size) (ordered_truncate.trans untouched.ordered) items

end Forest

end ExprLang
