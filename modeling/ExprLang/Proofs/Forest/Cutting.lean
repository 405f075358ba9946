import ExprLang.Proofs.Forest.Sections

/-!
Undoing calls by a cut. What is made behind a tree may own old items or be owned by them, in any section
and in chains of any depth, but each link has a new item on one of its sides. A cut goes by the numbers
of the items: it takes the new items away, and with them the new parts of old items and their new owners.
What is left is the tree as it was.
-/

namespace ExprLang

/-- The item without its links to those from `count` on. -/
def Item.below (count : Nat) (item : Item) : Item :=
  { item with
    parent := item.parent.filter (· < count)
    parts := item.parts.filter (· < count) }

namespace Parts

variable {parts : Parts} {part count : Nat} {place : Section}

theorem filter_push (behind : count ≤ part) :
    (parts.push part place).filter (· < count) = parts.filter (· < count) := by
  cases place <;> simp [push, filter, Nat.not_lt_of_le behind]

theorem filter_pushChild (behind : count ≤ part) :
    (parts.pushChild part).filter (· < count) = parts.filter (· < count) := by
  simp [pushChild, filter, Nat.not_lt_of_le behind]

end Parts

namespace Forest

variable {before after forest : Forest} {owner item : Nat} {place : Section} {isChild : Bool}

theorem Closed.below {id : Nat} {found : Item} {count : Nat} (closed : forest.Closed)
    (small : forest.size ≤ count) (here : forest.get? id = some found) : found.below count = found := by
  have parts : found.parts.filter (· < count) = found.parts := filter_parts_below fun part member =>
    Nat.lt_of_lt_of_le (closed.parts id part (parts_of_get here ▸ member)) small
  have owners : found.parent.filter (· < count) = found.parent := by
    cases owned : found.parent with
    | none => rfl
    | some owner =>
        have inside := closed.owners id owner ((parent_of_get here).trans owned)
        simp [Nat.lt_of_lt_of_le inside small]
  rw [Item.below, parts, owners]

/-- The items of `before` are those of `after`, but for links to items that are new. -/
structure Extended (before after : Forest) : Prop where
  size : before.size ≤ after.size
  ordered : after.ordered = before.ordered
  items : ∀ id < before.size, (after.get? id).map (Item.below before.size) = before.get? id

theorem extended_refl (closed : forest.Closed) : Extended forest forest where
  size := Nat.le_refl _
  ordered := rfl
  items id inside := by
    obtain ⟨item, found⟩ := get_of_lt inside
    rw [found, Option.map_some, closed.below (Nat.le_refl _) found]

theorem Extended.push (extended : Extended before after) (new : Item) :
    Extended before (after.push new).2 where
  size := by
    rw [size_push]
    exact Nat.le_succ_of_le extended.size
  ordered := extended.ordered
  items id inside := by
    rw [get_push_old new (Nat.lt_of_lt_of_le inside extended.size)]
    exact extended.items id inside

/-- A link with a new item on one of its sides leaves no trace below. -/
theorem Extended.link (extended : Extended before after) (different : owner ≠ item)
    (free : after.parent? item = none) (new : before.size ≤ owner ∨ before.size ≤ item) :
    Extended before (after.link owner item place isChild) where
  size := by
    rw [size_link]
    exact extended.size
  ordered := extended.ordered
  items id inside := by
    rw [← extended.items id inside]
    obtain ⟨old, found⟩ := get_of_lt (Nat.lt_of_lt_of_le inside extended.size)
    by_cases isOwner : id = owner
    · subst isOwner
      have newPart : before.size ≤ item := new.resolve_left (Nat.not_le_of_lt inside)
      rw [get_link_owner different, found]
      cases isChild <;> simp [Item.below, Parts.filter_push newPart, Parts.filter_pushChild newPart]
    · by_cases isItem : id = item
      · subst isItem
        have newOwner : before.size ≤ owner := new.resolve_right (Nat.not_le_of_lt inside)
        have noParent : old.parent = none := (parent_of_get found).symm.trans free
        rw [get_link_item different, found]
        simp [Item.below, noParent, newOwner]
      · rw [get_link_other isItem isOwner]

/-- The cut gives back what was extended. -/
theorem Extended.truncate (extended : Extended before after) (closed : after.Closed) :
    after.truncate before.size = before := by
  refine ext_get (size_truncate extended.size) (ordered_truncate.trans extended.ordered) ?_
  intro id inside
  rw [← extended.items id inside]
  by_cases cut : before.size < after.size
  · exact get_truncate inside cut
  · have small := Nat.le_of_not_lt cut
    obtain ⟨old, found⟩ := get_of_lt (Nat.lt_of_lt_of_le inside extended.size)
    rw [truncate_of_le small, found, Option.map_some, closed.below small found]

end Forest

open Forest

namespace Edit

/-- If the call attaches something, then one of the two items has at least the number `count`. -/
def LinksFrom (count : Nat) (forest : Forest) (edit : Edit) : Prop :=
  ∀ link ∈ edit.link?, (edit.apply forest).isOk = true → count ≤ link.1 ∨ count ≤ link.2

/-- So it is for each call in the forest that it finds. -/
def AllLinkFrom (count : Nat) (forest : Forest) : List Edit → Prop
  | [] => True
  | edit :: rest => edit.LinksFrom count forest ∧ AllLinkFrom count (edit.run forest) rest

instance (count : Nat) (forest : Forest) (edit : Edit) : Decidable (edit.LinksFrom count forest) :=
  inferInstanceAs (Decidable (∀ link ∈ edit.link?, _))

instance decidableAllLinkFrom (count : Nat) :
    ∀ (edits : List Edit) (forest : Forest), Decidable (AllLinkFrom count forest edits)
  | [], _ => isTrue trivial
  | edit :: rest, forest =>
      have := decidableAllLinkFrom count rest (edit.run forest)
      inferInstanceAs (Decidable (edit.LinksFrom count forest ∧ AllLinkFrom count (edit.run forest) rest))

variable {forest before after : Forest} {edit : Edit}

theorem extended_run (builds : edit.Builds) (extended : Extended before after)
    (new : edit.LinksFrom before.size after) : Extended before (edit.run after) := by
  rcases makes_or_links builds with ⟨item, _, _, made⟩ | ⟨owner, item, place, isChild, isLink, _, same⟩
  · rw [made]
    exact extended.push item
  · rw [run, same]
    cases attached : after.attach owner item place isChild with
    | error error => exact extended
    | ok next =>
        obtain ⟨owning, part, foundOwner, _, foundItem, apart, free, _, rfl⟩ := attach_ok_iff.mp attached
        have different : owner ≠ item := by
          rintro rfl
          simp [isAncestorOrSelf, isAncestorOrSelfWithin] at apart
        refine extended.link different ((parent_of_get foundItem).trans free) ?_
        exact new (owner, item) isLink (by rw [same, attached]; rfl)

end Edit

theorem Forest.extended_edit {before after : Forest} (extended : Extended before after) {edits : List Edit}
    (builds : ∀ edit ∈ edits, edit.Builds) (new : Edit.AllLinkFrom before.size after edits) :
    Extended before (after.edit edits) := by
  induction edits generalizing after with
  | nil => exact extended
  | cons first rest ih =>
      exact ih (first.extended_run (builds first List.mem_cons_self) extended new.1)
        (fun edit member => builds edit (List.mem_cons_of_mem _ member)) new.2

/-- Whatever calls have made a tree, and whatever calls build on it, with old items below new ones and
new items below old ones: if each new link has a new item on one of its sides, a cut at the size of the
tree gives exactly the tree. -/
theorem Forest.truncate_undoes_edits (history edits : List Edit) (builds : ∀ edit ∈ edits, edit.Builds)
    (new : Edit.AllLinkFrom (({} : Forest).edit history).size (({} : Forest).edit history) edits) :
    ((({} : Forest).edit history).edit edits).truncate (({} : Forest).edit history).size =
      ({} : Forest).edit history := by
  have linked := linked_edit linked_empty history
  have extended := extended_edit (extended_refl linked.closed) builds new
  exact extended.truncate (linked_edit linked edits).closed

/-- A series with a name, and a keyword and another name beside it. -/
def Edit.halfBuilt : List Edit :=
  [.create .series 0, .createToken .name "x" 4, .addChild 0 1, .createToken (.keyword 1) "k" 6,
    .createToken .name "y" 9]

/-- A new item takes in the old keyword and the old name, and the old series takes in the new item; new
tokens become parts of the old series, and a link between old items is refused. -/
def Edit.builtAround : List Edit :=
  [.create .series 6, .addKeyword 4 2, .addChild 4 3, .addChild 0 4, .createToken .custom "p" 0,
    .addPrefix 0 5, .addRegular 0 3, .createToken .custom "q" 12, .addPostfix 0 6]

theorem Forest.undone_around_old_items :
    (∀ edit ∈ Edit.builtAround, edit.Builds) ∧
      Edit.AllLinkFrom 4 (({} : Forest).edit Edit.halfBuilt) Edit.builtAround ∧
      ((({} : Forest).edit Edit.halfBuilt).edit Edit.builtAround).parts 0 =
        { prefixes := [5], regular := [1, 4], postfixes := [6], children := [1, 4] } ∧
      ((({} : Forest).edit Edit.halfBuilt).edit Edit.builtAround).parent? 3 = some 4 ∧
      ((({} : Forest).edit Edit.halfBuilt).edit Edit.builtAround).truncate 4 =
        ({} : Forest).edit Edit.halfBuilt := by
  have builds : ∀ edit ∈ Edit.builtAround, edit.Builds := by decide
  have size : (({} : Forest).edit Edit.halfBuilt).size = 4 := by decide +kernel
  have new : Edit.AllLinkFrom 4 (({} : Forest).edit Edit.halfBuilt) Edit.builtAround := by
    decide +kernel
  have undone := truncate_undoes_edits Edit.halfBuilt Edit.builtAround builds (by rwa [size])
  rw [size] at undone
  exact ⟨builds, new, by decide +kernel, by decide +kernel, undone⟩

end ExprLang
