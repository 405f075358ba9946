import ExprLang.Proofs.Forest.Floor
import Mathlib.Data.Finset.Card
import Mathlib.Logic.Relation

/-!
Owners and parts. In a linked forest the parts of an item are just the items that name it as their
parent, each once, and nothing stands above itself. So every walk down ends after fewer steps than
there are items, and the bound on the walks of `start` and `stop` can be forgotten.
-/

namespace ExprLang.Forest

open Relation

/-- `part` stands in a section of `owner`. -/
def Owns (forest : Forest) (owner part : Nat) : Prop := part ∈ (forest.parts owner).all

structure Linked (forest : Forest) : Prop where
  parent : ∀ owner part, forest.Owns owner part ↔ forest.parent? part = some owner
  once : ∀ owner, (forest.parts owner).all.Nodup
  children : ∀ owner, (forest.parts owner).children.Sublist (forest.parts owner).regular
  token : ∀ id item, forest.get? id = some item → item.isToken = true → item.parts.all = []
  ranked : ∃ rank : Nat → Nat, ∀ owner part, forest.Owns owner part → rank part < rank owner

variable {forest : Forest}

theorem owner_lt_size {owner part : Nat} (owns : forest.Owns owner part) : owner < forest.size := by
  obtain ⟨item, found, _⟩ := get_of_part owns
  exact get_lt_size found

theorem owns_of_get {id part : Nat} {item : Item} (found : forest.get? id = some item) :
    forest.Owns id part ↔ part ∈ item.parts.all := by
  rw [Owns, parts_of_get found]

namespace Linked

variable (linked : forest.Linked)

include linked

theorem part_lt_size {owner part : Nat} (owns : forest.Owns owner part) : part < forest.size := by
  obtain ⟨item, found, _⟩ := get_of_parent ((linked.parent owner part).mp owns)
  exact get_lt_size found

theorem one_owner {owner other part : Nat} (owns : forest.Owns owner part)
    (also : forest.Owns other part) : owner = other := by
  have first := (linked.parent owner part).mp owns
  have second := (linked.parent other part).mp also
  exact Option.some.inj (first.symm.trans second)

theorem not_owned {owner part : Nat} (free : forest.parent? part = none) :
    ¬ forest.Owns owner part := by
  intro owns
  have owned := (linked.parent owner part).mp owns
  rw [free] at owned
  cases owned

theorem named_of_child {owner part : Nat} (named : part ∈ (forest.parts owner).named) :
    forest.Owns owner part := by
  rcases List.mem_append.mp named with isPart | isChild
  · exact isPart
  · have regular := (linked.children owner).subset isChild
    simp only [Owns, Parts.all, List.mem_append]
    exact Or.inl (Or.inr regular)

theorem closed : Closed forest where
  parts _ _ named := linked.part_lt_size (linked.named_of_child named)
  owners id owner owned := owner_lt_size ((linked.parent owner id).mpr owned)

theorem acyclic (id : Nat) : ¬ TransGen forest.Owns id id := by
  obtain ⟨rank, falls⟩ := linked.ranked
  have below : ∀ {owner part}, TransGen forest.Owns owner part → rank part < rank owner := by
    intro owner part path
    induction path with
    | single owns => exact falls _ _ owns
    | tail _ owns ih => exact Nat.lt_trans (falls _ _ owns) ih
  intro cycle
  exact Nat.lt_irrefl _ (below cycle)

theorem acyclic_up (id : Nat) :
    ¬ TransGen (fun part owner => forest.parent? part = some owner) id id := by
  intro cycle
  have owned : TransGen (Function.swap forest.Owns) id id :=
    TransGen.mono (fun part owner => (linked.parent owner part).mpr) _ _ cycle
  exact linked.acyclic id (transGen_swap.mp owned)

end Linked

/-! Walks down -/

open Classical in
/-- How many items stand at or below an item. -/
noncomputable def weight (forest : Forest) (id : Nat) : Nat :=
  ((Finset.range forest.size).filter fun below => ReflTransGen forest.Owns id below).card

theorem weight_le_size (id : Nat) : forest.weight id ≤ forest.size := by
  classical
  have bound := Finset.card_filter_le (Finset.range forest.size)
    (fun below => ReflTransGen forest.Owns id below)
  rwa [Finset.card_range] at bound

theorem weight_pos {id : Nat} (inside : id < forest.size) : 0 < forest.weight id := by
  classical
  refine Finset.card_pos.mpr ⟨id, ?_⟩
  exact Finset.mem_filter.mpr ⟨Finset.mem_range.mpr inside, ReflTransGen.refl⟩

theorem Linked.weight_lt (linked : forest.Linked) {owner part : Nat}
    (owns : forest.Owns owner part) : forest.weight part < forest.weight owner := by
  classical
  refine Finset.card_lt_card (Finset.ssubset_iff_of_subset ?_ |>.mpr ⟨owner, ?_, ?_⟩)
  · intro below member
    obtain ⟨inside, path⟩ := Finset.mem_filter.mp member
    exact Finset.mem_filter.mpr ⟨inside, ReflTransGen.head owns path⟩
  · exact Finset.mem_filter.mpr ⟨Finset.mem_range.mpr (owner_lt_size owns), ReflTransGen.refl⟩
  · intro member
    obtain ⟨_, back⟩ := Finset.mem_filter.mp member
    exact linked.acyclic owner (TransGen.head' owns back)

/-- Above every item stands one that has no owner. -/
theorem Linked.exists_top (linked : forest.Linked) {id : Nat} (inside : id < forest.size) :
    ∃ top, forest.parent? top = none ∧ ReflTransGen forest.Owns top id := by
  induction climb : forest.size - forest.weight id using Nat.strong_induction_on
    generalizing id with
  | _ count ih =>
      cases owned : forest.parent? id with
      | none => exact ⟨id, owned, ReflTransGen.refl⟩
      | some owner =>
          have owns := (linked.parent owner id).mpr owned
          have heavier := linked.weight_lt owns
          have bound : forest.weight owner ≤ forest.size := weight_le_size owner
          obtain ⟨top, free, path⟩ := ih _ (by omega) (owner_lt_size owns) rfl
          exact ⟨top, free, path.tail owns⟩

/-- With a step for each owner, and one for the end of the chain, the way up is walked to its end. -/
theorem Linked.isAncestorOrSelfWithin_iff (linked : forest.Linked) {ancestor id steps : Nat}
    (enough : forest.size + 2 ≤ steps + forest.weight id) :
    forest.isAncestorOrSelfWithin ancestor steps (some id) = true ↔
      ReflTransGen forest.Owns ancestor id := by
  have bound : forest.weight id ≤ forest.size := weight_le_size id
  induction steps generalizing id with
  | zero => omega
  | succ steps ih =>
      simp only [isAncestorOrSelfWithin, Bool.or_eq_true, beq_iff_eq]
      by_cases here : id = ancestor
      · exact iff_of_true (Or.inl here) (here ▸ ReflTransGen.refl)
      · have climb : ReflTransGen forest.Owns ancestor id ↔
            ∃ owner, ReflTransGen forest.Owns ancestor owner ∧ forest.Owns owner id :=
          ⟨fun path => path.cases_tail.resolve_left here, fun ⟨_, path, owns⟩ => path.tail owns⟩
        rw [or_iff_right here, climb]
        cases owned : forest.parent? id with
        | none =>
            obtain ⟨more, rfl⟩ : ∃ more, steps = more + 1 := ⟨steps - 1, by omega⟩
            refine iff_of_false nofun ?_
            rintro ⟨owner, _, owns⟩
            exact absurd (owned.symm.trans ((linked.parent owner id).mp owns)) nofun
        | some owner =>
            have owns := (linked.parent owner id).mpr owned
            have heavier := linked.weight_lt owns
            refine (ih (by omega) (weight_le_size owner)).trans ?_
            constructor
            · exact fun path => ⟨owner, path, owns⟩
            · rintro ⟨other, path, also⟩
              obtain rfl : owner = other :=
                Option.some.inj (owned.symm.trans ((linked.parent other id).mp also))
              exact path

theorem Linked.isAncestorOrSelf_iff (linked : forest.Linked) {ancestor id : Nat}
    (inside : id < forest.size) :
    forest.isAncestorOrSelf ancestor id = true ↔ ReflTransGen forest.Owns ancestor id :=
  linked.isAncestorOrSelfWithin_iff (by have := weight_pos inside; omega)

/-- Once there are as many steps as items below, more steps make no difference. -/
theorem Linked.startWithin_eq (linked : forest.Linked) {steps more id : Nat}
    (enough : forest.weight id ≤ steps) (also : forest.weight id ≤ more) :
    forest.startWithin steps id = forest.startWithin more id := by
  induction steps generalizing more id with
  | zero =>
      have outside : forest.get? id = none := by
        by_contra found
        obtain ⟨item, found⟩ := Option.ne_none_iff_exists'.mp found
        have := weight_pos (get_lt_size found)
        omega
      cases more <;> simp [startWithin, outside]
  | succ steps ih =>
      cases found : forest.get? id with
      | none => cases more <;> simp [startWithin, found]
      | some item =>
          have positive := weight_pos (get_lt_size found)
          obtain ⟨more, rfl⟩ : ∃ less, more = less + 1 := ⟨more - 1, by omega⟩
          simp only [startWithin, found]
          cases first : item.firstPart? with
          | none => rfl
          | some part =>
              have owns : forest.Owns id part := by
                rw [owns_of_get found]
                unfold Item.firstPart? at first
                split at first
                · cases first
                · exact List.mem_of_mem_head? first
              have lighter := linked.weight_lt owns
              exact ih (by omega) (by omega)

theorem Linked.stopWithin_eq (linked : forest.Linked) {steps more id : Nat}
    (enough : forest.weight id ≤ steps) (also : forest.weight id ≤ more) :
    forest.stopWithin steps id = forest.stopWithin more id := by
  induction steps generalizing more id with
  | zero =>
      have outside : forest.get? id = none := by
        by_contra found
        obtain ⟨item, found⟩ := Option.ne_none_iff_exists'.mp found
        have := weight_pos (get_lt_size found)
        omega
      cases more <;> simp [stopWithin, outside]
  | succ steps ih =>
      cases found : forest.get? id with
      | none => cases more <;> simp [stopWithin, found]
      | some item =>
          have positive := weight_pos (get_lt_size found)
          obtain ⟨more, rfl⟩ : ∃ less, more = less + 1 := ⟨more - 1, by omega⟩
          simp only [stopWithin, found]
          cases last : item.lastPart? with
          | none => rfl
          | some part =>
              have owns : forest.Owns id part := by
                rw [owns_of_get found]
                unfold Item.lastPart? at last
                split at last
                · cases last
                · exact List.mem_of_mem_getLast? last
              have lighter := linked.weight_lt owns
              exact ih (by omega) (by omega)

/-- An item starts with its first part. -/
theorem Linked.start_eq (linked : forest.Linked) {id : Nat} {item : Item}
    (found : forest.get? id = some item) :
    forest.start id = (item.parts.all.head?.map forest.start).getD item.start := by
  have more := linked.startWithin_eq (weight_le_size id) (Nat.le_succ_of_le (weight_le_size id))
  rw [start, more, startWithin, found]
  cases isToken : item.isToken with
  | true => simp [Item.firstPart?, isToken, linked.token id item found isToken]
  | false =>
      simp only [Item.firstPart?, isToken, Bool.false_eq_true, if_false]
      cases item.parts.all.head? <;> rfl

/-- An item stops with its last part. -/
theorem Linked.stop_eq (linked : forest.Linked) {id : Nat} {item : Item}
    (found : forest.get? id = some item) :
    forest.stop id = (item.parts.all.getLast?.map forest.stop).getD (item.start + item.length) := by
  have more := linked.stopWithin_eq (weight_le_size id) (Nat.le_succ_of_le (weight_le_size id))
  rw [stop, more, stopWithin, found]
  cases isToken : item.isToken with
  | true => simp [Item.lastPart?, isToken, linked.token id item found isToken]
  | false =>
      simp only [Item.lastPart?, isToken, Bool.false_eq_true, if_false]
      cases item.parts.all.getLast? <;> rfl

/-- What the span of an item is read from. -/
def SameShape (a b : Item) : Prop :=
  b.parts.all = a.parts.all ∧ b.start = a.start ∧ b.length = a.length

/-- Two forests that agree on items and all that stands below them give them the same spans. -/
theorem spans_agree {other : Forest} (linked : forest.Linked) (linkedOther : other.Linked)
    {K : Nat → Prop} (closed : ∀ owner part, K owner → forest.Owns owner part → K part)
    (same : ∀ id, K id → ∃ a b, forest.get? id = some a ∧ other.get? id = some b ∧ SameShape a b)
    {id : Nat} (here : K id) :
    other.start id = forest.start id ∧ other.stop id = forest.stop id := by
  induction weight : forest.weight id using Nat.strong_induction_on generalizing id with
  | _ count ih =>
      obtain ⟨a, b, foundA, foundB, parts, start, length⟩ := same id here
      have below : ∀ part ∈ a.parts.all,
          other.start part = forest.start part ∧ other.stop part = forest.stop part := by
        intro part member
        have owns := (owns_of_get foundA).mpr member
        exact ih _ (weight ▸ linked.weight_lt owns) (closed id part here owns) rfl
      constructor
      · rw [linked.start_eq foundA, linkedOther.start_eq foundB, parts, start]
        cases first : a.parts.all.head? with
        | none => rfl
        | some part => exact (below part (List.mem_of_mem_head? first)).1
      · rw [linked.stop_eq foundA, linkedOther.stop_eq foundB, parts, start, length]
        cases last : a.parts.all.getLast? with
        | none => rfl
        | some part => exact (below part (List.mem_of_mem_getLast? last)).2

/-! Changes -/

theorem parent_push {item : Item} {id : Nat} (free : item.parent = none) :
    (forest.push item).2.parent? id = forest.parent? id := by
  by_cases new : id = forest.size
  · have absent : forest.get? forest.size = none := by
      simp [get?, size]
    rw [new, parent?, get_push_new, parent?, absent]
    exact free
  · simp [parent?, get_push, new]

theorem linked_push {item : Item} (bare : item.parts = {}) (free : item.parent = none)
    (linked : forest.Linked) : (forest.push item).2.Linked := by
  have owns : ∀ owner part, (forest.push item).2.Owns owner part ↔ forest.Owns owner part := by
    intro owner part
    rw [Owns, parts_push_old bare, Owns]
  obtain ⟨rank, falls⟩ := linked.ranked
  refine ⟨?_, ?_, ?_, ?_, rank, ?_⟩
  · intro owner part
    rw [owns, parent_push free]
    exact linked.parent owner part
  · intro owner
    rw [parts_push_old bare]
    exact linked.once owner
  · intro owner
    rw [parts_push_old bare]
    exact linked.children owner
  · intro id other found isToken
    by_cases new : id = forest.size
    · rw [new, get_push_new] at found
      cases found
      rw [bare, Parts.all_empty]
    · rw [get_push, if_neg new] at found
      exact linked.token id other found isToken
  · intro owner part owned
    exact falls owner part ((owns owner part).mp owned)

theorem linked_changeKind {id : Nat} {change : ItemKind → ItemKind}
    (tokens : ∀ found, forest.get? id = some found →
      (change found.kind).isToken = found.kind.isToken) (linked : forest.Linked) :
    (forest.modify id fun item => { item with kind := change item.kind }).Linked := by
  obtain ⟨rank, falls⟩ := linked.ranked
  refine ⟨?_, ?_, ?_, ?_, rank, ?_⟩
  · intro owner part
    rw [Owns, parts_changeKind, parent_changeKind]
    exact linked.parent owner part
  · intro owner
    rw [parts_changeKind]
    exact linked.once owner
  · intro owner
    rw [parts_changeKind]
    exact linked.children owner
  · intro other item found isToken
    rw [get_modify] at found
    split at found
    · rename_i here
      obtain ⟨old, foundOld, rfl⟩ := Option.map_eq_some_iff.mp found
      have same : old.isToken = true := (tokens old (here ▸ foundOld)).symm.trans isToken
      exact linked.token other old foundOld same
    · exact linked.token other item found isToken
  · intro owner part owned
    rw [Owns, parts_changeKind] at owned
    exact falls owner part owned

section Link

variable {owner item : Nat} {place : Section} {isChild : Bool}

theorem owns_link (inside : owner < forest.size) {other part : Nat} :
    (forest.link owner item place isChild).Owns other part ↔
      forest.Owns other part ∨ (other = owner ∧ part = item) := by
  by_cases isOwner : other = owner
  · subst isOwner
    rw [Owns, parts_link_owner inside, Owns]
    cases isChild <;> simp [Parts.mem_all_push]
  · rw [Owns, parts_link_other isOwner, Owns]
    simp [isOwner]

theorem nodup_push {parts : Parts} {part : ItemId} {place : Section} (once : parts.all.Nodup)
    (new : part ∉ parts.all) : (parts.push part place).all.Nodup := by
  cases place <;> simp only [Parts.push, Parts.all, List.nodup_append, List.mem_append,
    List.mem_singleton, List.nodup_cons, List.not_mem_nil, not_false_eq_true, List.nodup_nil,
    true_and] at * <;> grind

open Classical in
/-- Attaching a detached item to one that is no token and does not stand below it. -/
theorem linked_link_of_apart {owning : Item} (linked : forest.Linked)
    (apart : ¬ ReflTransGen forest.Owns item owner)
    (foundOwner : forest.get? owner = some owning) (complex : owning.isToken = false)
    (inside : item < forest.size) (free : forest.parent? item = none)
    (regular : isChild = true → place = .regular) :
    (forest.link owner item place isChild).Linked := by
  have different : owner ≠ item := fun same => apart (same ▸ ReflTransGen.refl)
  have ownerInside := get_lt_size foundOwner
  refine ⟨?_, ?_, ?_, ?_, ?_⟩
  -- The item has the owner as its parent, and all others keep theirs.
  · intro other part
    rw [owns_link ownerInside]
    by_cases isItem : part = item
    · subst isItem
      rw [parent_link_item inside]
      have notOwned : ¬ forest.Owns other part := linked.not_owned free
      simp only [notOwned, false_or, and_true, Option.some.injEq]
      exact eq_comm
    · rw [parent_link_other isItem, linked.parent]
      simp [isItem]
  -- It has been in no list before, so it is in the new one once.
  · intro other
    by_cases isOwner : other = owner
    · subst isOwner
      have new : item ∉ (forest.parts other).all := linked.not_owned free
      rw [parts_link_owner ownerInside]
      cases isChild <;> exact nodup_push (linked.once other) new
    · rw [parts_link_other isOwner]
      exact linked.once other
  -- The children stay a part of the regular items, in their order.
  · intro other
    by_cases isOwner : other = owner
    · subst isOwner
      rw [parts_link_owner ownerInside]
      have before := linked.children other
      cases isChild with
      | true =>
          rw [regular rfl]
          exact List.Sublist.append before (List.Sublist.refl [item])
      | false =>
          simp only [Bool.false_eq_true, if_false, Parts.children_push]
          cases place <;> first | exact before | exact before.trans (List.sublist_append_left _ _)
    · rw [parts_link_other isOwner]
      exact linked.children other
  · intro other found foundOther isToken
    by_cases isOwner : other = owner
    · subst isOwner
      rw [get_link_owner different, foundOwner] at foundOther
      cases foundOther
      exact absurd isToken (by simpa [Item.isToken] using complex)
    · by_cases isItem : other = item
      · subst isItem
        rw [get_link_item different] at foundOther
        obtain ⟨old, foundOld, rfl⟩ := Option.map_eq_some_iff.mp foundOther
        exact linked.token other old foundOld isToken
      · rw [get_link_other isItem isOwner] at foundOther
        exact linked.token other found foundOther isToken
  · -- Whatever stands above the owner is not below the item, so it may rank above it.
    obtain ⟨rank, falls⟩ := linked.ranked
    refine ⟨fun id => if ReflTransGen forest.Owns id owner then rank id + rank item + 1
      else rank id, ?_⟩
    intro other part owned
    rcases (owns_link ownerInside).mp owned with old | ⟨rfl, rfl⟩
    · have fall := falls other part old
      by_cases above : ReflTransGen forest.Owns part owner
      · have alsoAbove := ReflTransGen.head old above
        simp only [if_pos above, if_pos alsoAbove]
        omega
      · simp only [if_neg above]
        split <;> omega
    · simp only [if_neg apart, if_pos ReflTransGen.refl]
      omega

/-- Attaching a detached item to another detached one that is no token. -/
theorem linked_link {owning : Item} (linked : forest.Linked) (different : owner ≠ item)
    (foundOwner : forest.get? owner = some owning) (complex : owning.isToken = false)
    (inside : item < forest.size) (freeOwner : forest.parent? owner = none)
    (free : forest.parent? item = none) (regular : isChild = true → place = .regular) :
    (forest.link owner item place isChild).Linked := by
  refine linked_link_of_apart linked (fun path => ?_) foundOwner complex inside free regular
  obtain ⟨above, _, owns⟩ := path.cases_tail.resolve_left different
  exact linked.not_owned freeOwner owns

end Link

/-- What is attached was detached, and did not stand above its new owner. -/
theorem attach_ok_iff {owner item : Nat} {place : Section} {isChild : Bool} {next : Forest} :
    forest.attach owner item place isChild = .ok next ↔ ∃ owning attached,
      forest.get? owner = some owning ∧ owning.isToken = false ∧
      forest.get? item = some attached ∧ forest.isAncestorOrSelf item owner = false ∧
      attached.parent = none ∧ (forest.ordered = true → forest.isInOrder owner item place = true) ∧
      next = forest.link owner item place isChild := by
  unfold attach
  cases foundOwner : forest.get? owner with
  | none => simp
  | some owning =>
      cases complex : owning.isToken with
      | true => simp [complex]
      | false =>
          cases foundItem : forest.get? item with
          | none => simp [complex]
          | some attached =>
              cases above : forest.isAncestorOrSelf item owner with
              | true => simp [complex]
              | false =>
                  cases owned : attached.parent with
                  | some parent => simp [complex, owned]
                  | none =>
                      cases ordered : forest.ordered <;>
                        cases inOrder : forest.isInOrder owner item place <;>
                        simp [complex, owned, @eq_comm _ next]

theorem linked_attach {owner item : Nat} {place : Section} {isChild : Bool} {next : Forest}
    (linked : forest.Linked) (regular : isChild = true → place = .regular)
    (attached : forest.attach owner item place isChild = .ok next) : next.Linked := by
  obtain ⟨owning, part, foundOwner, complex, foundItem, apart, free, _, rfl⟩ :=
    attach_ok_iff.mp attached
  refine linked_link_of_apart linked ?_ foundOwner complex (get_lt_size foundItem)
    ((parent_of_get foundItem).trans free) regular
  rw [← linked.isAncestorOrSelf_iff (get_lt_size foundOwner), apart]
  exact Bool.false_ne_true

end ExprLang.Forest
