import ExprLang.Forest.Edit
import ExprLang.Proofs.Forest.Walk

/-!
A forest under any calls. Each call keeps owners and parts in agreement and makes no cycle, whether it
is refused or not and whether order is watched or not. So behind any calls every walk along links comes
to its end, and the bounds on the walks decide nothing. There is one exception: where there are no items
at all, the question whether one stands above another is answered with yes.
-/

namespace ExprLang

open Relation

namespace Forest

variable {forest : Forest} {id : Nat}

/-- `owner` is the parent of `part`. -/
def IsParent (forest : Forest) (part owner : ItemId) : Prop := forest.parent? part = some owner

/-- The part that an item begins with. -/
def firstPart? (forest : Forest) (id : ItemId) : Option ItemId := (forest.get? id).bind (·.firstPart?)

/-- The part that an item ends with. -/
def lastPart? (forest : Forest) (id : ItemId) : Option ItemId := (forest.get? id).bind (·.lastPart?)

/-- Owners and parts agree, and walks along links come to their ends. -/
structure Navigable (forest : Forest) : Prop where
  /-- An item stands in a section of just the one that it names as its parent. -/
  parent : ∀ owner part, forest.Owns owner part ↔ forest.parent? part = some owner
  once : ∀ owner, (forest.parts owner).all.Nodup
  children : ∀ owner, (forest.parts owner).children.Sublist (forest.parts owner).regular
  token : ∀ id, forest.IsToken id → (forest.parts id).named = []
  acyclic : ∀ id, ¬ TransGen forest.IsParent id id
  /-- From first part to first part one comes to where the item starts. -/
  start : ∀ id, ∃ leaf, ReflTransGen (fun owner part => forest.firstPart? owner = some part) id leaf ∧
    forest.firstPart? leaf = none ∧ forest.start id = ((forest.get? leaf).map (·.start)).getD 0
  /-- From last part to last part one comes to where the item stops. -/
  stop : ∀ id, ∃ leaf, ReflTransGen (fun owner part => forest.lastPart? owner = some part) id leaf ∧
    forest.lastPart? leaf = none ∧
    forest.stop id = ((forest.get? leaf).map fun item => item.start + item.length).getD 0
  topmost : ∀ id, ReflTransGen forest.IsParent id (forest.topmost id) ∧
    forest.parent? (forest.topmost id) = none
  ancestor : ∀ above id, forest.isAncestorOrSelf above id = true ↔
    forest.size = 0 ∨ ReflTransGen forest.IsParent id above

/-! Walks -/

theorem Linked.isParent_iff (linked : forest.Linked) {above : Nat} :
    ReflTransGen forest.IsParent id above ↔ ReflTransGen forest.Owns above id := by
  have same : forest.IsParent = Function.swap forest.Owns := by
    funext part owner
    exact propext (linked.parent owner part).symm
  rw [same, reflTransGen_swap]

/-- A walk down that goes on as `next` says. What the last item on it has of its own is what the first
one gets. -/
theorem Linked.walk_ends (linked : forest.Linked) {next : Item → Option ItemId} {own : Item → Nat}
    {value : ItemId → Nat}
    (down : ∀ id item part, forest.get? id = some item → next item = some part → forest.Owns id part)
    (outside : ∀ id, forest.get? id = none → value id = 0)
    (inside : ∀ id item, forest.get? id = some item →
      value id = ((next item).map value).getD (own item)) (id : Nat) :
    ∃ leaf, ReflTransGen (fun owner part => (forest.get? owner).bind next = some part) id leaf ∧
      (forest.get? leaf).bind next = none ∧ value id = ((forest.get? leaf).map own).getD 0 := by
  induction weight : forest.weight id using Nat.strong_induction_on generalizing id with
  | _ count ih =>
      cases found : forest.get? id with
      | none => exact ⟨id, ReflTransGen.refl, by simp [found], by simp [found, outside id found]⟩
      | some item =>
          cases goes : next item with
          | none =>
              refine ⟨id, ReflTransGen.refl, by simp [found, goes], ?_⟩
              simp [inside id item found, goes, found]
          | some part =>
              have owns := down id item part found goes
              obtain ⟨leaf, path, final, same⟩ := ih _ (weight ▸ linked.weight_lt owns) part rfl
              refine ⟨leaf, ReflTransGen.head (by simp [found, goes]) path, final, ?_⟩
              rw [inside id item found, goes, Option.map_some, Option.getD_some, same]

/-- Tokens have no parts, so the first part is the same for all items. -/
theorem Linked.firstPart_eq (linked : forest.Linked) {item : Item}
    (found : forest.get? id = some item) : item.firstPart? = item.parts.all.head? := by
  cases isToken : item.isToken with
  | true => simp [Item.firstPart?, isToken, linked.token id item found isToken]
  | false => simp [Item.firstPart?, isToken]

theorem Linked.lastPart_eq (linked : forest.Linked) {item : Item}
    (found : forest.get? id = some item) : item.lastPart? = item.parts.all.getLast? := by
  cases isToken : item.isToken with
  | true => simp [Item.lastPart?, isToken, linked.token id item found isToken]
  | false => simp [Item.lastPart?, isToken]

theorem Linked.start_ends (linked : forest.Linked) (id : Nat) :
    ∃ leaf, ReflTransGen (fun owner part => forest.firstPart? owner = some part) id leaf ∧
      forest.firstPart? leaf = none ∧ forest.start id = ((forest.get? leaf).map (·.start)).getD 0 := by
  apply linked.walk_ends
  · intro owner item part found first
    rw [owns_of_get found]
    exact List.mem_of_mem_head? ((linked.firstPart_eq found).symm.trans first)
  · intro id absent
    exact start_of_size_le (Array.getElem?_eq_none_iff.mp absent)
  · intro id item found
    rw [linked.firstPart_eq found]
    exact linked.start_eq found

theorem Linked.stop_ends (linked : forest.Linked) (id : Nat) :
    ∃ leaf, ReflTransGen (fun owner part => forest.lastPart? owner = some part) id leaf ∧
      forest.lastPart? leaf = none ∧
      forest.stop id = ((forest.get? leaf).map fun item => item.start + item.length).getD 0 := by
  apply linked.walk_ends
  · intro owner item part found last
    rw [owns_of_get found]
    exact List.mem_of_getLast? ((linked.lastPart_eq found).symm.trans last)
  · intro id absent
    exact stop_of_size_le (Array.getElem?_eq_none_iff.mp absent)
  · intro id item found
    rw [linked.lastPart_eq found]
    exact linked.stop_eq found

/-- With a step for each owner the way up is walked to its end. -/
theorem Linked.topmostWithin_spec (linked : forest.Linked) {steps : Nat}
    (enough : forest.size ≤ steps + forest.weight id) :
    ReflTransGen forest.IsParent id (forest.topmostWithin steps id) ∧
      forest.parent? (forest.topmostWithin steps id) = none := by
  induction steps generalizing id with
  | zero =>
      refine ⟨ReflTransGen.refl, ?_⟩
      by_contra owned
      obtain ⟨owner, owned⟩ := Option.ne_none_iff_exists'.mp owned
      have heavier := linked.weight_lt ((linked.parent owner id).mpr owned)
      have bound : forest.weight owner ≤ forest.size := weight_le_size owner
      omega
  | succ steps ih =>
      unfold topmostWithin
      cases owned : forest.parent? id with
      | none => exact ⟨ReflTransGen.refl, owned⟩
      | some owner =>
          have heavier := linked.weight_lt ((linked.parent owner id).mpr owned)
          obtain ⟨path, top⟩ := @ih owner (by omega)
          exact ⟨ReflTransGen.head owned path, top⟩

/-- The walk asks one item more than there can be above another. That is enough as long as there is an
item at all. -/
theorem Linked.isAncestorOrSelf_iff_isParent (linked : forest.Linked) (above id : Nat) :
    forest.isAncestorOrSelf above id = true ↔
      forest.size = 0 ∨ ReflTransGen forest.IsParent id above := by
  by_cases inside : id < forest.size
  · rw [linked.isAncestorOrSelf_iff inside, linked.isParent_iff]
    exact (or_iff_right (by omega)).symm
  · have free : forest.parent? id = none := by
      rw [parent?, get?, Array.getElem?_eq_none (Nat.le_of_not_lt inside)]
      rfl
    have alone : ReflTransGen forest.IsParent id above ↔ id = above := by
      constructor
      · intro path
        rcases path.cases_head with same | ⟨owner, owned, _⟩
        · exact same
        · exact absurd (free.symm.trans owned) (by rintro ⟨⟩)
      · rintro rfl
        exact ReflTransGen.refl
    rw [alone]
    cases size : forest.size with
    | zero => simp [isAncestorOrSelf, size, isAncestorOrSelfWithin]
    | succ less => simp [isAncestorOrSelf, size, isAncestorOrSelfWithin, free]

theorem Linked.navigable (linked : forest.Linked) : forest.Navigable where
  parent := linked.parent
  once := linked.once
  children := linked.children
  token _ isToken := isToken.named linked
  acyclic := linked.acyclic_up
  start := linked.start_ends
  stop := linked.stop_ends
  topmost _ := linked.topmostWithin_spec (by omega)
  ancestor := linked.isAncestorOrSelf_iff_isParent

/-! Calls -/

theorem linked_empty : ({} : Forest).Linked where
  parent owner part := iff_of_false (by simp [Owns, parts, get?]) (by simp [parent?, get?])
  once owner := by simp [parts, get?]
  children owner := by simp [parts, get?]
  token id item found := by simp [get?] at found
  ranked := ⟨id, fun owner part owns => by simp [Owns, parts, get?] at owns⟩

theorem parent_truncate {count : Nat} (inside : id < count) (cut : count < forest.size) :
    (forest.truncate count).parent? id = (forest.parent? id).filter (· < count) := by
  obtain ⟨item, found⟩ := get_of_lt (Nat.lt_trans inside cut)
  simp [parent?, get_truncate inside cut, found]

/-- What is left of a forest behind a cut is linked as it was. -/
theorem linked_truncate {count : Nat} (linked : forest.Linked) : (forest.truncate count).Linked := by
  by_cases cut : count < forest.size
  swap
  · rw [truncate_of_le (Nat.le_of_not_lt cut)]
    exact linked
  have outside : ∀ {id}, ¬ id < count → (forest.truncate count).get? id = none := fun outside =>
    get_truncate_outside outside cut
  have keeps : ∀ ids : List ItemId, (ids.filter (· < count)).Sublist ids := fun _ => List.filter_sublist
  have all : ∀ {id}, id < count →
      ((forest.truncate count).parts id).all = (forest.parts id).all.filter (· < count) := by
    intro id inside
    rw [parts_truncate inside cut]
    simp [Parts.all, Parts.filter]
  have owns : ∀ owner part, (forest.truncate count).Owns owner part ↔
      forest.Owns owner part ∧ owner < count ∧ part < count := by
    intro owner part
    by_cases inside : owner < count
    · simp [Owns, all inside, inside]
    · simp [Owns, parts, outside inside, inside]
  -- What is left keeps its rank, and loses only links to what is gone.
  obtain ⟨rank, falls⟩ := linked.ranked
  refine ⟨?_, ?_, ?_, ?_, rank, ?_⟩
  · intro owner part
    rw [owns, linked.parent]
    by_cases inside : part < count
    · rw [parent_truncate inside cut, Option.filter_eq_some_iff]
      simp [inside]
    · simp [parent?, outside inside, inside]
  · intro owner
    by_cases inside : owner < count
    · rw [all inside]
      exact (linked.once owner).sublist (keeps _)
    · simp [parts, outside inside]
  · intro owner
    by_cases inside : owner < count
    · rw [parts_truncate inside cut]
      exact (linked.children owner).filter _
    · simp [parts, outside inside]
  · intro id item found isToken
    have inside : id < count := by
      by_contra out
      cases (outside out).symm.trans found
    rw [get_truncate inside cut] at found
    obtain ⟨old, foundOld, rfl⟩ := Option.map_eq_some_iff.mp found
    have none := linked.token id old foundOld isToken
    have := all inside
    rw [parts_of_get foundOld, none] at this
    rwa [parts_of_get (by rw [get_truncate inside cut, foundOld, Option.map_some])] at this
  · exact fun owner part owned => falls owner part ((owns owner part).mp owned).1

theorem linked_watch (ordered : Bool) (linked : forest.Linked) :
    ({ forest with ordered } : Forest).Linked :=
  ⟨linked.parent, linked.once, linked.children, linked.token, linked.ranked⟩

end Forest

open Forest

theorem Edit.linked_apply {forest next : Forest} (linked : forest.Linked) {edit : Edit}
    (accepted : edit.apply forest = .ok next) : next.Linked := by
  cases edit with
  | createToken kind text start =>
      cases accepted
      exact linked_push rfl rfl linked
  | create kind start =>
      cases accepted
      exact linked_push rfl rfl linked
  | truncate size =>
      cases accepted
      exact linked_truncate linked
  | watch ordered =>
      cases accepted
      exact linked_watch ordered linked
  | addPrefix owner item =>
      have attached : forest.attach owner item .prefixes false = .ok next := accepted
      exact linked_attach linked (by nofun) attached
  | addKeyword owner item =>
      have attached : forest.attach owner item .keywords false = .ok next := accepted
      exact linked_attach linked (by nofun) attached
  | addPostfix owner item =>
      have attached : forest.attach owner item .postfixes false = .ok next := accepted
      exact linked_attach linked (by nofun) attached
  | addRegular owner item =>
      have attached : forest.attach owner item .regular false = .ok next := accepted
      exact linked_attach linked (by nofun) attached
  | addChild owner item =>
      have attached : forest.attach owner item .regular true = .ok next := accepted
      exact linked_attach linked (fun _ => rfl) attached

/-- Every call keeps a forest linked, also one that is refused. -/
theorem Edit.linked_run {forest : Forest} (linked : forest.Linked) (edit : Edit) :
    (edit.run forest).Linked := by
  unfold run
  split
  · rename_i next accepted
    exact linked_apply linked accepted
  · exact linked

theorem Forest.linked_edit {forest : Forest} (linked : forest.Linked) (edits : List Edit) :
    (forest.edit edits).Linked := by
  induction edits generalizing forest with
  | nil => exact linked
  | cons first rest ih => exact ih (first.linked_run linked)

/-- Whatever calls have been made, with order watched or not, owners and parts agree and every walk comes
to its end; and a call that is refused leaves the forest as it was. An item stands above another just if
the one is reached from the other by parent links, but where there are no items the answer is yes. -/
theorem Forest.navigable_edit (edits : List Edit) :
    (({} : Forest).edit edits).Navigable ∧
      ∀ (edit : Edit) error, edit.apply (({} : Forest).edit edits) = .error error →
        edit.run (({} : Forest).edit edits) = ({} : Forest).edit edits := by
  refine ⟨(linked_edit linked_empty edits).navigable, ?_⟩
  intro edit error refused
  rw [Edit.run, refused]

/-- In a forest without items an item stands above another one that it is not reached from. -/
theorem Forest.above_in_empty :
    ({} : Forest).edit [] = {} ∧ ({} : Forest).isAncestorOrSelf 0 1 = true ∧
      ¬ ReflTransGen ({} : Forest).IsParent 1 0 := by
  refine ⟨rfl, rfl, fun path => ?_⟩
  rcases path.cases_head with same | ⟨owner, owned, _⟩
  · exact absurd same (by decide)
  · exact absurd owned nofun

end ExprLang
