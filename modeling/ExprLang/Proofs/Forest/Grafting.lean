import ExprLang.Proofs.Forest.Sound

/-!
Many parts for one owner. While an owner takes its parts one after the other, nothing but its own
span and the owners of these parts changes.
-/

namespace ExprLang.Forest

open Held (item hollow word ids)

/-- In `after` the owner has these further parts, and all else is as in `before`. -/
structure Grafted (before after : Forest) (owner : Nat) (added : List Nat) : Prop where
  sound : after.Sound
  size : after.size = before.size
  spans : ∀ id, id ≠ owner → after.start id = before.start id ∧ after.stop id = before.stop id
  parts : ∀ id, id ≠ owner → after.parts id = before.parts id
  kinds : ∀ id, after.kind? id = before.kind? id
  parent : ∀ id, after.parent? id = if id ∈ added then some owner else before.parent? id
  same : ∀ id, id ≠ owner → id ∉ added → after.get? id = before.get? id

variable {before after : Forest} {owner : Nat} {added : List Nat}

theorem Grafted.refl (sound : before.Sound) (owner : Nat) : Grafted before before owner [] where
  sound := sound
  size := rfl
  spans _ _ := ⟨rfl, rfl⟩
  parts _ _ := rfl
  kinds _ := rfl
  parent _ := rfl
  same _ _ _ := rfl

theorem Grafted.link {part : Nat} {place : Section} {isChild : Bool}
    (grafted : Grafted before after owner added) (attachable : after.Attachable owner part)
    (regular : isChild = true → place = .regular) (fits : after.Fits owner part place)
    (firm : after.start part < after.stop part ∨ after.IsCustom owner) :
    Grafted before (after.link owner part place isChild) owner (added ++ [part]) where
  sound := sound_link grafted.sound attachable regular fits firm
  size := size_link.trans grafted.size
  spans id other := by
    obtain ⟨starts, stops⟩ := spans_link_other grafted.sound.linked attachable regular other
    rw [starts, stops]
    exact grafted.spans id other
  parts id other := (parts_link_other other).trans (grafted.parts id other)
  kinds id := kind_link.trans (grafted.kinds id)
  parent id := by
    by_cases isPart : id = part
    · subst isPart
      simp [parent_link_item attachable.inside]
    · rw [parent_link_other isPart, grafted.parent id]
      simp [isPart]
  same id other notAdded := by
    obtain ⟨old, notPart⟩ : id ∉ added ∧ id ≠ part := by simpa using notAdded
    exact (get_link_other notPart other).trans (grafted.same id other old)

namespace Grafted

variable (grafted : Grafted before after owner added)

include grafted

theorem before_iff {x y : Nat} (notX : x ≠ owner) (notY : y ≠ owner) :
    after.Before x y ↔ before.Before x y := by
  unfold Before
  rw [(grafted.spans x notX).1, (grafted.spans x notX).2, (grafted.spans y notY).1]

theorem complex {id : Nat} :
    (∃ found, before.get? id = some found ∧ found.isToken = false) →
      ∃ found, after.get? id = some found ∧ found.isToken = false := by
  rintro ⟨found, here, complex⟩
  have kinds := grafted.kinds id
  rw [kind_of_get here] at kinds
  obtain ⟨other, also, kind⟩ := Option.map_eq_some_iff.mp kinds
  exact ⟨other, also, (congrArg ItemKind.isToken kind).trans complex⟩

theorem isCustom {id : Nat} : after.IsCustom id ↔ before.IsCustom id := by
  simp only [IsCustom, grafted.kinds]

/-- The rest of a row stands as it did. -/
theorem row {row : List Held} {a b : Nat} (placed : before.Row a row b)
    (elsewhere : ∀ id ∈ ids row, id ≠ owner) : after.Row a row b := by
  refine placed.congr fun held member => ?_
  have other : ∀ id, held.id? = some id → id ≠ owner := fun id isId =>
    elsewhere id (List.mem_filterMap.mpr ⟨held, member, isId⟩)
  cases held with
  | item id =>
      obtain ⟨starts, stops⟩ := grafted.spans id (other id rfl)
      refine ⟨starts, stops, ?_⟩
      simp only [Held.Stands, starts, stops]
      exact fun stands => stands
  | hollow id =>
      obtain ⟨starts, stops⟩ := grafted.spans id (other id rfl)
      refine ⟨starts, starts, ?_⟩
      rintro ⟨none, covers, complex⟩
      refine ⟨(grafted.parts id (other id rfl)).trans none, ?_, grafted.complex complex⟩
      rw [starts, stops]
      exact covers
  | word start text => exact ⟨rfl, rfl, id⟩

theorem owns_iff (soundBefore : before.Sound) {part : Nat} :
    after.Owns owner part ↔ part ∈ added ∨ before.Owns owner part := by
  rw [grafted.sound.linked.parent, grafted.parent, soundBefore.linked.parent]
  by_cases isAdded : part ∈ added <;> simp [isAdded]

/-- An owner stands where its parts stand. -/
theorem row_owner (soundBefore : before.Sound) {a b : Nat}
    (old : a ≤ before.start owner ∧ before.stop owner ≤ b)
    (inside : ∀ part ∈ added, a ≤ before.start part ∧ before.stop part ≤ b)
    (firm : ∃ part ∈ added, before.start part < before.stop part) : after.Row a [item owner] b := by
  obtain ⟨part, isAdded, filled⟩ := firm
  have linked := grafted.sound.linked
  have owns := (grafted.owns_iff soundBefore).mpr (Or.inl isAdded)
  have notOwner : ∀ {part : Nat}, after.Owns owner part → part ≠ owner := by
    rintro part owns rfl
    exact linked.acyclic part (Relation.TransGen.single owns)
  have bounds : ∀ part, after.Owns owner part → a ≤ after.start part ∧ after.stop part ≤ b := by
    intro part owns
    obtain ⟨starts, stops⟩ := grafted.spans part (notOwner owns)
    rw [starts, stops]
    rcases (grafted.owns_iff soundBefore).mp owns with new | was
    · exact inside part new
    · obtain ⟨first, last⟩ := span_of_part soundBefore.linked soundBefore.laid was
      omega
  obtain ⟨found, here⟩ := get_of_lt (owner_lt_size owns)
  have member := (owns_of_get here).mp owns
  obtain ⟨first, head⟩ := Option.ne_none_iff_exists'.mp
    (mt List.head?_eq_none_iff.mp (List.ne_nil_of_mem member))
  obtain ⟨last, final⟩ := Option.ne_none_iff_exists'.mp
    (mt List.getLast?_eq_none_iff.mp (List.ne_nil_of_mem member))
  have starts : after.start owner = after.start first := by
    rw [linked.start_eq here, head]
    rfl
  have stops : after.stop owner = after.stop last := by
    rw [linked.stop_eq here, final]
    rfl
  have ownsFirst := (owns_of_get here).mpr (List.mem_of_mem_head? head)
  have ownsLast := (owns_of_get here).mpr (List.mem_of_mem_getLast? final)
  have covers := span_of_part linked grafted.sound.laid owns
  rw [(grafted.spans part (notOwner owns)).1, (grafted.spans part (notOwner owns)).2] at covers
  have stands : after.start owner < after.stop owner := by omega
  refine ⟨?_, stands, ?_⟩
  · rw [Held.start, starts]
    exact (bounds first ownsFirst).1
  · rw [Held.stop, stops]
    exact (bounds last ownsLast).2

end Grafted

/-! A run of parts -/

section Run

variable {forest : Forest} {place : Section} {isChild : Bool} {part : Nat} {rest : List Nat}

/-- The parts are linked one after the other. -/
def linkAll (owner : Nat) (place : Section) (isChild : Bool) : List Nat → Forest → Forest
  | [], forest => forest
  | part :: rest, forest => linkAll owner place isChild rest (forest.link owner part place isChild)

/-- There is room in a section of a detached owner for these detached items, in this order. -/
structure Awaits (forest : Forest) (owner : Nat) (place : Section) (rest : List Nat) : Prop where
  complex : ∃ found, forest.get? owner = some found ∧ found.isToken = false
  freeOwner : forest.parent? owner = none
  free : ∀ part ∈ rest, part < forest.size ∧ part ≠ owner ∧ forest.parent? part = none
  laid : ((forest.parts owner).upTo place ++ rest ++ (forest.parts owner).beyond place).Pairwise
    forest.Before
  firm : ∀ part ∈ rest, forest.start part < forest.stop part ∨ forest.IsCustom owner

/-- Room for more parts of an owner that has got some already. -/
theorem Grafted.awaits (grafted : Grafted before after owner added)
    (complex : ∃ found, before.get? owner = some found ∧ found.isToken = false)
    (freeOwner : before.parent? owner = none) (notAdded : owner ∉ added)
    (free : ∀ part ∈ rest, part < before.size ∧ part ≠ owner ∧ part ∉ added ∧
      before.parent? part = none)
    (laid : ((after.parts owner).upTo place ++ rest ++ (after.parts owner).beyond place).Pairwise
      before.Before)
    (firm : ∀ part ∈ rest, before.start part < before.stop part ∨ before.IsCustom owner) :
    after.Awaits owner place rest where
  complex := grafted.complex complex
  freeOwner := by
    rw [grafted.parent, if_neg notAdded]
    exact freeOwner
  free part member := by
    obtain ⟨inside, different, old, freePart⟩ := free part member
    refine ⟨grafted.size.symm ▸ inside, different, ?_⟩
    rw [grafted.parent, if_neg old]
    exact freePart
  laid := by
    have notPart : ∀ id ∈ (after.parts owner).all, id ≠ owner := by
      rintro id isPart rfl
      exact grafted.sound.linked.acyclic id (Relation.TransGen.single isPart)
    have notOwner : ∀ id ∈ (after.parts owner).upTo place ++ rest ++ (after.parts owner).beyond place,
        id ≠ owner := by
      intro id member
      rw [Parts.all_eq _ place] at notPart
      rcases List.mem_append.mp member with front | behind
      · rcases List.mem_append.mp front with ahead | new
        · exact notPart id (List.mem_append_left _ ahead)
        · exact (free id new).2.1
      · exact notPart id (List.mem_append_right _ behind)
    exact laid.imp_of_mem fun inX inY isBefore =>
      (grafted.before_iff (notOwner _ inX) (notOwner _ inY)).mpr isBefore
  firm part member := by
    obtain ⟨starts, stops⟩ := grafted.spans part (free part member).2.1
    rw [starts, stops, grafted.isCustom]
    exact firm part member

namespace Awaits

variable (awaits : forest.Awaits owner place (part :: rest))

include awaits

theorem attachable : forest.Attachable owner part := by
  obtain ⟨inside, different, free⟩ := awaits.free part List.mem_cons_self
  exact ⟨awaits.complex, inside, Ne.symm different, awaits.freeOwner, free⟩

theorem fits : forest.Fits owner part place := by
  have laid := awaits.laid
  rw [List.append_assoc, List.cons_append] at laid
  obtain ⟨_, behind, across⟩ := List.pairwise_append.mp laid
  constructor
  · exact fun last isLast => across last (List.mem_of_getLast? isLast) part List.mem_cons_self
  · intro next isNext
    have member := List.mem_of_mem_head? isNext
    exact List.rel_of_pairwise_cons behind (List.mem_append_right _ member)

theorem grafted (sound : forest.Sound) (regular : isChild = true → place = .regular) :
    Grafted forest (forest.link owner part place isChild) owner [part] := by
  have same := Grafted.refl sound owner
  exact same.link awaits.attachable regular awaits.fits (awaits.firm part List.mem_cons_self)

theorem next (sound : forest.Sound) (regular : isChild = true → place = .regular) :
    (forest.link owner part place isChild).Awaits owner place rest := by
  have grafted := awaits.grafted sound regular
  obtain ⟨found, here, complex⟩ := awaits.complex
  have inside := get_lt_size here
  have laid := awaits.laid
  have once : part ∉ rest := by
    intro member
    rw [List.append_assoc, List.cons_append] at laid
    have behind := (List.pairwise_append.mp laid).2.1
    have before := List.rel_of_pairwise_cons behind (List.mem_append_left _ member)
    exact Nat.lt_irrefl _ before.1
  refine grafted.awaits awaits.complex awaits.freeOwner ?_ ?_ ?_ ?_
  · simpa using awaits.attachable.different
  · intro other member
    obtain ⟨inside, different, free⟩ := awaits.free other (List.mem_cons_of_mem _ member)
    refine ⟨inside, different, ?_, free⟩
    rw [List.mem_singleton]
    rintro rfl
    exact once member
  · rw [upTo_link inside, beyond_link inside]
    simpa using laid
  · exact fun other member => awaits.firm other (List.mem_cons_of_mem _ member)

end Awaits

theorem Grafted.linkAll (grafted : Grafted before forest owner added)
    (awaits : forest.Awaits owner place rest) (regular : isChild = true → place = .regular) :
    Grafted before (linkAll owner place isChild rest forest) owner (added ++ rest) := by
  induction rest generalizing forest added with
  | nil => simpa [Forest.linkAll] using grafted
  | cons part rest ih =>
      have next := grafted.link awaits.attachable regular awaits.fits
        (awaits.firm part List.mem_cons_self)
      simpa [Forest.linkAll] using ih next (awaits.next grafted.sound regular)

theorem get_linkAll_of_ne (inside : owner < forest.size) {other : Section} (different : other ≠ place) :
    ((linkAll owner place isChild rest forest).parts owner).get other =
      (forest.parts owner).get other := by
  induction rest generalizing forest with
  | nil => rfl
  | cons part rest ih =>
      rw [linkAll, ih (by rwa [size_link]), get_link_of_ne _ _ inside different]

theorem upTo_linkAll (place : Section) (isChild : Bool) (rest : List Nat) (inside : owner < forest.size) :
    ((linkAll owner place isChild rest forest).parts owner).upTo place =
      (forest.parts owner).upTo place ++ rest := by
  induction rest generalizing forest with
  | nil => simp [linkAll]
  | cons part rest ih =>
      rw [linkAll, ih (by rwa [size_link]), upTo_link inside, List.append_assoc, List.singleton_append]

end Run

end ExprLang.Forest
