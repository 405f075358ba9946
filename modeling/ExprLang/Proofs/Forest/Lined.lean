import ExprLang.Proofs.Forest.Sound

/-!
Detached items in a row. A token takes the place of a word, an item without parts is put in where its
parts stand, and a link makes one item of two neighbours; the row stays in text order.
-/

namespace ExprLang

open Held (item hollow word ids)

namespace Forest

/-- Detached items and words, each item once, in text order between `a` and `b`. -/
structure LinedUp (forest : Forest) (a : Nat) (row : List Held) (b : Nat) : Prop where
  linked : forest.Linked
  known : ∀ id ∈ ids row, id < forest.size
  free : ∀ id ∈ ids row, forest.parent? id = none
  once : (ids row).Nodup
  placed : forest.Row a row b

namespace LinedUp

variable {forest : Forest} {a b c : Nat} {row row' left right block : List Held} {held : Held}

/-! New items -/

section Push

variable {new : Item} (lined : forest.LinedUp a row b) (bare : new.parts = {})
  (free : new.parent = none)

include lined bare free

/-- A new item gets a place in the row. -/
theorem pushed (idsNew : (ids row').Perm (forest.size :: ids row))
    (placed : (forest.push new).2.Row a row' c) : (forest.push new).2.LinedUp a row' c where
  linked := linked_push bare free lined.linked
  known id member := by
    rw [size_push]
    rcases List.mem_cons.mp (idsNew.mem_iff.mp member) with rfl | old
    · exact Nat.lt_succ_self _
    · exact Nat.lt_succ_of_lt (lined.known id old)
  free id member := by
    rw [parent_push free]
    rcases List.mem_cons.mp (idsNew.mem_iff.mp member) with rfl | old
    · simp [parent?, get?, size]
    · exact lined.free id old
  once := by
    rw [idsNew.nodup_iff]
    exact List.nodup_cons.mpr ⟨fun member => Nat.lt_irrefl _ (lined.known _ member), lined.once⟩
  placed := placed

/-- What was there before stays in its place. -/
theorem row_old {part : List Held} (inside : part ⊆ row) {m n : Nat} (placed : forest.Row m part n) :
    (forest.push new).2.Row m part n := by
  refine row_push lined.linked bare free placed fun id member => lined.known id ?_
  obtain ⟨held, inPart, isId⟩ := List.mem_filterMap.mp member
  exact List.mem_filterMap.mpr ⟨held, inside inPart, isId⟩

end Push

/-- A word of the row gets its token. -/
theorem named {start : Nat} {text : String} (kind : TokenKind)
    (lined : forest.LinedUp a (left ++ word start text :: right) b) :
    (forest.createToken kind text start).2.LinedUp a (left ++ item forest.size :: right) b := by
  obtain ⟨m, ahead, behind, filled, after⟩ := row_append.mp lined.placed
  refine lined.pushed rfl rfl ?_ ?_
  · simp only [Held.ids_append, Held.ids_item, Held.ids_word]
    exact List.perm_middle
  · have placed := row_createToken kind lined.linked behind filled
    refine row_append.mpr ⟨m, ?_, placed.1, placed.2.1, ?_⟩
    · exact lined.row_old rfl rfl (List.subset_append_left _ _) ahead
    · refine Row.weaken (lined.row_old rfl rfl ?_ after) placed.2.2 (Nat.le_refl b)
      exact List.Subset.trans (List.subset_cons_self _ _) (List.subset_append_right _ _)

/-- A new item without parts is put in between. -/
theorem hollowed {kind : ItemKind} {start : Nat} (lined : forest.LinedUp a (left ++ right) b)
    (complex : kind.isToken = false) (ahead : forest.Row a left start)
    (behind : forest.Row start right b) :
    (forest.create kind start).2.LinedUp a (left ++ hollow forest.size :: right) b := by
  obtain ⟨starts, stands⟩ := stands_create lined.linked complex start
  rw [create_complex complex] at starts stands ⊢
  refine lined.pushed rfl rfl ?_ ?_
  · simp only [Held.ids_append, Held.ids_hollow]
    exact List.perm_middle
  · refine row_append.mpr ⟨start, ?_, Nat.le_of_eq starts.symm, stands, ?_⟩
    · exact lined.row_old rfl rfl (List.subset_append_left _ _) ahead
    · exact Row.weaken (lined.row_old rfl rfl (List.subset_append_right _ _) behind)
        (Nat.le_of_eq starts) (Nat.le_refl b)

/-! New links -/

section Link

variable {owner part : Nat} {place : Section} {isChild : Bool}

theorem attachable (lined : forest.LinedUp a row b) (owners : owner ∈ ids row)
    (parts : part ∈ ids row) (different : owner ≠ part)
    (complex : ∃ found, forest.get? owner = some found ∧ found.isToken = false) :
    forest.Attachable owner part where
  complex := complex
  inside := lined.known part parts
  different := different
  freeOwner := lined.free owner owners
  free := lined.free part parts

/-- The row without a part. -/
theorem split (idsBlock : (ids block).Perm [owner, part]) :
    (ids (left ++ block ++ right)).Perm (part :: ids (left ++ item owner :: right)) := by
  simp only [Held.ids_append, Held.ids_item]
  refine ((idsBlock.append_left _).append_right _).trans ?_
  have moved : ((ids left ++ [owner]) ++ part :: ids right).Perm
      (part :: ((ids left ++ [owner]) ++ ids right)) := List.perm_middle
  simpa using moved

/-- A link makes one item of a block of the row. -/
theorem merged (lined : forest.LinedUp a (left ++ block ++ right) b)
    (attachable : forest.Attachable owner part) (regular : isChild = true → place = .regular)
    (idsBlock : (ids block).Perm [owner, part])
    (merged : ∀ a b, forest.Row a block b →
      (forest.link owner part place isChild).Row a [item owner] b) :
    (forest.link owner part place isChild).LinedUp a (left ++ item owner :: right) b := by
  have without : (ids (left ++ block ++ right)).Perm (part :: ids (left ++ item owner :: right)) :=
    split idsBlock
  have once := (without.nodup_iff).mp lined.once
  have elsewhere : ∀ id, id ∈ ids left ∨ id ∈ ids right → id ≠ owner ∧ id ≠ part := by
    intro id member
    simp only [Held.ids_append, Held.ids_item, List.nodup_cons, List.nodup_append, List.mem_append,
      List.mem_cons] at once
    grind
  refine ⟨attachable.linked lined.linked regular, ?_, ?_, (List.nodup_cons.mp once).2, ?_⟩
  · intro id member
    rw [size_link]
    exact lined.known id (without.mem_iff.mpr (List.mem_cons_of_mem _ member))
  · intro id member
    have notPart : id ≠ part := by
      rintro rfl
      exact (List.nodup_cons.mp once).1 member
    rw [parent_link_other notPart]
    exact lined.free id (without.mem_iff.mpr (List.mem_cons_of_mem _ member))
  · obtain ⟨n, front, after⟩ := row_append.mp lined.placed
    obtain ⟨m, ahead, inBlock⟩ := row_append.mp front
    refine row_append.mpr ⟨m, ?_, ?_⟩
    · exact row_link lined.linked attachable regular ahead fun id inLeft => elsewhere id (Or.inl inLeft)
    · refine (row_append.mpr ⟨n, merged m n inBlock, ?_⟩ : Row _ m ([item owner] ++ right) b)
      exact row_link lined.linked attachable regular after fun id inRight => elsewhere id (Or.inr inRight)

section Behind

variable (lined : forest.LinedUp a (left ++ [held, item part] ++ right) b)
  (isOwner : held.id? = some owner)

include isOwner in
theorem ids_pair : ids [held, item part] = [owner, part] := by
  cases held <;> cases isOwner <;> rfl

include lined in
theorem pair_placed : ∃ m n, forest.Row m [held, item part] n := by
  obtain ⟨n, front, _⟩ := row_append.mp lined.placed
  obtain ⟨m, _, pair⟩ := row_append.mp front
  exact ⟨m, n, pair⟩

include lined isOwner

/-- An item can be attached to what stands in front of it in the row. -/
theorem attachable_behind
    (complex : ∃ found, forest.get? owner = some found ∧ found.isToken = false) :
    forest.Attachable owner part := by
  have idsBlock : ids [held, item part] = [owner, part] := ids_pair isOwner
  have different : owner ≠ part := by
    have once := lined.once
    simp only [Held.ids_append, idsBlock] at once
    rintro rfl
    simp [List.nodup_append] at once
  refine lined.attachable ?_ ?_ different complex <;>
    simp only [Held.ids_append, idsBlock] <;> simp

/-- The part covers something, behind all that its owner covers. -/
theorem part_behind :
    forest.stop owner ≤ forest.start part ∧ forest.start part < forest.stop part := by
  obtain ⟨m, n, _, stands, behind, firm, _⟩ := lined.pair_placed
  exact ⟨(stop_of_stands isOwner stands).2 ▸ behind, firm⟩

/-- A part that stands behind its owner in the row becomes its last one. -/
theorem link_behind (attachable : forest.Attachable owner part)
    (isLast : (forest.parts owner).beyond place = []) (regular : isChild = true → place = .regular) :
    (forest.link owner part place isChild).LinedUp a (left ++ item owner :: right) b := by
  refine lined.merged attachable regular (List.Perm.of_eq (ids_pair isOwner)) ?_
  rintro a c ⟨first, stands, second, firm, last⟩
  obtain ⟨starts, stops⟩ := stop_of_stands isOwner stands
  have ends := stop_link_last lined.linked attachable regular isLast
  have bounds : a ≤ (forest.link owner part place isChild).start owner ∧
      (forest.link owner part place isChild).start owner ≤ forest.start part := by
    have within := start_le_stop_of_stands stands
    simp only [Held.start] at second
    by_cases none : (forest.parts owner).upTo place = []
    · rw [start_link_first lined.linked attachable regular none]
      exact ⟨by omega, Nat.le_refl _⟩
    · rw [start_link_later lined.linked attachable regular none]
      exact ⟨by omega, by omega⟩
  refine ⟨bounds.1, ?_, ?_⟩
  · simp only [Held.Stands, ends]
    exact Nat.lt_of_le_of_lt bounds.2 firm
  · simp only [Held.stop, ends]
    exact last

end Behind

section Front

variable (lined : forest.LinedUp a (left ++ [item part, hollow owner] ++ right) b)

include lined

theorem hollow_stands : (hollow owner).Stands forest := by
  obtain ⟨n, front, _⟩ := row_append.mp lined.placed
  obtain ⟨m, _, pair⟩ := row_append.mp front
  exact pair.2.2.2.1

theorem attachable_front : forest.Attachable owner part := by
  have different : owner ≠ part := by
    have once := lined.once
    rintro rfl
    simp [List.nodup_append] at once
  refine lined.attachable ?_ ?_ different lined.hollow_stands.2.2 <;> simp

/-- An owner without parts takes the item that stands before it in the row. -/
theorem link_front (regular : isChild = true → place = .regular) :
    (forest.link owner part place isChild).LinedUp a (left ++ item owner :: right) b := by
  have attachable := lined.attachable_front
  have noneBefore : (forest.parts owner).upTo place = [] := by
    rw [lined.hollow_stands.1]
    cases place <;> rfl
  have noneBehind : (forest.parts owner).beyond place = [] := by
    rw [lined.hollow_stands.1]
    cases place <;> rfl
  refine lined.merged attachable regular (List.Perm.swap _ _ _) ?_
  rintro a c ⟨first, firm, second, _, last⟩
  have starts := start_link_first lined.linked attachable regular noneBefore
  have ends := stop_link_last lined.linked attachable regular noneBehind
  refine ⟨?_, ?_, ?_⟩
  · exact Nat.le_trans first (Nat.le_of_eq starts.symm)
  · simp only [Held.Stands, starts, ends]
    exact firm
  · simp only [Held.start, Held.stop, ends] at second last ⊢
    exact Nat.le_trans second last

end Front

end Link

end LinedUp

/-- There is room for a part that stands behind its owner in the row. -/
theorem fits_behind {forest : Forest} {owner part : Nat} {place : Section} (linked : forest.Linked)
    (isLast : (forest.parts owner).beyond place = [])
    (firm : ∀ last, forest.Owns owner last → forest.start last < forest.stop last)
    (behind : forest.stop owner ≤ forest.start part) : forest.Fits owner part place := by
  refine ⟨fun last isFinal => ?_, fun next isNext => ?_⟩
  · have whole : (forest.parts owner).all = (forest.parts owner).upTo place := by
      rw [Parts.all_eq _ place, isLast, List.append_nil]
    have final : (forest.parts owner).all.getLast? = some last := whole ▸ isFinal
    have owns : forest.Owns owner last := List.mem_of_getLast? final
    obtain ⟨found, here⟩ := get_of_lt (owner_lt_size owns)
    have stops : forest.stop owner = forest.stop last := by
      rw [linked.stop_eq here, ← parts_of_get here, final]
      rfl
    have filled := firm last owns
    exact ⟨by omega, by omega⟩
  · rw [isLast] at isNext
    cases isNext

theorem fits_hollow {forest : Forest} {owner : Nat} (none : forest.parts owner = {}) (part : Nat)
    (place : Section) : forest.Fits owner part place := by
  rw [Fits, none]
  cases place <;> simp [Parts.upTo, Parts.beyond, Parts.all]

end Forest

end ExprLang
