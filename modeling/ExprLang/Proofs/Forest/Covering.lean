import ExprLang.Proofs.Forest.Walk
import Mathlib.Data.List.Chain

/-!
How items cover text. The walk over an item goes over its parts, one after the other, so it is a piece
of the walk over every item above. If only tokens have a length of their own, an item that covers text
starts with its first token and stops with its last one. What holds from each token to the next one
then holds from each item of a row to the next one.
-/

namespace ExprLang.Forest

open Relation

/-- Only tokens have a length of their own. -/
def Flat (forest : Forest) : Prop :=
  ∀ id item, forest.get? id = some item → item.isToken = false → item.length = 0

/-- The item starts with a token and stops with one. -/
structure Covers (forest : Forest) (id : ItemId) : Prop where
  first : ∃ token ∈ (forest.tokens id).head?, forest.start token = forest.start id
  last : ∃ token ∈ (forest.tokens id).getLast?, forest.stop token = forest.stop id

variable {forest : Forest} {id owner part : Nat} {place : Section} {isChild : Bool}

/-! Changes -/

theorem Flat.push {new : Item} (flat : forest.Flat) (short : new.isToken = false → new.length = 0) :
    (forest.push new).2.Flat := by
  intro id item found complex
  rw [get_push] at found
  split at found
  · obtain rfl := Option.some.inj found
    exact short complex
  · exact flat id item found complex

theorem Flat.modify {change : Item → Item} (flat : forest.Flat)
    (same : ∀ item, forest.get? id = some item →
      (change item).isToken = item.isToken ∧ (change item).length = item.length) :
    (forest.modify id change).Flat := by
  intro other item found complex
  rw [get_modify] at found
  split at found
  · rename_i here
    subst here
    obtain ⟨old, isOld, rfl⟩ := Option.map_eq_some_iff.mp found
    obtain ⟨sameToken, sameLength⟩ := same old isOld
    exact sameLength.trans (flat _ old isOld (sameToken ▸ complex))
  · exact flat other item found complex

theorem Flat.link (flat : forest.Flat) : (forest.link owner part place isChild).Flat :=
  Flat.modify (flat.modify fun _ _ => ⟨rfl, rfl⟩) fun _ _ => ⟨rfl, rfl⟩

/-! The walk over the parts -/

/-- With a step for each item at or below `id` the walk comes to its end. -/
theorem Linked.tokensWithin_eq (linked : forest.Linked) {steps more : Nat}
    (enough : forest.weight id ≤ steps) (also : forest.weight id ≤ more) :
    forest.tokensWithin steps id = forest.tokensWithin more id := by
  induction steps generalizing more id with
  | zero =>
      have outside : forest.get? id = none := Array.getElem?_eq_none
        (Nat.le_of_not_lt fun inside => absurd enough (Nat.not_le_of_lt (weight_pos inside)))
      cases more <;> simp [tokensWithin, outside]
  | succ steps ih =>
      cases found : forest.get? id with
      | none => cases more <;> simp [tokensWithin, found]
      | some item =>
          obtain ⟨less, rfl⟩ : ∃ less, more = less + 1 :=
            ⟨more - 1, by have := weight_pos (get_lt_size found); omega⟩
          simp only [tokensWithin, found]
          split
          · rfl
          · refine List.flatMap_congr fun part member => ?_
            have lighter := linked.weight_lt ((owns_of_get found).mpr member)
            exact ih (by omega) (by omega)

theorem Linked.tokens_eq (linked : forest.Linked) {item : Item} (found : forest.get? id = some item) :
    forest.tokens id = if item.isToken then [id] else item.parts.all.flatMap forest.tokens := by
  rw [tokens, linked.tokensWithin_eq (weight_le_size id) (Nat.le_succ_of_le (weight_le_size id)),
    tokensWithin, found]
  rfl

theorem Linked.tokens_complex (linked : forest.Linked) {kind : ItemKind}
    (isKind : forest.kind? id = some kind) (complex : kind.isToken = false) :
    forest.tokens id = (forest.parts id).all.flatMap forest.tokens := by
  obtain ⟨item, found, rfl⟩ := Option.map_eq_some_iff.mp isKind
  have noToken : item.isToken = false := complex
  rw [linked.tokens_eq found, if_neg (Bool.eq_false_iff.mp noToken), parts_of_get found]

theorem Linked.tokens_infix (linked : forest.Linked) {top : ItemId}
    (path : ReflTransGen forest.Owns top id) : forest.tokens id <:+: forest.tokens top := by
  induction path with
  | refl => exact List.infix_refl _
  | @tail owner part _ owns ih =>
      refine List.IsInfix.trans ?_ ih
      obtain ⟨item, found⟩ := get_of_lt (owner_lt_size owns)
      have complex : ¬ item.isToken = true := fun isToken => by
        rw [owns_of_get found, linked.token owner item found isToken] at owns
        cases owns
      obtain ⟨before, behind, split⟩ := List.append_of_mem ((owns_of_get found).mp owns)
      rw [linked.tokens_eq found, if_neg complex, split, List.flatMap_append, List.flatMap_cons]
      exact ⟨_, _, List.append_assoc _ _ _⟩

/-! The ends of the items -/

/-- A part of an item covers text, and all of it is that of tokens. -/
theorem Sound.covers (sound : forest.Sound) (plain : ∀ id, ¬ forest.IsCustom id) (flat : forest.Flat)
    (owns : forest.Owns owner id) : forest.Covers id := by
  have linked := sound.linked
  induction weight : forest.weight id using Nat.strong_induction_on generalizing owner id with
  | _ count ih =>
      obtain ⟨item, found⟩ := get_of_lt (linked.part_lt_size owns)
      have walk := linked.tokens_eq found
      cases isToken : item.isToken with
      | true =>
          rw [isToken, if_pos rfl] at walk
          constructor <;> exact ⟨id, by simp [walk], rfl⟩
      | false =>
          rw [isToken, if_neg Bool.false_ne_true] at walk
          have filled := (sound.firm owner id owns).resolve_right (plain owner)
          have below : ∀ part ∈ item.parts.all, forest.Covers part := fun part member => by
            have owns := (owns_of_get found).mpr member
            exact ih _ (weight ▸ linked.weight_lt owns) owns rfl
          have starts := linked.start_eq found
          have stops := linked.stop_eq found
          have hasParts : item.parts.all ≠ [] := fun none => by
            -- Without parts it would have to cover text by itself.
            rw [starts, stops, none, flat id item found isToken] at filled
            exact absurd filled (Nat.lt_irrefl _)
          constructor
          · obtain ⟨first, isFirst⟩ := Option.ne_none_iff_exists'.mp
              (mt List.head?_eq_none_iff.mp hasParts)
            obtain ⟨token, isToken, same⟩ := (below first (List.mem_of_mem_head? isFirst)).first
            obtain ⟨behind, split⟩ := List.head?_eq_some_iff.mp isFirst
            refine ⟨token, ?_, by rw [starts, isFirst]; exact same⟩
            rw [walk, split, List.flatMap_cons]
            exact List.mem_head?_append_of_mem_head? isToken
          · obtain ⟨last, isLast⟩ := Option.ne_none_iff_exists'.mp
              (mt List.getLast?_eq_none_iff.mp hasParts)
            obtain ⟨token, isToken, same⟩ := (below last (List.mem_of_mem_getLast? isLast)).last
            obtain ⟨before, split⟩ := List.getLast?_eq_some_iff.mp isLast
            refine ⟨token, ?_, by rw [stops, isLast]; exact same⟩
            rw [walk, split, List.flatMap_append, List.flatMap_singleton]
            exact List.mem_getLast?_append_of_mem_getLast? isToken

/-- From one item to the next it is as from the last token of the one to the first of the other. -/
theorem isChain_of_tokens {R : Nat → Nat → Prop} {row : List ItemId}
    (covers : ∀ id ∈ row, forest.Covers id)
    (chain : (row.flatMap forest.tokens).IsChain fun x y => R (forest.stop x) (forest.start y)) :
    row.IsChain fun x y => R (forest.stop x) (forest.start y) := by
  have filled : [] ∉ row.map forest.tokens := fun member => by
    obtain ⟨id, inRow, empty⟩ := List.mem_map.mp member
    obtain ⟨token, isFirst, _⟩ := (covers id inRow).first
    rw [empty] at isFirst
    cases isFirst
  have ends := ((List.isChain_flatten filled).mp (List.flatMap_def ▸ chain)).2
  rw [List.isChain_map] at ends
  refine ends.imp_of_mem_imp fun x y inRow inRowToo between => ?_
  obtain ⟨last, isLast, stops⟩ := (covers x inRow).last
  obtain ⟨first, isFirst, starts⟩ := (covers y inRowToo).first
  exact stops ▸ starts ▸ between last isLast first isFirst

end ExprLang.Forest
