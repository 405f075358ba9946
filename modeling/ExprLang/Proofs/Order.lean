import ExprLang.Order
import Mathlib.Data.List.Basic

/-!
Sorted rows have the same values in order, and a merge is made of the fronts of its rows.
-/

namespace ExprLang

variable {α : Type} {le : α → α → Bool} {value : α} {row : List α}

theorem insertBy_perm : (insertBy le value row).Perm (value :: row) := by
  induction row with
  | nil => exact List.Perm.refl _
  | cons other rest ih =>
      unfold insertBy
      split
      · exact List.Perm.refl _
      · exact (ih.cons other).trans (List.Perm.swap value other rest)

theorem sortBy_perm : (sortBy le row).Perm row := by
  induction row with
  | nil => exact List.Perm.refl _
  | cons value rest ih => exact insertBy_perm.trans (ih.cons value)

section Ordered

variable (total : ∀ a b, le a b = true ∨ le b a = true)
  (trans : ∀ a b c, le a b = true → le b c = true → le a c = true)

include total trans

theorem pairwise_insertBy (sorted : row.Pairwise (le · ·)) : (insertBy le value row).Pairwise (le · ·) := by
  induction row with
  | nil => exact List.pairwise_singleton _ _
  | cons other rest ih =>
      obtain ⟨first, later⟩ := List.pairwise_cons.mp sorted
      unfold insertBy
      split
      · rename_i front
        refine List.pairwise_cons.mpr ⟨fun x member => ?_, sorted⟩
        rcases List.mem_cons.mp member with rfl | inRest
        · exact front
        · exact trans value other x front (first x inRest)
      · rename_i behind
        refine List.pairwise_cons.mpr ⟨fun x member => ?_, ih later⟩
        rcases List.mem_cons.mp (insertBy_perm.mem_iff.mp member) with rfl | inRest
        · exact (total x other).resolve_left behind
        · exact first x inRest

theorem pairwise_sortBy (row : List α) : (sortBy le row).Pairwise (le · ·) := by
  induction row with
  | nil => exact List.Pairwise.nil
  | cons value rest ih => exact pairwise_insertBy total trans ih

end Ordered

theorem mergeBy_nil (row : List α) : mergeBy le row [] = row := by
  induction row with
  | nil => rfl
  | cons value rest ih => exact congrArg (value :: ·) ih

theorem mergeBy_cons_cons (le : α → α → Bool) (a b : α) (as bs : List α) :
    mergeBy le (a :: as) (b :: bs) =
      if le a b then a :: mergeBy le as (b :: bs) else b :: mergeBy le (a :: as) bs := rfl

theorem mergeBy_perm (left right : List α) : (mergeBy le left right).Perm (left ++ right) := by
  induction left generalizing right with
  | nil => exact List.Perm.refl _
  | cons a as ih =>
      induction right with
      | nil => rw [mergeBy_nil, List.append_nil]
      | cons b bs ihRight =>
          rw [mergeBy_cons_cons]
          split
          · exact (ih (b :: bs)).cons a
          · exact (ihRight.cons b).trans List.perm_middle.symm

end ExprLang
