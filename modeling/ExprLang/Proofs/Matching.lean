import ExprLang.Pattern.Match
import Mathlib.Data.List.Basic

/-!
A pattern matches the same in two texts, as far as their characters are in the same sets and none of
them goes on.
-/

namespace ExprLang

/-- The first `size` characters of the texts are in the same sets of those that fit, and the next ones
are in none of them. -/
structure Agree (fits : CharSet → Prop) (text other : Text) (size : Nat) : Prop where
  same : ∀ k < size, ∃ c d, text[k]? = some c ∧ other[k]? = some d ∧
    ∀ set, fits set → set.holds d = set.holds c
  here : ∀ c, text[size]? = some c → ∀ set, fits set → set.holds c = false
  there : ∀ c, other[size]? = some c → ∀ set, fits set → set.holds c = false

namespace Agree

variable {fits : CharSet → Prop} {text other : Text} {size : Nat} (agree : Agree fits text other size)

include agree

theorem inside : size ≤ text.size ∧ size ≤ other.size := by
  cases size with
  | zero => exact ⟨Nat.zero_le _, Nat.zero_le _⟩
  | succ last =>
      obtain ⟨c, d, here, there, _⟩ := agree.same last (Nat.lt_succ_self last)
      exact ⟨(Array.getElem?_eq_some_iff.mp here).1, (Array.getElem?_eq_some_iff.mp there).1⟩

theorem any_holds {set : CharSet} (fit : fits set) {k : Nat} (within : k ≤ size) :
    other[k]?.any set.holds = text[k]?.any set.holds := by
  rcases Nat.lt_or_eq_of_le within with less | rfl
  · obtain ⟨c, d, here, there, same⟩ := agree.same k less
    rw [here, there, Option.any_some, Option.any_some, same set fit]
  · have none : ∀ {c? : Option Char}, (∀ c, c? = some c → ∀ set, fits set → set.holds c = false) →
        c?.any set.holds = false := by
      intro c? outside
      cases c? with
      | none => rfl
      | some c => exact outside c rfl set fit
    rw [none agree.here, none agree.there]

theorem lt_of_holds {set : CharSet} (fit : fits set) {k : Nat} (within : k ≤ size)
    (holds : text[k]?.any set.holds = true) : k < size := by
  refine Nat.lt_of_le_of_ne within ?_
  rintro rfl
  cases found : text[k]? with
  | none =>
      rw [found] at holds
      cases holds
  | some c =>
      rw [found, Option.any_some, agree.here c found set fit] at holds
      cases holds

end Agree

namespace Pattern

/-- All sets of the pattern fit, and it asserts nothing but the start of the text. -/
def Plain (fits : CharSet → Prop) : Pattern → Prop
  | empty => True
  | char set => fits set
  | assertion place _ => place = .textStart
  | sequence p q | alternative p q => p.Plain fits ∧ q.Plain fits
  | repetition p _ _ _ => p.Plain fits

/-! Repetitions -/

theorem Walk.mem_stop {walk : Walk} {k place : Nat} (member : place ∈ (walk.stop k).found) :
    place ∈ walk.found ∨ place = k := by
  unfold stop at member
  split at member
  · exact Or.inl member
  · exact (List.mem_cons.mp member).symm

theorem Walk.mem_foldl {list : List Nat} {body : Walk → Nat → Walk} (fine : Nat → Prop)
    (each : ∀ walk, ∀ next ∈ list, ∀ place ∈ (body walk next).found, place ∈ walk.found ∨ fine place)
    {walk : Walk} : ∀ place ∈ (list.foldl body walk).found, place ∈ walk.found ∨ fine place := by
  induction list generalizing walk with
  | nil => exact fun _ member => Or.inl member
  | cons next rest ih =>
      intro place member
      rcases ih (fun walk other inRest => each walk other (List.mem_cons_of_mem _ inRest))
        place member with found | holds
      · exact each walk next List.mem_cons_self place found
      · exact Or.inr holds

/-- Up to `size` both steps lead to the same places, and never back. -/
structure Steps (step other : Nat → List Nat) (size : Nat) : Prop where
  same : ∀ k ≤ size, other k = step k
  within : ∀ k ≤ size, ∀ next ∈ step k, k ≤ next ∧ next ≤ size

namespace Steps

variable {step other : Nat → List Nat} {size : Nat} (steps : Steps step other size) {eager : Bool}

include steps

/-- What bounds a walk does not matter if it is more than the places that remain. -/
theorem visit {depth more : Nat} {allowed : Option Nat} {k : Nat} {walk : Walk} (inside : k ≤ size)
    (enough : match allowed with
      | none => size - k < depth ∧ size - k < more
      | some _ => more = depth) :
    walk.visit other eager more allowed k = walk.visit step eager depth allowed k := by
  induction depth generalizing more allowed k walk with
  | zero =>
      cases allowed with
      | none => exact absurd enough.1 (Nat.not_lt_zero _)
      | some _ =>
          obtain rfl : more = 0 := enough
          rfl
  | succ depth ih =>
      obtain ⟨more, rfl⟩ : ∃ less, more = less + 1 := by
        cases allowed with
        | none => exact ⟨more - 1, by omega⟩
        | some _ => exact ⟨depth, enough⟩
      have goesOn : ∀ walk : Walk,
          (if allowed = some 0 then walk
            else (other k).foldl (fun walk next =>
              if allowed = none ∧ next = k then walk.stop k
              else walk.visit other eager more (allowed.map (· - 1)) next) walk) =
          (if allowed = some 0 then walk
            else (step k).foldl (fun walk next =>
              if allowed = none ∧ next = k then walk.stop k
              else walk.visit step eager depth (allowed.map (· - 1)) next) walk) := by
        intro walk
        rw [steps.same k inside]
        refine if_congr Iff.rfl rfl (List.foldl_ext _ _ _ fun walk next member => ?_)
        obtain ⟨onward, within⟩ := steps.within k inside next member
        by_cases stays : allowed = none ∧ next = k
        · rw [if_pos stays, if_pos stays]
        · rw [if_neg stays, if_neg stays]
          apply ih within
          cases allowed with
          | none =>
              have further : next ≠ k := fun same => stays ⟨rfl, same⟩
              dsimp only [Option.map_none] at enough ⊢
              omega
          | some _ =>
              dsimp only [Option.map_some] at enough ⊢
              omega
      unfold Walk.visit
      simp only [goesOn]

/-- A walk finds places further on. -/
theorem visit_found {depth : Nat} {allowed : Option Nat} {k : Nat} {walk : Walk} (inside : k ≤ size) :
    ∀ place ∈ (walk.visit step eager depth allowed k).found,
      place ∈ walk.found ∨ k ≤ place ∧ place ≤ size := by
  induction depth generalizing allowed k walk with
  | zero => exact fun _ member => Or.inl member
  | succ depth ih =>
      have goesOn : ∀ walk : Walk, ∀ place ∈
          (if allowed = some 0 then walk
            else (step k).foldl (fun walk next =>
              if allowed = none ∧ next = k then walk.stop k
              else walk.visit step eager depth (allowed.map (· - 1)) next) walk).found,
          place ∈ walk.found ∨ k ≤ place ∧ place ≤ size := by
        intro walk
        split
        · exact fun _ member => Or.inl member
        · apply Walk.mem_foldl fun place => k ≤ place ∧ place ≤ size
          intro walk next member place found
          obtain ⟨onward, within⟩ := steps.within k inside next member
          split at found
          · rcases Walk.mem_stop found with before | rfl
            · exact Or.inl before
            · exact Or.inr ⟨Nat.le_refl _, inside⟩
          · rcases ih within place found with before | ⟨behind, bound⟩
            · exact Or.inl before
            · exact Or.inr ⟨Nat.le_trans onward behind, bound⟩
      intro place found
      unfold Walk.visit at found
      split at found
      · exact Or.inl found
      · dsimp only at found
        split at found
        · rcases Walk.mem_stop found with before | rfl
          · exact goesOn { walk with seen := (allowed, k) :: walk.seen } place before
          · exact Or.inr ⟨Nat.le_refl _, inside⟩
        · rcases goesOn _ place found with before | bounds
          · rcases Walk.mem_stop before with before | rfl
            · exact Or.inl before
            · exact Or.inr ⟨Nat.le_refl _, inside⟩
          · exact Or.inr bounds

theorem copies (count : Nat) {places : List Nat} {k : Nat}
    (inside : ∀ place ∈ places, k ≤ place ∧ place ≤ size) :
    Pattern.copies other count places = Pattern.copies step count places ∧
      ∀ place ∈ Pattern.copies step count places, k ≤ place ∧ place ≤ size := by
  induction count generalizing places with
  | zero => exact ⟨rfl, inside⟩
  | succ count ih =>
      have same : places.flatMap other = places.flatMap step :=
        List.flatMap_congr fun place member => steps.same place (inside place member).2
      rw [Pattern.copies, Pattern.copies, same]
      apply ih
      intro next member
      obtain ⟨place, from_, leads⟩ := List.mem_flatMap.mp (List.mem_eraseDups.mp member)
      obtain ⟨behind, bound⟩ := inside place from_
      obtain ⟨onward, within⟩ := steps.within place bound next leads
      exact ⟨Nat.le_trans behind onward, within⟩

theorem repeated {text text' : Text} (sizes : size ≤ text.size ∧ size ≤ text'.size)
    {min : Nat} {max : Option Nat} {k : Nat} (inside : k ≤ size) :
    Pattern.repeated text' other min max eager k = Pattern.repeated text step min max eager k ∧
      ∀ next ∈ Pattern.repeated text step min max eager k, k ≤ next ∧ next ≤ size := by
  have start : ∀ place ∈ [k], k ≤ place ∧ place ≤ size := by
    intro place member
    obtain rfl := List.mem_singleton.mp member
    exact ⟨Nat.le_refl _, inside⟩
  obtain ⟨same, bounds⟩ := steps.copies min start
  unfold Pattern.repeated
  rw [same]
  constructor
  · refine congrArg (fun walk : Walk => walk.found.reverse) (List.foldl_ext _ _ _ fun walk start member => ?_)
    apply steps.visit (bounds start member).2
    cases max with
    | none => exact ⟨by dsimp only [Option.map_none]; omega, by dsimp only [Option.map_none]; omega⟩
    | some _ => rfl
  · intro next member
    refine (Walk.mem_foldl (fun place => k ≤ place ∧ place ≤ size)
      (fun walk start member place found => ?_) next (List.mem_reverse.mp member)).resolve_left nofun
    obtain ⟨behind, bound⟩ := bounds start member
    exact (steps.visit_found bound place found).imp_right fun ⟨onward, within⟩ =>
      ⟨Nat.le_trans behind onward, within⟩

end Steps

/-! Matches -/

variable {fits : CharSet → Prop} {text other : Text} {size : Nat}

theorem steps_ends (agree : Agree fits text other size) :
    ∀ pattern : Pattern, pattern.Plain fits → Steps (ends text pattern) (ends other pattern) size
  | empty, _ => by
      refine ⟨fun _ _ => rfl, fun k inside next member => ?_⟩
      obtain rfl := List.mem_singleton.mp member
      exact ⟨Nat.le_refl _, inside⟩
  | char set, fit => by
      refine ⟨fun k inside => ?_, fun k inside next member => ?_⟩
      · rw [ends, ends, agree.any_holds fit inside]
      · rw [ends] at member
        split at member
        · rename_i holds
          have less := agree.lt_of_holds fit inside holds
          obtain rfl := List.mem_singleton.mp member
          omega
        · cases member
  | assertion place wordChars, start => by
      obtain rfl : place = .textStart := start
      refine ⟨fun _ _ => rfl, fun k inside next member => ?_⟩
      rw [ends] at member
      split at member
      · obtain rfl := List.mem_singleton.mp member
        exact ⟨Nat.le_refl _, inside⟩
      · cases member
  | sequence p q, plain => by
      have first := steps_ends agree p plain.1
      have second := steps_ends agree q plain.2
      refine ⟨fun k inside => ?_, fun k inside next member => ?_⟩
      · rw [ends, ends, first.same k inside]
        exact congrArg List.eraseDups (List.flatMap_congr fun place member =>
          second.same place (first.within k inside place member).2)
      · rw [ends] at member
        obtain ⟨place, from_, leads⟩ := List.mem_flatMap.mp (List.mem_eraseDups.mp member)
        obtain ⟨behind, bound⟩ := first.within k inside place from_
        obtain ⟨onward, within⟩ := second.within place bound next leads
        exact ⟨Nat.le_trans behind onward, within⟩
  | alternative p q, plain => by
      have left := steps_ends agree p plain.1
      have right := steps_ends agree q plain.2
      refine ⟨fun k inside => ?_, fun k inside next member => ?_⟩
      · rw [ends, ends, left.same k inside, right.same k inside]
      · rw [ends] at member
        rcases List.mem_append.mp (List.mem_eraseDups.mp member) with inLeft | inRight
        · exact left.within k inside next inLeft
        · exact right.within k inside next inRight
  | repetition p min max eager, plain => by
      have once := steps_ends agree p plain
      refine ⟨fun k inside => ?_, fun k inside next member => ?_⟩
      · rw [ends, ends]
        exact (once.repeated agree.inside inside).1
      · rw [ends] at member
        exact (once.repeated agree.inside inside).2 next member

/-- The pattern matches at the start of a text only. -/
def Anchored (fits : CharSet → Prop) : Pattern → Prop
  | sequence (assertion .textStart _) q => q.Plain fits
  | _ => False

/-- Both texts have the same match at their start, or none. -/
theorem find_agree (agree : Agree fits text other size) {pattern : Pattern}
    (anchored : pattern.Anchored fits) : pattern.find? other = pattern.find? text ∧
      ∀ start stop, pattern.find? text = some (start, stop) → start = 0 ∧ stop ≤ size := by
  obtain ⟨wordChars, q, rfl, plain⟩ : ∃ wordChars q,
      pattern = sequence (assertion .textStart wordChars) q ∧ q.Plain fits := by
    unfold Anchored at anchored
    split at anchored
    · exact ⟨_, _, rfl, anchored⟩
    · cases anchored
  have steps := steps_ends agree (sequence (assertion .textStart wordChars) q) ⟨rfl, plain⟩
  -- Behind the start the assertion fails.
  have never : ∀ (text : Text) count k, 0 < k →
      findFrom (sequence (assertion .textStart wordChars) q) text count k = none := by
    intro text count
    induction count with
    | zero => exact fun _ _ => rfl
    | succ count ih =>
        intro k behind
        have fails : ends text (sequence (assertion .textStart wordChars) q) k = [] := by
          have : (k == 0) = false := beq_false_of_ne (Nat.pos_iff_ne_zero.mp behind)
          simp [ends, Assertion.holds, this]
        rw [findFrom, fails]
        exact ih (k + 1) (Nat.succ_pos k)
  have only : ∀ text : Text, find? (sequence (assertion .textStart wordChars) q) text =
      (ends text (sequence (assertion .textStart wordChars) q) 0).head?.map (0, ·) := by
    intro text
    rw [find?, findFrom]
    cases ends text (sequence (assertion .textStart wordChars) q) 0 with
    | nil => exact never text _ 1 Nat.one_pos
    | cons stop _ => rfl
  rw [only, only, steps.same 0 (Nat.zero_le _)]
  refine ⟨rfl, fun start stop found => ?_⟩
  obtain ⟨stop, first, same⟩ := Option.map_eq_some_iff.mp found
  cases same
  exact ⟨rfl, (steps.within 0 (Nat.zero_le _) stop (List.mem_of_mem_head? first)).2⟩

end Pattern

end ExprLang
