import Mathlib.Logic.Function.Basic
import ExprLang.Proofs.Comments

/-!
A text with other gaps. Each place of the first text that is not inside a replaced gap has its place in
the second one, and from place to place both texts go on with the same character or with a gap and its
replacement. Where all gaps are blank, a search that sees the same in both texts ends at places that
correspond, or inside a gap and its replacement.
-/

namespace ExprLang

/-- The second text is the first one with some of its gaps replaced. What is `allowed` depends on the
place of the gap and on the blanks before and after. -/
inductive Respaced (allowed : Nat → List Char → List Char → Prop) :
    Nat → List Char → List Char → Prop where
  | done (place : Nat) : Respaced allowed place [] []
  | keep (c : Char) {place : Nat} {text other : List Char} :
      Respaced allowed (place + 1) text other → Respaced allowed place (c :: text) (c :: other)
  | replace {place : Nat} {old new text other : List Char} : allowed place old new →
      Respaced allowed (place + old.length) text other →
      Respaced allowed place (old ++ text) (new ++ other)

variable {allowed : Nat → List Char → List Char → Prop}

theorem Respaced.refl (place : Nat) (chars : List Char) : Respaced allowed place chars chars := by
  induction chars generalizing place with
  | nil => exact .done place
  | cons c _ ih => exact .keep c (ih (place + 1))

/-- From `p` and `p'` the texts go on with one character, or with a gap and its replacement, to `q`
and `q'`. -/
inductive Passes (allowed : Nat → List Char → List Char → Prop) (text other : Text) (p p' : Nat) :
    Nat → Nat → Prop where
  | char (c : Char) : text[p]? = some c → other[p']? = some c →
      Passes allowed text other p p' (p + 1) (p' + 1)
  | gap (old new : List Char) : allowed p old new →
      (∀ k < old.length, text[p + k]? = old[k]?) → (∀ k < new.length, other[p' + k]? = new[k]?) →
      Passes allowed text other p p' (p + old.length) (p' + new.length)

/-- Where the `whole` places of a text, those not inside replaced gaps, are in the other text. -/
structure Tracks (allowed : Nat → List Char → List Char → Prop) (text other : Text) (move : Nat → Nat)
    (whole : Nat → Prop) (start : Nat) : Prop where
  first : whole start
  last : whole text.size ∧ move text.size = other.size
  inside : ∀ p, whole p → start ≤ p ∧ p ≤ text.size ∧ move p ≤ other.size
  next : ∀ p, whole p → p < text.size → ∃ q, whole q ∧ p < q ∧ move p < move q ∧
    Passes allowed text other p (move p) q (move q) ∧ ∀ r, p < r → r < q → ¬ whole r

namespace Tracks

variable {text other : Text} {move : Nat → Nat} {whole : Nat → Prop} {start p p' q : Nat}

theorem prepend (later : Tracks allowed text other move whole q) (less : p < q) (less' : p' < move q)
    (passes : Passes allowed text other p p' q (move q)) :
    Tracks allowed text other (Function.update move p p') (fun r => r = p ∨ whole r) p := by
  have behind : ∀ r, whole r → r ≠ p := fun r isWhole => by
    have := (later.inside r isWhole).1
    omega
  have stays : ∀ r, whole r → Function.update move p p' r = move r := fun r isWhole =>
    Function.update_of_ne (behind r isWhole) _ _
  refine ⟨Or.inl rfl, ⟨Or.inr later.last.1, ?_⟩, ?_, ?_⟩
  · rw [stays _ later.last.1, later.last.2]
  · rintro r (rfl | isWhole)
    · obtain ⟨_, inside, inside'⟩ := later.inside q later.first
      rw [Function.update_self]
      exact ⟨Nat.le_refl _, by omega, by omega⟩
    · obtain ⟨above, inside, inside'⟩ := later.inside r isWhole
      rw [stays r isWhole]
      exact ⟨by omega, inside, inside'⟩
  · rintro r (rfl | isWhole) further
    · refine ⟨q, Or.inr later.first, less, ?_⟩
      rw [Function.update_self, stays q later.first]
      refine ⟨less', passes, ?_⟩
      rintro r' above below (rfl | isWhole)
      · exact absurd above (Nat.lt_irrefl _)
      · exact absurd (later.inside r' isWhole).1 (Nat.not_le_of_lt below)
    · obtain ⟨r', isWhole', ahead, ahead', onward, none⟩ := later.next r isWhole further
      refine ⟨r', Or.inr isWhole', ahead, ?_⟩
      rw [stays r isWhole, stays r' isWhole']
      refine ⟨ahead', onward, ?_⟩
      rintro between above below (rfl | isBetween)
      · have := (later.inside r isWhole).1
        omega
      · exact none between above below isBetween

/-- Behind a whole place the first one that is not is inside a replaced gap. -/
theorem around (tracks : Tracks allowed text other move whole start) (isWhole : whole p) {r : Nat}
    (le : p ≤ r) (inside : r ≤ text.size) :
    whole r ∨ ∃ x y, whole x ∧ x < r ∧ r < y ∧ Passes allowed text other x (move x) y (move y) := by
  induction distance : r - p using Nat.strongRecOn generalizing p with
  | ind distance ih =>
      rcases Nat.eq_or_lt_of_le le with rfl | less
      · exact Or.inl isWhole
      · obtain ⟨q, isWhole', ahead, _, passes, _⟩ := tracks.next p isWhole (by omega)
        by_cases reaches : q ≤ r
        · exact ih (r - q) (by omega) isWhole' reaches rfl
        · exact Or.inr ⟨p, q, isWhole, less, Nat.lt_of_not_le reaches, passes⟩

theorem ascends (tracks : Tracks allowed text other move whole start) (isWhole : whole p) {r : Nat}
    (also : whole r) (less : p < r) : move p < move r := by
  induction distance : r - p using Nat.strongRecOn generalizing p with
  | ind distance ih =>
      have bound := (tracks.inside r also).2.1
      obtain ⟨q, isWhole', ahead, ahead', _, none⟩ := tracks.next p isWhole (by omega)
      rcases Nat.lt_trichotomy q r with further | rfl | beyond
      · exact Nat.lt_trans ahead' (ih (r - q) (by omega) isWhole' further rfl)
      · exact ahead'
      · exact absurd also (none r less beyond)

/-- Searches that find something in the same passes end in the same pass, or with the texts. -/
theorem seek_alike (tracks : Tracks allowed text other move whole start) {f g : Nat → Bool}
    (isWhole : whole p)
    (same : ∀ x y, whole x → p ≤ x → x ≤ Text.seek f (text.size - p) p →
      Passes allowed text other x (move x) y (move y) →
        ((∃ i, x ≤ i ∧ i < y ∧ f i = true) ↔ ∃ i, move x ≤ i ∧ i < move y ∧ g i = true)) :
    (Text.seek f (text.size - p) p = text.size ∧
        Text.seek g (other.size - move p) (move p) = other.size) ∨
      ∃ x y, whole x ∧ whole y ∧ p ≤ x ∧ Passes allowed text other x (move x) y (move y) ∧
        (x ≤ Text.seek f (text.size - p) p ∧ Text.seek f (text.size - p) p < y) ∧
        (move x ≤ Text.seek g (other.size - move p) (move p) ∧
          Text.seek g (other.size - move p) (move p) < move y) := by
  induction distance : text.size - p using Nat.strongRecOn generalizing p with
  | ind distance ih =>
      subst distance
      obtain ⟨_, inside, inside'⟩ := tracks.inside p isWhole
      rcases Nat.lt_or_eq_of_le inside with less | rfl
      · obtain ⟨q, also, ahead, ahead', passes, _⟩ := tracks.next p isWhole less
        obtain ⟨_, insideQ, insideQ'⟩ := tracks.inside q also
        have sameHere := same p q isWhole (Nat.le_refl p) (Text.le_seek f _ p) passes
        by_cases found : ∃ i, p ≤ i ∧ i < q ∧ f i = true
        · obtain ⟨i, above, below, here⟩ := found
          obtain ⟨j, above', below', there⟩ := sameHere.mp ⟨i, above, below, here⟩
          refine Or.inr ⟨p, q, isWhole, also, Nat.le_refl p, passes, ⟨Text.le_seek f _ p, ?_⟩,
            Text.le_seek g _ (move p), ?_⟩
          · exact Nat.lt_of_le_of_lt (Text.seek_le_of_found above here) below
          · exact Nat.lt_of_le_of_lt (Text.seek_le_of_found above' there) below'
        · have missed : ∀ i, p ≤ i → i < q → f i = false := fun i above below =>
            Bool.eq_false_iff.mpr fun here => found ⟨i, above, below, here⟩
          have missed' : ∀ i, move p ≤ i → i < move q → g i = false := fun i above below =>
            Bool.eq_false_iff.mpr fun there => found (sameHere.mpr ⟨i, above, below, there⟩)
          have skip : Text.seek f (text.size - p) p = Text.seek f (text.size - q) q := by
            rw [Text.seek_skip (Nat.le_of_lt ahead) (by omega) missed]
            congr 1
            omega
          have skip' : Text.seek g (other.size - move p) (move p) =
              Text.seek g (other.size - move q) (move q) := by
            rw [Text.seek_skip (Nat.le_of_lt ahead') (by omega) missed']
            congr 1
            omega
          rw [skip, skip']
          rw [skip] at same
          have later := ih (text.size - q) (by omega) also (fun x y isX above => same x y isX (by omega)) rfl
          refine later.imp id ?_
          rintro ⟨x, y, isX, isY, above, within⟩
          exact ⟨x, y, isX, isY, by omega, within⟩
      · refine Or.inl ⟨?_, ?_⟩
        · rw [Nat.sub_self, Text.seek]
        · rw [tracks.last.2, Nat.sub_self, Text.seek]

end Tracks

theorem Respaced.exists_tracks {place : Nat} {chars others : List Char}
    (respaced : Respaced allowed place chars others)
    (filled : ∀ place old new, allowed place old new → old ≠ [] ∧ new ≠ []) {text other : Text}
    {place' : Nat}
    (here : text.toList.drop place = chars) (there : other.toList.drop place' = others)
    (inside : place ≤ text.size) (inside' : place' ≤ other.size) :
    ∃ move whole, move place = place' ∧ Tracks allowed text other move whole place := by
  induction respaced generalizing place' with
  -- Both texts end here.
  | done place =>
      have atEnd := List.drop_eq_nil_iff.mp here
      have atEnd' := List.drop_eq_nil_iff.mp there
      rw [Array.length_toList] at atEnd atEnd'
      obtain rfl := Nat.le_antisymm inside atEnd
      obtain rfl := Nat.le_antisymm inside' atEnd'
      refine ⟨fun _ => other.size, (· = text.size), rfl, rfl, ⟨rfl, rfl⟩, ?_, ?_⟩
      · rintro _ rfl
        exact ⟨Nat.le_refl _, Nat.le_refl _, Nat.le_refl _⟩
      · rintro _ rfl less
        exact absurd less (Nat.lt_irrefl _)
  -- One character that is the same in both, and then the places behind it.
  | @keep c place chars others _ ih =>
      have char := congrArg (·[0]?) here
      have char' := congrArg (·[0]?) there
      simp only [List.getElem?_drop, Nat.add_zero, Array.getElem?_toList, List.getElem?_cons_zero]
        at char char'
      have less := (Array.getElem?_eq_some_iff.mp char).1
      have less' := (Array.getElem?_eq_some_iff.mp char').1
      obtain ⟨move, whole, moved, later⟩ := @ih (place' + 1)
        (by rw [← List.tail_drop, here, List.tail_cons])
        (by rw [← List.tail_drop, there, List.tail_cons]) less less'
      refine ⟨_, _, Function.update_self _ _ _, later.prepend (Nat.lt_succ_self _) ?_ ?_⟩
      · exact moved ▸ Nat.lt_succ_self _
      · exact moved ▸ .char c char char'
  -- A gap for a gap, and then the places behind them.
  | @replace place old new chars others isAllowed _ ih =>
      obtain ⟨filled, filled'⟩ := filled _ _ _ isAllowed
      have gap : ∀ k < old.length, text[place + k]? = old[k]? := by
        intro k less
        rw [← Array.getElem?_toList, ← List.getElem?_drop, here, List.getElem?_append_left less]
      have gap' : ∀ k < new.length, other[place' + k]? = new[k]? := by
        intro k less
        rw [← Array.getElem?_toList, ← List.getElem?_drop, there, List.getElem?_append_left less]
      have size := congrArg List.length here
      have size' := congrArg List.length there
      simp only [List.length_drop, List.length_append, Array.length_toList] at size size'
      have long := List.length_pos_iff.mpr filled
      have long' := List.length_pos_iff.mpr filled'
      obtain ⟨move, whole, moved, later⟩ := @ih (place' + new.length)
        (by rw [← List.drop_drop, here, List.drop_left]) (by rw [← List.drop_drop, there, List.drop_left])
        (by omega) (by omega)
      refine ⟨_, _, Function.update_self _ _ _, later.prepend (by omega) ?_ ?_⟩
      · rw [moved]
        omega
      · exact moved ▸ .gap old new isAllowed gap gap'

end ExprLang
