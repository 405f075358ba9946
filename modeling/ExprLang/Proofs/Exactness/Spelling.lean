import ExprLang.Proofs.Matching

/-!
What a pattern finds is spelled as the pattern says. The search walks over places and prefers some of them
to others; whichever it finds, the characters up to there are put together from pieces that the parts of
the pattern stand for.
-/

namespace ExprLang.Pattern

/-- The characters that a pattern can stand for, whatever is around them. -/
inductive Spells : Pattern → List Char → Prop
  | empty : Spells empty []
  | char {set : CharSet} {c : Char} (holds : set.holds c = true) : Spells (char set) [c]
  | assertion {place : Assertion} {wordChars : CharSet} : Spells (assertion place wordChars) []
  | sequence {p q : Pattern} {chars more : List Char} (first : Spells p chars) (second : Spells q more) :
      Spells (sequence p q) (chars ++ more)
  | left {p q : Pattern} {chars : List Char} (spells : Spells p chars) : Spells (alternative p q) chars
  | right {p q : Pattern} {chars : List Char} (spells : Spells q chars) : Spells (alternative p q) chars
  | repetition {p : Pattern} {min : Nat} {max : Option Nat} {eager : Bool} {pieces : List (List Char)}
      (each : ∀ piece ∈ pieces, Spells p piece) (enough : min ≤ pieces.length)
      (few : ∀ limit ∈ max, pieces.length ≤ Nat.max min limit) :
      Spells (repetition p min max eager) pieces.flatten

/-! Repetitions -/

/-- So many steps lead from one place to the other. -/
inductive Leads (step : Nat → List Nat) : Nat → Nat → Nat → Prop
  | stay {k : Nat} : Leads step 0 k k
  | go {count k next stop : Nat} (once : next ∈ step k) (rest : Leads step count next stop) :
      Leads step (count + 1) k stop

section Leads

variable {step : Nat → List Nat} {count more k place stop : Nat} {eager : Bool}

theorem Leads.trans (first : Leads step count k place) (second : Leads step more place stop) :
    Leads step (count + more) k stop := by
  induction first with
  | stay => rwa [Nat.zero_add]
  | go once _ ih =>
      rw [Nat.add_right_comm]
      exact .go once (ih second)

theorem leads_of_mem_copies {places : List Nat} (member : stop ∈ copies step count places) :
    ∃ place ∈ places, Leads step count place stop := by
  induction count generalizing places with
  | zero => exact ⟨stop, member, .stay⟩
  | succ count ih =>
      rw [copies] at member
      obtain ⟨next, isNext, leads⟩ := ih member
      obtain ⟨place, isPlace, once⟩ := List.mem_flatMap.mp (List.mem_eraseDups.mp isNext)
      exact ⟨place, isPlace, .go once leads⟩

/-- No more steps than allowed lead there. -/
def LeadsWithin (step : Nat → List Nat) (allowed : Option Nat) (k stop : Nat) : Prop :=
  ∃ count, (∀ limit ∈ allowed, count ≤ limit) ∧ Leads step count k stop

variable {allowed : Option Nat}

theorem leadsWithin_here : LeadsWithin step allowed k k := ⟨0, fun _ _ => Nat.zero_le _, .stay⟩

theorem LeadsWithin.go {next : Nat} (more : allowed ≠ some 0) (once : next ∈ step k)
    (rest : LeadsWithin step (allowed.map (· - 1)) next stop) : LeadsWithin step allowed k stop := by
  obtain ⟨count, few, leads⟩ := rest
  refine ⟨count + 1, fun limit isLimit => ?_, .go once leads⟩
  obtain rfl := Option.mem_def.mp isLimit
  have positive : limit ≠ 0 := fun zero => more (congrArg some zero)
  have := few (limit - 1) rfl
  omega

/-- A walk stops where some of the allowed steps lead. -/
theorem leads_of_visit {depth : Nat} {walk : Walk} :
    ∀ stop ∈ (walk.visit step eager depth allowed k).found,
      stop ∈ walk.found ∨ LeadsWithin step allowed k stop := by
  induction depth generalizing allowed k walk with
  | zero => exact fun _ member => Or.inl member
  | succ depth ih =>
      have onward : ∀ walk : Walk, ∀ stop ∈
          (if allowed = some 0 then walk
            else (step k).foldl (fun walk next =>
              if allowed = none ∧ next = k then walk.stop k
              else walk.visit step eager depth (allowed.map (· - 1)) next) walk).found,
          stop ∈ walk.found ∨ LeadsWithin step allowed k stop := by
        intro walk
        by_cases none : allowed = some 0
        · rw [if_pos none]
          exact fun _ member => Or.inl member
        · rw [if_neg none]
          apply Walk.mem_foldl (LeadsWithin step allowed k)
          intro walk next once stop found
          split at found
          · rcases Walk.mem_stop found with before | rfl
            · exact Or.inl before
            · exact Or.inr leadsWithin_here
          · exact (ih stop found).imp_right (.go none once)
      intro stop found
      unfold Walk.visit at found
      split at found
      · exact Or.inl found
      · dsimp only at found
        split at found
        -- An eager walk goes on before it stops here, the other kind stops here before it goes on.
        · rcases Walk.mem_stop found with before | rfl
          · exact onward { walk with seen := (allowed, k) :: walk.seen } stop before
          · exact Or.inr leadsWithin_here
        · rcases onward _ stop found with before | leads
          · rcases Walk.mem_stop before with before | rfl
            · exact Or.inl before
            · exact Or.inr leadsWithin_here
          · exact Or.inr leads

theorem leads_of_repeated {text : Text} {min : Nat} {max : Option Nat}
    (member : stop ∈ repeated text step min max eager k) :
    ∃ count, min ≤ count ∧ (∀ limit ∈ max, count ≤ Nat.max min limit) ∧ Leads step count k stop := by
  unfold repeated at member
  have found := Walk.mem_foldl (fun stop => ∃ count, min ≤ count ∧
      (∀ limit ∈ max, count ≤ Nat.max min limit) ∧ Leads step count k stop)
    (fun walk start isStart stop found => ?_) stop (List.mem_reverse.mp member)
  · exact found.resolve_left List.not_mem_nil
  · rcases leads_of_visit stop found with before | ⟨count, few, leads⟩
    · exact Or.inl before
    · obtain ⟨place, isPlace, first⟩ := leads_of_mem_copies isStart
      obtain rfl := List.mem_singleton.mp isPlace
      refine Or.inr ⟨min + count, Nat.le_add_right _ _, fun limit isLimit => ?_, first.trans leads⟩
      have := few (limit - min) (by simp [Option.mem_def.mp isLimit])
      have : Nat.max min limit = if min ≤ limit then limit else min := rfl
      split at this <;> omega

end Leads

/-! Matches -/

variable {text : Text} {k stop : Nat}

/-- The characters between two places. -/
def between (text : Text) (k stop : Nat) : List Char := (text.extract k stop).toList

theorem between_append {place : Nat} (first : k ≤ place) (second : place ≤ stop) :
    between text k place ++ between text place stop = between text k stop := by
  rw [between, between, ← Array.toList_append, Array.extract_append_extract, Nat.min_eq_left first,
    Nat.max_eq_right second, between]

/-- Where a match ends it has been spelled. -/
theorem spells_of_mem_ends : ∀ (pattern : Pattern) {k : Nat}, k ≤ text.size →
    ∀ stop ∈ ends text pattern k,
      k ≤ stop ∧ stop ≤ text.size ∧ Spells pattern (between text k stop)
  | empty, k, inside, stop, member => by
      obtain rfl := List.mem_singleton.mp member
      exact ⟨Nat.le_refl _, inside, by simpa [between] using Spells.empty⟩
  | char set, k, inside, stop, member => by
      rw [ends] at member
      split at member
      · rename_i holds
        obtain rfl := List.mem_singleton.mp member
        cases found : text[k]? with
        | none => simp [found] at holds
        | some c =>
            obtain ⟨less, rfl⟩ := Array.getElem?_eq_some_iff.mp found
            have single : between text k (k + 1) = [text[k]] := by
              simp [between, List.extract_eq_take_drop, List.take_one, List.head?_drop]
            rw [found] at holds
            exact ⟨Nat.le_succ k, less, single ▸ .char holds⟩
      · cases member
  | assertion place wordChars, k, inside, stop, member => by
      rw [ends] at member
      split at member
      · obtain rfl := List.mem_singleton.mp member
        exact ⟨Nat.le_refl _, inside, by simpa [between] using Spells.assertion⟩
      · cases member
  | sequence p q, k, inside, stop, member => by
      rw [ends] at member
      obtain ⟨place, isPlace, leads⟩ := List.mem_flatMap.mp (List.mem_eraseDups.mp member)
      obtain ⟨onward, within, first⟩ := spells_of_mem_ends p inside place isPlace
      obtain ⟨further, fits, second⟩ := spells_of_mem_ends q within stop leads
      refine ⟨Nat.le_trans onward further, fits, ?_⟩
      rw [← between_append onward further]
      exact .sequence first second
  | alternative p q, k, inside, stop, member => by
      rw [ends] at member
      rcases List.mem_append.mp (List.mem_eraseDups.mp member) with isLeft | isRight
      · obtain ⟨onward, within, spells⟩ := spells_of_mem_ends p inside stop isLeft
        exact ⟨onward, within, .left spells⟩
      · obtain ⟨onward, within, spells⟩ := spells_of_mem_ends q inside stop isRight
        exact ⟨onward, within, .right spells⟩
  | repetition p min max eager, k, inside, stop, member => by
      rw [ends] at member
      obtain ⟨count, enough, few, leads⟩ := leads_of_repeated member
      -- Each step adds a piece.
      have pieces : ∃ pieces : List (List Char), pieces.length = count ∧ k ≤ stop ∧ stop ≤ text.size ∧
          (∀ piece ∈ pieces, Spells p piece) ∧ between text k stop = pieces.flatten := by
        clear member enough few
        induction leads with
        | stay => exact ⟨[], rfl, Nat.le_refl _, inside, List.forall_mem_nil _, by simp [between]⟩
        | go once _ ih =>
            obtain ⟨onward, within, spells⟩ := spells_of_mem_ends p inside _ once
            obtain ⟨pieces, length, further, fits, each, same⟩ := ih within
            refine ⟨_ :: pieces, congrArg (· + 1) length, Nat.le_trans onward further, fits,
              List.forall_mem_cons.mpr ⟨spells, each⟩, ?_⟩
            rw [List.flatten_cons, ← same, between_append onward further]
      obtain ⟨pieces, rfl, onward, within, each, same⟩ := pieces
      exact ⟨onward, within, same ▸ .repetition each enough few⟩

/-- What is found is spelled. -/
theorem spells_of_find {pattern : Pattern} {start : Nat} (found : pattern.find? text = some (start, stop)) :
    Spells pattern (between text start stop) := by
  have search : ∀ starts k, k + starts ≤ text.size + 1 → pattern.findFrom text starts k = some (start, stop) →
      Spells pattern (between text start stop) := by
    intro starts
    induction starts with
    | zero =>
        intro _ _ never
        cases never
    | succ starts ih =>
        intro k inside found
        rw [findFrom] at found
        split at found
        · rename_i last others ends
          cases found
          exact (spells_of_mem_ends pattern (by omega) stop (by simp [ends])).2.2
        · exact ih (k + 1) (by omega) found
  exact search _ 0 (by omega) found

end ExprLang.Pattern
