import ExprLang.Proofs.Progress.Steps

/-!
Steps that do the same. A loop or a segment is handed what it goes on with; two that are handed steps
which do the same wherever the first of them comes to do the same themselves. So what is handed to a
step matters only where the step comes to.
-/

namespace ExprLang

open ParseState (Within Onward Beyond)

variable {α β ι : Type}

namespace Parse

/-- From `s` on both steps do the same, and that leads onward. -/
def Alike (s : ParseState) (step other : Parse α) (ok : α → ParseState → Prop) : Prop :=
  other s = step s ∧ Goes s step ok

variable {s : ParseState} {step other : Parse α} {next nextOther : α → Parse β}
  {ok mid : α → ParseState → Prop} {fine : β → ParseState → Prop}

theorem Alike.same (alike : Alike s step other ok) : other s = step s := alike.1

theorem Alike.goes (alike : Alike s step other ok) : Goes s step ok := alike.2

theorem Goes.imp (goes : Goes s step mid) (weaker : ∀ value t, s.Onward t → mid value t → ok value t) :
    Goes s step ok := by
  apply Ends.imp goes
  · rintro value t ⟨onward, holds⟩
    exact ⟨onward, weaker value t onward holds⟩
  · exact fun _ _ onward => onward

theorem Alike.imp (alike : Alike s step other mid)
    (weaker : ∀ value t, s.Onward t → mid value t → ok value t) : Alike s step other ok :=
  ⟨alike.same, alike.goes.imp weaker⟩

theorem Goes.alike (goes : Goes s step ok) : Alike s step step ok := ⟨rfl, goes⟩

theorem Alike.bind (first : Alike s step other mid)
    (rest : ∀ value t, s.Onward t → mid value t → Alike t (next value) (nextOther value) fine) :
    Alike s (step >>= next) (other >>= nextOther) fine := by
  constructor
  · have goes := first.goes
    rw [bind_run, bind_run, first.same]
    unfold Goes Ends at goes
    cases run : step s with
    | error error t => rfl
    | ok value t =>
        rw [run] at goes
        exact (rest value t goes.1 goes.2).same
  · apply Ends.bind first.goes
    · rintro value t ⟨onward, holds⟩
      apply Ends.imp (rest value t onward holds).goes
      · rintro result u ⟨further, fine⟩
        exact ⟨onward.trans further, fine⟩
      · exact fun _ u further => onward.trans further
    · exact fun _ _ onward => onward

theorem Goes.bind {next : α → Parse β} (first : Goes s step mid)
    (rest : ∀ value t, s.Onward t → mid value t → Goes t (next value) fine) :
    Goes s (step >>= next) fine :=
  (first.alike.bind fun value t onward holds => (rest value t onward holds).alike).goes

theorem goes_pure (within : s.Within) {value : α} (holds : ok value s) :
    Goes s (pure value : Parse α) ok := ends_pure ⟨within.refl, holds⟩

theorem alike_pure (within : s.Within) {value : α} (holds : ok value s) :
    Alike s (pure value) (pure value) ok := (goes_pure within holds).alike

/-- Behind a step that leaves the cursor alone. -/
theorem Resting.then (resting : Resting step) (within : s.Within)
    (rest : ∀ value t, s.Onward t → t.cursor = s.cursor → Alike t (next value) (nextOther value) fine) :
    Alike s (step >>= next) (step >>= nextOther) fine := (resting.goes within).alike.bind rest

theorem alike_ite {c : Prop} [Decidable c] {yes yesOther no noOther : Parse α}
    (first : c → Alike s yes yesOther ok) (second : ¬ c → Alike s no noOther ok) :
    Alike s (if c then yes else no) (if c then yesOther else noOther) ok := by
  split
  · exact first ‹c›
  · exact second ‹¬ c›

theorem alike_stop (within : s.Within) (start length : Nat) (cause : Fault.Cause) :
    Alike s (stop start length cause : Parse α) (stop start length cause) ok :=
  Goes.alike (ends_error rfl (ParseState.onward_of_cursor within rfl))

/-! Steps that read the state -/

theorem goes_position_bind {next : Nat → Parse β} :
    Goes s (position >>= next) fine = Goes s (next s.cursor.position) fine := rfl

theorem alike_position_bind {next nextOther : Nat → Parse β} :
    Alike s (position >>= next) (position >>= nextOther) fine =
      Alike s (next s.cursor.position) (nextOther s.cursor.position) fine := rfl

theorem alike_text_bind {next nextOther : Text → Parse β} :
    Alike s (text >>= next) (text >>= nextOther) fine =
      Alike s (next s.cursor.text) (nextOther s.cursor.text) fine := rfl

theorem alike_current_bind {next nextOther : Option Char → Parse β} :
    Alike s (current? >>= next) (current? >>= nextOther) fine =
      Alike s (next s.cursor.text[s.cursor.position]?) (nextOther s.cursor.text[s.cursor.position]?)
        fine := rfl

theorem alike_slice_bind {start stop : Nat} {next nextOther : String → Parse β} :
    Alike s (slice start stop >>= next) (slice start stop >>= nextOther) fine =
      Alike s (next (s.cursor.text.slice start stop)) (nextOther (s.cursor.text.slice start stop))
        fine := rfl

theorem alike_forest_bind {next nextOther : Forest → Parse β} :
    Alike s (forest >>= next) (forest >>= nextOther) fine =
      Alike s (next s.forest) (nextOther s.forest) fine := rfl

theorem alike_remaining_bind {next nextOther : Nat → Parse β} :
    Alike s (remaining >>= next) (remaining >>= nextOther) fine =
      Alike s (next s.cursor.remaining) (nextOther s.cursor.remaining) fine := rfl

theorem alike_get_bind {next nextOther : ParseState → Parse β} :
    Alike s (get >>= next) (get >>= nextOther) fine = Alike s (next s) (nextOther s) fine := rfl

/-! Loops -/

/-- Two loops do the same if their rounds do, as long as what follows them does so further on. What is
`fit` at a state has to be so further on, too. -/
theorem alike_loop (fit : ParseState → Prop) (loop loopOther : Nat → ι → Parse α)
    {ok : ParseState → α → ParseState → Prop} {round roundOther : (ι → Parse α) → ι → Parse α}
    (stays : ∀ {s t : ParseState}, s.Onward t → fit s → fit t)
    (base : ∀ i s, s.Within → Alike s (loop 0 i) (loopOther 0 i) (ok s))
    (unfolds : ∀ count, loop (count + 1) = round (loop count))
    (unfoldsOther : ∀ count, loopOther (count + 1) = roundOther (loopOther count))
    (rounds : ∀ again againOther i s, s.Within → fit s →
      (∀ j t, s.Beyond t → Alike t (again j) (againOther j) (ok t)) →
        Alike s (round again i) (roundOther againOther i) (ok s)) (count : Nat) :
    ∀ i s, s.Within → fit s → Alike s (loop count i) (loopOther count i) (ok s) := by
  induction count with
  | zero => exact fun i s within _ => base i s within
  | succ count ih =>
      intro i s within isFit
      rw [unfolds, unfoldsOther]
      exact rounds _ _ i s within isFit fun j t beyond =>
        ih j t beyond.within (stays beyond.toOnward isFit)

/-- Wherever the cursor is in the text, the step leads onward, to where `ok` holds. -/
def Onwards (ok : ParseState → α → ParseState → Prop) (again : ι → Parse α) : Prop :=
  ∀ i s, s.Within → Goes s (again i) (ok s)

/-- The loop goes round again only with the cursor further on; so it comes to an end within as many
rounds as there are characters left, and the recursion without a bound has one result. -/
structure Advances (ok : ParseState → α → ParseState → Prop) (loop : Nat → ι → Parse α)
    (round : (ι → Parse α) → ι → Parse α) : Prop where
  unfolds : ∀ count, loop (count + 1) = round (loop count)
  onwards : ∀ count, Onwards ok (loop count)
  /-- What the loop does when it goes round again matters only further on. -/
  further : ∀ again other i s, s.Within → Onwards ok again →
    (∀ j t, s.Beyond t → other j t = again j t) → round other i s = round again i s
  enough : ∀ i s count more, s.Within → s.cursor.remaining < count → s.cursor.remaining < more →
    loop more i s = loop count i s
  unbounded : ∃ whole : ι → Parse α,
    (∀ i s, s.Within → whole i s = round whole i s ∧
      ∀ count, s.cursor.remaining < count → loop count i s = whole i s) ∧
    ∀ other : ι → Parse α, (∀ i s, s.Within → other i s = round other i s) →
      ∀ i s, s.Within → other i s = whole i s

section Advancing

variable {ok : ParseState → α → ParseState → Prop} {loop : Nat → ι → Parse α}
  {round : (ι → Parse α) → ι → Parse α} (unfolds : ∀ count, loop (count + 1) = round (loop count))
  (onwards : ∀ count, Onwards ok (loop count))
  (further : ∀ again other i s, s.Within → Onwards ok again →
    (∀ j t, s.Beyond t → other j t = again j t) → round other i s = round again i s)

include unfolds onwards further

/-- Each round leaves less to do, so two bounds that both suffice give the same. -/
theorem loop_enough (count : Nat) : ∀ i s more, s.Within → s.cursor.remaining < count →
    s.cursor.remaining < more → loop more i s = loop count i s := by
  induction count with
  | zero => exact fun _ _ _ _ never => absurd never (Nat.not_lt_zero _)
  | succ count ih =>
      intro i s more within enough enoughMore
      obtain ⟨more, rfl⟩ := Nat.exists_eq_add_one_of_ne_zero (Nat.ne_zero_of_lt enoughMore)
      rw [unfolds, unfolds]
      apply further _ _ i s within (onwards count)
      intro j t beyond
      have fewer := beyond.remaining_lt
      exact ih j t more beyond.within (by omega) (by omega)

/-- The recursion without a bound, solved by the loop with a bound that suffices. -/
theorem exists_unbounded : ∃ whole : ι → Parse α,
    (∀ i s, s.Within → whole i s = round whole i s ∧
      ∀ count, s.cursor.remaining < count → loop count i s = whole i s) ∧
    ∀ other : ι → Parse α, (∀ i s, s.Within → other i s = round other i s) →
      ∀ i s, s.Within → other i s = whole i s := by
  let whole : ι → Parse α := fun i s => loop (s.cursor.remaining + 1) i s
  have same : ∀ i s count, s.Within → s.cursor.remaining < count → loop count i s = whole i s :=
    fun i s count within enough =>
      loop_enough unfolds onwards further _ i s count within (Nat.lt_succ_self _) enough
  have solves : ∀ i s, s.Within → whole i s = round whole i s := by
    intro i s within
    change loop (s.cursor.remaining + 1) i s = _
    rw [unfolds]
    refine (further _ _ i s within (onwards _) fun j t beyond => ?_).symm
    exact (same j t _ beyond.within beyond.remaining_lt).symm
  have onward : Onwards ok whole := fun i s => onwards _ i s
  refine ⟨whole, fun i s within => ⟨solves i s within, fun count => same i s count within⟩, ?_⟩
  intro other solvesOther i s within
  -- Both are unfolded once; what is left is at states with fewer characters.
  induction left : s.cursor.remaining using Nat.strongRecOn generalizing i s with
  | _ left ih =>
      rw [solvesOther i s within, solves i s within]
      apply further _ _ i s within onward
      intro j t beyond
      exact ih t.cursor.remaining (left ▸ beyond.remaining_lt) j t beyond.within rfl

end Advancing

/-- A loop advances if its rounds are alike whenever what follows them is alike further on. -/
theorem advances {ok : ParseState → α → ParseState → Prop} {loop : Nat → ι → Parse α}
    {round : (ι → Parse α) → ι → Parse α} (base : Onwards ok (loop 0))
    (unfolds : ∀ count, loop (count + 1) = round (loop count))
    (rounds : ∀ again other i s, s.Within →
      (∀ j t, s.Beyond t → Alike t (again j) (other j) (ok t)) →
        Alike s (round again i) (round other i) (ok s)) : Advances ok loop round := by
  have further : ∀ again other i s, s.Within → Onwards ok again →
      (∀ j t, s.Beyond t → other j t = again j t) → round other i s = round again i s :=
    fun again other i s within onwards same => (rounds again other i s within fun j t beyond =>
      ⟨same j t beyond, onwards j t beyond.within⟩).same
  have onwards : ∀ count, Onwards ok (loop count) := fun count i s within =>
    (alike_loop (fun _ => True) loop loop (fun _ => id) (fun i s within => (base i s within).alike) unfolds
      unfolds (fun again other i s within _ => rounds again other i s within) count i s within trivial).goes
  constructor
  · exact unfolds
  · exact onwards
  · exact further
  · exact fun i s count more => loop_enough unfolds onwards further count i s more
  · exact exists_unbounded unfolds onwards further

end Parse

end ExprLang
