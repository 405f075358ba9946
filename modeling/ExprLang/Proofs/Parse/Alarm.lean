import ExprLang.Proofs.Comments
import ExprLang.Proofs.Forest.Floor
import ExprLang.Proofs.Parse.Ends

/-!
Critical faults and where they come from. A step of the parser that gives a value has only recorded
faults that it recovered from, and a step that stops has recorded a critical one; neither takes a
fault back that stood in the list before. An extension may do as it likes in between: it can only
add to the list, and the parser compares the counts when the extension is done.

Together with the faults the same rules follow what a step leaves alone: with all owners from some
floor on, the parts and kinds of the items below it stay as they are.
-/

namespace ExprLang

open Forest (Floor Untouched Closed)

variable {floor : Nat} {α β : Type}

/-! Lists of faults -/

/-- Only faults that the parser recovers from have been added. -/
def Calm (s t : ParseState) : Prop :=
  ∃ added, t.faults = s.faults ++ added ∧ ∀ fault ∈ added, fault.critical = false

/-- A critical fault has been added. -/
def Alarmed (s t : ParseState) : Prop :=
  ∃ added, t.faults = s.faults ++ added ∧ ∃ fault ∈ added, fault.critical = true

theorem calm_of_eq {s t : ParseState} (same : t.faults = s.faults) : Calm s t :=
  ⟨[], by simp [same], by simp⟩

theorem Calm.trans {s t u : ParseState} (left : Calm s t) (right : Calm t u) : Calm s u := by
  obtain ⟨first, eqFirst, calmFirst⟩ := left
  obtain ⟨second, eqSecond, calmSecond⟩ := right
  refine ⟨first ++ second, by rw [eqSecond, eqFirst, List.append_assoc], ?_⟩
  intro fault member
  rcases List.mem_append.mp member with inFirst | inSecond
  · exact calmFirst fault inFirst
  · exact calmSecond fault inSecond

theorem Calm.alarmed {s t u : ParseState} (left : Calm s t) (right : Alarmed t u) : Alarmed s u := by
  obtain ⟨first, eqFirst, _⟩ := left
  obtain ⟨second, eqSecond, fault, member, critical⟩ := right
  refine ⟨first ++ second, by rw [eqSecond, eqFirst, List.append_assoc], fault, ?_, critical⟩
  exact List.mem_append_right first member

theorem Calm.logged {s t : ParseState} (calm : Calm s t) : s.faults <+: t.faults := by
  obtain ⟨added, eq, _⟩ := calm
  exact ⟨added, eq.symm⟩

theorem Alarmed.logged {s t : ParseState} (alarmed : Alarmed s t) : s.faults <+: t.faults := by
  obtain ⟨added, eq, _⟩ := alarmed
  exact ⟨added, eq.symm⟩

theorem alarmed_of_logged {s t u : ParseState} (logged : s.faults <+: t.faults)
    (alarmed : Alarmed t u) : Alarmed s u := by
  obtain ⟨first, eqFirst⟩ := logged
  obtain ⟨second, eqSecond, fault, member, critical⟩ := alarmed
  refine ⟨first ++ second, by rw [eqSecond, ← eqFirst, List.append_assoc], fault, ?_, critical⟩
  exact List.mem_append_right first member

theorem Alarmed.stays {s t u : ParseState} (alarmed : Alarmed s t)
    (logged : t.faults <+: u.faults) : Alarmed s u := by
  obtain ⟨first, eqFirst, fault, member, critical⟩ := alarmed
  obtain ⟨second, eqSecond⟩ := logged
  refine ⟨first ++ second, by rw [← eqSecond, eqFirst, List.append_assoc], fault, ?_, critical⟩
  exact List.mem_append_left second member

theorem Calm.criticalCount {s t : ParseState} (calm : Calm s t) :
    t.faults.criticalCount = s.faults.criticalCount := by
  obtain ⟨added, eq, calmAdded⟩ := calm
  have none : added.countP (·.critical) = 0 :=
    List.countP_eq_zero.mpr fun fault member => by simp [calmAdded fault member]
  simp [Faults.criticalCount, eq, List.countP_append, none]

/-- Whether something critical was added shows in the counts. -/
theorem alarmed_of_count {s t : ParseState} (logged : s.faults <+: t.faults)
    (more : s.faults.criticalCount < t.faults.criticalCount) : Alarmed s t := by
  obtain ⟨added, eq⟩ := logged
  refine ⟨added, eq.symm, ?_⟩
  rw [← eq] at more
  simp only [Faults.criticalCount, List.countP_append] at more
  have some : 0 < added.countP (·.critical) := by omega
  exact List.countP_pos_iff.mp some

theorem calm_of_count {s t : ParseState} (logged : s.faults <+: t.faults)
    (same : ¬ s.faults.criticalCount < t.faults.criticalCount) : Calm s t := by
  obtain ⟨added, eq⟩ := logged
  refine ⟨added, eq.symm, ?_⟩
  intro fault member
  rw [← eq] at same
  simp only [Faults.criticalCount, List.countP_append] at same
  have none : added.countP (·.critical) = 0 := by omega
  simpa using List.countP_eq_zero.mp none fault member

/-! Steps above a floor -/

/-- Where a step leads: the floor still holds, what lies below is as it was, and so is the text. -/
structure Above (floor : Nat) (s t : ParseState) : Prop where
  holds : Floor floor t.forest
  untouched : Untouched floor s.forest t.forest
  closed : Closed s.forest → Closed t.forest
  text : t.cursor.text = s.cursor.text
  markers : t.cursor.markers = s.cursor.markers
  inside : s.cursor.position ≤ s.cursor.text.size → t.cursor.position ≤ t.cursor.text.size
  heard : s.cursor.Hears t.cursor

theorem Above.trans {s t u : ParseState} (left : Above floor s t) (right : Above floor t u) :
    Above floor s u where
  holds := right.holds
  untouched := left.untouched.trans right.untouched
  closed closed := right.closed (left.closed closed)
  text := right.text.trans left.text
  markers := right.markers.trans left.markers
  inside := right.inside ∘ left.inside
  heard := left.heard.trans right.heard

/-- A step that makes and attaches nothing. -/
theorem above_of_heard {s t : ParseState} (holds : Floor floor s.forest) (same : t.forest = s.forest)
    (text : t.cursor.text = s.cursor.text) (markers : t.cursor.markers = s.cursor.markers)
    (inside : s.cursor.position ≤ s.cursor.text.size → t.cursor.position ≤ t.cursor.text.size)
    (heard : s.cursor.Hears t.cursor) : Above floor s t := by
  refine ⟨by rwa [same], ?_, ?_, text, markers, inside, heard⟩
  · rw [same]
    exact Forest.untouched_refl floor s.forest
  · rw [same]
    exact id

/-- A step that leaves the cursor where it is, too. -/
theorem above_of_eq {s t : ParseState} (holds : Floor floor s.forest) (same : t.forest = s.forest)
    (cursor : t.cursor = s.cursor) : Above floor s t :=
  above_of_heard holds same (by rw [cursor]) (by rw [cursor]) (by rw [cursor]; exact id)
    (by rw [cursor]; exact .refl _)

/-- A step on the forest alone. -/
theorem above_of_forest {s : ParseState} {forest : Forest} (holds : Floor floor forest)
    (untouched : Untouched floor s.forest forest) (closed : Closed s.forest → Closed forest) :
    Above floor s { s with forest } :=
  ⟨holds, untouched, closed, rfl, rfl, id, .refl _⟩

/-- From any state over the floor the step works above it, and it stops if and only if it has
recorded a critical fault; `result` holds of its value. -/
def Contained (floor : Nat) (result : α → Prop) (step : Parse α) : Prop :=
  ∀ s, Floor floor s.forest → Ends step s
    (fun value t => result value ∧ Above floor s t ∧ Calm s t)
    (fun _ t => Above floor s t ∧ Alarmed s t)

/-- The step of an extension also works above the floor, but it may record what it likes. -/
def Wild (floor : Nat) {ε : Type} (step : EStateM ε ParseState α) : Prop :=
  ∀ s, Floor floor s.forest → Ends step s
    (fun _ t => Above floor s t ∧ s.faults <+: t.faults)
    (fun _ t => Above floor s t ∧ s.faults <+: t.faults)

/-- Where a step leads, seen from a state before it. -/
theorem Contained.after {P : α → Prop} {step : Parse α} {s t : ParseState}
    (contained : Contained floor P step) (above : Above floor s t) (calm : Calm s t) :
    Ends step t (fun value u => P value ∧ Above floor s u ∧ Calm s u)
      (fun _ u => Above floor s u ∧ Alarmed s u) := by
  refine (contained t above.holds).imp ?_ ?_
  · rintro value u ⟨known, aboveLast, calmLast⟩
    exact ⟨known, above.trans aboveLast, calm.trans calmLast⟩
  · rintro _ u ⟨aboveLast, alarmed⟩
    exact ⟨above.trans aboveLast, calm.alarmed alarmed⟩

theorem contained_bind {P : α → Prop} {Q : β → Prop} {step : Parse α} {next : α → Parse β}
    (first : Contained floor P step)
    (rest : ∀ value, P value → Contained floor Q (next value)) :
    Contained floor Q (step >>= next) := by
  intro s holds
  refine Ends.bind (first s holds) ?_ (fun _ _ stopped => stopped)
  rintro value t ⟨known, above, calm⟩
  exact (rest value known).after above calm

theorem Contained.imp {P Q : α → Prop} {step : Parse α} (contained : Contained floor P step)
    (weaker : ∀ value, P value → Q value) : Contained floor Q step := by
  intro s holds
  refine (contained s holds).imp ?_ (fun _ _ stopped => stopped)
  rintro value t ⟨known, rest⟩
  exact ⟨weaker value known, rest⟩

theorem contained_pure {P : α → Prop} {value : α} (known : P value) :
    Contained floor P (pure value : Parse α) :=
  fun _ holds => ⟨known, above_of_eq holds rfl rfl, calm_of_eq rfl⟩

/-- A step that does no more than to move the cursor. -/
theorem contained_quiet {P : α → Prop} {step : Parse α}
    (quiet : ∀ s, ∃ value place, step s = .ok value { s with cursor.position := place } ∧ P value ∧
      (s.cursor.position ≤ s.cursor.text.size → place ≤ s.cursor.text.size)) :
    Contained floor P step := by
  intro s holds
  obtain ⟨value, place, run, known, inside⟩ := quiet s
  exact ends_ok run ⟨known, above_of_heard holds rfl rfl rfl inside (Cursor.hears_of_same rfl rfl rfl),
    calm_of_eq rfl⟩

theorem contained_forM {items : List β} {step : β → Parse Unit}
    (each : ∀ item ∈ items, Contained floor (fun _ => True) (step item)) :
    Contained floor (fun _ => True) (items.forM step) := by
  induction items with
  | nil => exact contained_pure trivial
  | cons item rest ih =>
      exact contained_bind (each item List.mem_cons_self) fun _ _ =>
        ih fun other member => each other (List.mem_cons_of_mem item member)

theorem contained_optionForM {found : Option β} {step : β → Parse Unit}
    (each : ∀ item, Contained floor (fun _ => True) (step item)) :
    Contained floor (fun _ => True) (found.forM step) := by
  cases found with
  | none => exact contained_pure trivial
  | some item => exact each item

theorem contained_mapM {γ : Type} {P : β → Prop} {Q : γ → Prop} {step : β → Parse γ}
    (each : ∀ item, P item → Contained floor Q (step item)) {items : List β}
    (all : ∀ item ∈ items, P item) :
    Contained floor (fun values => ∀ value ∈ values, Q value) (items.mapM step) := by
  induction items with
  | nil =>
      rw [List.mapM_nil]
      exact contained_pure (by simp)
  | cons item rest ih =>
      rw [List.mapM_cons]
      refine contained_bind (each item (all item List.mem_cons_self)) fun value good => ?_
      refine contained_bind (ih fun other member => all other (List.mem_cons_of_mem item member)) ?_
      exact fun values goods => contained_pure (by simpa using ⟨good, goods⟩)

theorem contained_foldlM {γ : Type} {P : γ → Prop} {step : γ → β → Parse γ}
    (each : ∀ value item, P value → Contained floor P (step value item)) {items : List β}
    {value : γ} (start : P value) : Contained floor P (items.foldlM step value) := by
  induction items generalizing value with
  | nil => exact contained_pure start
  | cons item rest ih =>
      rw [List.foldlM_cons]
      exact contained_bind (each value item start) fun next good => ih good

end ExprLang
