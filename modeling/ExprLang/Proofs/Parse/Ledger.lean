import ExprLang.Proofs.Forest.Marks
import ExprLang.Proofs.Parse.Ends
import ExprLang.Proofs.Parse.Reading

/-!
Keeping accounts of what went wrong. A step appends marks to the forest and faults to the list, and
the two fit together: each construct that lacks something has its own fault and each such fault its
construct, and a series is made if and only if a fault tells why. A construct that is still open owes
its fault, so a step may also settle a debt.
-/

namespace ExprLang

theorem Flaw.not_degrades (flaw : Flaw) : flaw.code.degrades = false := by
  cases flaw <;> rfl

/-- Marks and faults that fit together. -/
structure Fair (marks : List Mark) (faults : Faults) : Prop where
  each : ∀ flaw : Flaw, marks.count (.lacks flaw) = faults.countP (·.code == flaw.code)
  series : Mark.series ∈ marks ↔ ∃ fault ∈ faults, fault.code.degrades = true

/-- A fault that has nothing to do with an item. -/
def Fault.Code.Neutral (code : Fault.Code) : Prop :=
  code.degrades = false ∧ ∀ flaw : Flaw, code ≠ flaw.code

namespace Fair

variable {marks more : List Mark} {faults others : Faults}

theorem nil : Fair [] [] := ⟨fun _ => rfl, by simp⟩

theorem append (left : Fair marks faults) (right : Fair more others) :
    Fair (marks ++ more) (faults ++ others) where
  each flaw := by rw [List.count_append, List.countP_append, left.each, right.each]
  series := by
    simp only [List.mem_append, or_and_right, exists_or]
    exact or_congr left.series right.series

theorem perm (fair : Fair marks faults) (same : marks.Perm more) : Fair more faults where
  each flaw := (same.count_eq _).symm.trans (fair.each flaw)
  series := same.mem_iff.symm.trans fair.series

theorem fault {fault : Fault} (neutral : fault.code.Neutral) : Fair [] [fault] where
  each flaw := by
    have other : (fault.code == flaw.code) = false := beq_eq_false_iff_ne.mpr (neutral.2 flaw)
    simp [other]
  series := by simp [neutral.1]

theorem flawed (flaw : Flaw) {fault : Fault} (same : fault.code = flaw.code) :
    Fair [.lacks flaw] [fault] where
  each other := by
    by_cases equal : flaw = other
    · subst equal
      simp [same]
    · have apart : (fault.code == other.code) = false :=
        beq_eq_false_iff_ne.mpr fun code => equal (Flaw.code_injective (same.symm.trans code))
      simp [apart, equal]
  series := by simp [same, flaw.not_degrades]

/-- Marks without a flaw. -/
theorem sound (all : ∀ mark ∈ marks, mark = .token ∨ mark = .whole) : Fair marks [] where
  each flaw := by
    rw [List.countP_nil, List.count_eq_zero]
    intro member
    rcases all _ member with same | same <;> cases same
  series := by
    have none : Mark.series ∉ marks := fun member => by
      rcases all _ member with same | same <;> cases same
    simp [none]

theorem token : Fair [.token] [] := sound (by simp)

theorem whole : Fair [.whole] [] := sound (by simp)

/-- Any number of series is explained by one fault, and any number of faults by one series. -/
theorem degraded (some : ∃ fault ∈ faults, fault.code.degrades = true)
    (all : ∀ fault ∈ faults, fault.code.degrades = true) : Fair [.series] faults where
  each flaw := by
    have none : faults.countP (·.code == flaw.code) = 0 := by
      refine List.countP_eq_zero.mpr fun fault member same => ?_
      have other := all fault member
      rw [eq_of_beq same, flaw.not_degrades] at other
      cases other
    simp [none]
  series := by simpa using some

theorem series_again (fair : Fair marks faults)
    (some : ∃ fault ∈ faults, fault.code.degrades = true) : Fair (marks ++ [.series]) faults where
  each flaw := by simp [fair.each flaw]
  series := by simp [some]

end Fair

/-! States -/

/-- What has been added since `s` fits together, with the debts of before. -/
def Settles (debts : List Mark) (s t : ParseState) : Prop :=
  ∃ marks faults, t.forest.marks = s.forest.marks ++ marks ∧ t.faults = s.faults ++ faults ∧
    Fair (debts ++ marks) faults

/-- A fault has been added that tells of a series. -/
def Marred (s t : ParseState) : Prop :=
  ∃ faults, t.faults = s.faults ++ faults ∧ ∃ fault ∈ faults, fault.code.degrades = true

variable {debts more : List Mark} {s t u : ParseState}

theorem settles_of_same (marks : t.forest.marks = s.forest.marks) (faults : t.faults = s.faults) :
    Settles [] s t :=
  ⟨[], [], by simp [marks], by simp [faults], Fair.nil⟩

theorem Settles.trans (left : Settles debts s t) (right : Settles more t u) :
    Settles (debts ++ more) s u := by
  obtain ⟨marks, faults, sameMarks, sameFaults, fair⟩ := left
  obtain ⟨newMarks, newFaults, sameNew, sameNewFaults, fairNew⟩ := right
  refine ⟨marks ++ newMarks, faults ++ newFaults, ?_, ?_, (fair.append fairNew).perm ?_⟩
  · rw [sameNew, sameMarks, List.append_assoc]
  · rw [sameNewFaults, sameFaults, List.append_assoc]
  · simp only [List.append_assoc]
    exact (List.perm_append_comm_assoc marks more newMarks).append_left debts

theorem Settles.logged (settles : Settles debts s t) : s.faults <+: t.faults := by
  obtain ⟨_, faults, _, same, _⟩ := settles
  exact ⟨faults, same.symm⟩

theorem Settles.takes {id : Nat} (settles : Settles debts s t) (takes : s.forest.Takes id) :
    t.forest.Takes id := by
  obtain ⟨_, _, grown, _, _⟩ := settles
  exact takes.mono grown

theorem Marred.stays (marred : Marred s t) (logged : t.faults <+: u.faults) : Marred s u := by
  obtain ⟨faults, same, fault, member, degrades⟩ := marred
  obtain ⟨others, rest⟩ := logged
  refine ⟨faults ++ others, by rw [← rest, same, List.append_assoc], fault, ?_, degrades⟩
  exact List.mem_append_left others member

theorem Marred.later (logged : s.faults <+: t.faults) (marred : Marred t u) : Marred s u := by
  obtain ⟨faults, same, fault, member, degrades⟩ := marred
  obtain ⟨others, rest⟩ := logged
  refine ⟨others ++ faults, by rw [same, ← rest, List.append_assoc], fault, ?_, degrades⟩
  exact List.mem_append_right others member

/-- What is made is owed until it is settled. -/
theorem Settles.made {made : List Mark} (marks : t.forest.marks = s.forest.marks ++ made)
    (faults : t.faults = s.faults) (settles : Settles made t u) : Settles [] s u := by
  obtain ⟨later, added, sameMarks, sameFaults, fair⟩ := settles
  exact ⟨made ++ later, added, by rw [sameMarks, marks, List.append_assoc], by rw [sameFaults, faults],
    fair⟩

/-- The mark that is owed is made. -/
theorem Settles.pay {mark : Mark} (settles : Settles [mark] s t)
    (marks : u.forest.marks = t.forest.marks ++ [mark]) (faults : u.faults = t.faults) :
    Settles [] s u := by
  obtain ⟨old, added, sameMarks, sameFaults, fair⟩ := settles
  refine ⟨old ++ [mark], added, ?_, faults.trans sameFaults, fair.perm List.perm_append_comm⟩
  rw [marks, sameMarks, List.append_assoc]

/-- A series more where there is a reason for one. -/
theorem Settles.series (settles : Settles [] s t) (marred : Marred s t)
    (marks : u.forest.marks = t.forest.marks ++ [.series]) (faults : u.faults = t.faults) :
    Settles [] s u := by
  obtain ⟨old, added, sameMarks, sameFaults, fair⟩ := settles
  obtain ⟨others, same, some⟩ := marred
  obtain rfl : added = others := List.append_cancel_left (sameFaults.symm.trans same)
  refine ⟨old ++ [.series], added, ?_, faults.trans sameFaults, ?_⟩
  · rw [marks, sameMarks, List.append_assoc]
  · exact fair.series_again some

/-! Steps -/

namespace Parse

variable {α β : Type} {P : α → ParseState → Prop} {Q : β → ParseState → Prop}

/-- From any state the step keeps its accounts as long as it gives a value, of which `result` holds. -/
def Accounted (result : α → ParseState → Prop) (step : Parse α) : Prop :=
  ∀ s, Ends step s (fun value t => result value t ∧ Settles [] s t) (fun _ _ => True)

/-- What follows a step is judged from where it ends. -/
theorem ends_settled {step : Parse α} {next : α → Parse β} {debts : β → List Mark}
    (first : Ends step s (fun value t => P value t ∧ Settles [] s t) (fun _ _ => True))
    (rest : ∀ value t, P value t → Settles [] s t →
      Ends (next value) t (fun result u => Q result u ∧ Settles (debts result) t u)
        (fun _ _ => True)) :
    Ends (step >>= next) s (fun result u => Q result u ∧ Settles (debts result) s u)
      (fun _ _ => True) := by
  refine first.bind ?_ fun _ _ stopped => stopped
  rintro value t ⟨known, settles⟩
  refine (rest value t known settles).imp ?_ fun _ _ stopped => stopped
  rintro result u ⟨good, later⟩
  exact ⟨good, settles.trans later⟩

theorem accounted_bind {step : Parse α} {next : α → Parse β} (first : Accounted P step)
    (rest : ∀ value, Accounted Q (next value)) : Accounted Q (step >>= next) := fun s =>
  ends_settled (first s) fun value t _ _ => rest value t

theorem accounted_pure {value : α} (known : ∀ s, P value s) : Accounted P (pure value : Parse α) :=
  fun s => ends_pure ⟨known s, settles_of_same rfl rfl⟩

theorem Accounted.imp {P' : α → ParseState → Prop} {step : Parse α} (accounted : Accounted P step)
    (weaker : ∀ value s, P value s → P' value s) : Accounted P' step := fun s =>
  (accounted s).imp (fun value t both => ⟨weaker value t both.1, both.2⟩) fun _ _ stopped => stopped

/-- A step that leaves forest and faults alone. -/
theorem accounted_quiet {step : Parse α}
    (quiet : ∀ s, ∃ value t, step s = .ok value t ∧ t.forest = s.forest ∧ t.faults = s.faults) :
    Accounted (fun _ _ => True) step := by
  intro s
  obtain ⟨value, t, run, forest, faults⟩ := quiet s
  exact ends_ok run ⟨trivial, settles_of_same (by rw [forest]) faults⟩

theorem accounted_forM {items : List β} {step : β → Parse Unit}
    (each : ∀ item, Accounted (fun _ _ => True) (step item)) :
    Accounted (fun _ _ => True) (items.forM step) := by
  induction items with
  | nil => exact accounted_pure fun _ => trivial
  | cons item rest ih => exact accounted_bind (each item) fun _ => ih

theorem accounted_optionForM {found : Option β} {step : β → Parse Unit}
    (each : ∀ item, Accounted (fun _ _ => True) (step item)) :
    Accounted (fun _ _ => True) (found.forM step) := by
  cases found with
  | none => exact accounted_pure fun _ => trivial
  | some item => exact each item

theorem accounted_mapM {γ : Type} {step : β → Parse γ}
    (each : ∀ item, Accounted (fun _ _ => True) (step item)) (items : List β) :
    Accounted (fun values _ => values.length = items.length) (items.mapM step) := by
  induction items with
  | nil =>
      rw [List.mapM_nil]
      exact accounted_pure fun _ => rfl
  | cons item rest ih =>
      rw [List.mapM_cons]
      refine accounted_bind (each item) fun value s => ?_
      refine ends_settled (ih s) fun values t same _ => ?_
      exact ends_pure ⟨congrArg (· + 1) same, settles_of_same rfl rfl⟩

theorem accounted_foldlM {γ : Type} {step : γ → β → Parse γ}
    (each : ∀ value item, Accounted (fun _ _ => True) (step value item)) {items : List β}
    {value : γ} : Accounted (fun _ _ => True) (items.foldlM step value) := by
  induction items generalizing value with
  | nil => exact accounted_pure fun _ => trivial
  | cons item rest ih =>
      rw [List.foldlM_cons]
      exact accounted_bind (each value item) fun _ => ih

end Parse

end ExprLang
