import ExprLang.Fault
import ExprLang.Proofs.Forest.Links

/-!
What an item says about its construct: whether something is missing from it, and whether it is a series
of what could not be combined. A forest is read as the row of these marks in the order in which its
items were made. Making an item appends a mark and linking leaves the row alone.
-/

namespace ExprLang

/-- What a construct can lack at its end. -/
inductive Flaw where
  | brace
  | blockEnd
  | quote
  deriving DecidableEq, Repr

/-- How the lack is reported. -/
def Flaw.code : Flaw → Fault.Code
  | brace => .closingBraceMissing
  | blockEnd => .codeBlockEndMarkerMissing
  | quote => .constantTextNotClosed

theorem Flaw.code_injective {flaw other : Flaw} (same : flaw.code = other.code) : flaw = other := by
  cases flaw <;> cases other <;> first | rfl | cases same

inductive Mark where
  | token
  | custom
  | series
  | lacks (flaw : Flaw)
  | whole
  deriving DecidableEq, Repr

def ItemKind.mark : ItemKind → Mark
  | .token .. => .token
  | .custom .. => .custom
  | .series => .series
  | .braces _ _ _ none _ => .lacks .brace
  | .codeBlock _ none _ => .lacks .blockEnd
  | .constantText _ _ _ false => .lacks .quote
  | _ => .whole

namespace Forest

variable {forest : Forest} {id owner item : Nat}

def marks (forest : Forest) : List Mark := forest.items.toList.map (·.kind.mark)

@[simp]
theorem length_marks (forest : Forest) : forest.marks.length = forest.size := by
  simp [marks, size]

theorem getElem_marks (forest : Forest) (id : Nat) :
    forest.marks[id]? = (forest.kind? id).map ItemKind.mark := by
  simp [marks, kind?, get?, Function.comp_def]

/-- The row of marks is known by its length and its members. -/
theorem marks_ext {before after : Forest}
    (same : ∀ id, (after.kind? id).map ItemKind.mark = (before.kind? id).map ItemKind.mark) :
    after.marks = before.marks :=
  List.ext_getElem? fun id => by rw [getElem_marks, getElem_marks, same]

@[simp]
theorem marks_push (forest : Forest) (item : Item) :
    (forest.push item).2.marks = forest.marks ++ [item.kind.mark] := by
  simp [marks, push]

@[simp]
theorem marks_createToken (forest : Forest) (kind : TokenKind) (text : String) (start : Nat) :
    (forest.createToken kind text start).2.marks = forest.marks ++ [.token] :=
  marks_push forest _

@[simp]
theorem marks_create (forest : Forest) (kind : ItemKind) (start : Nat) :
    (forest.create kind start).2.marks = forest.marks ++ [kind.mark] :=
  marks_push forest _

@[simp]
theorem marks_link (forest : Forest) (owner item : Nat) (place : Section) (isChild : Bool) :
    (forest.link owner item place isChild).marks = forest.marks :=
  marks_ext fun _ => by rw [kind_link]

theorem marks_changeKind {change : ItemKind → ItemKind}
    (same : ∀ kind, (change kind).mark = kind.mark) :
    (forest.modify id fun item => { item with kind := change item.kind }).marks = forest.marks := by
  refine marks_ext fun other => ?_
  simp only [kind?, get_modify]
  split <;> simp [Function.comp_def, same]

/-- An item whose mark is changed. -/
theorem marks_changeKind_set {change : ItemKind → ItemKind} {mark : Mark}
    (known : ∀ kind, forest.kind? id = some kind → (change kind).mark = mark) :
    (forest.modify id fun item => { item with kind := change item.kind }).marks =
      forest.marks.set id mark := by
  refine List.ext_getElem? fun other => ?_
  rw [getElem_marks, List.getElem?_set, getElem_marks, length_marks]
  simp only [kind?, get_modify]
  by_cases same : id = other
  · subst same
    cases found : forest.get? id with
    | none =>
        have outside : ¬ id < forest.size := fun inside => by
          obtain ⟨_, there⟩ := get_of_lt inside
          exact absurd (found.symm.trans there) (by rintro ⟨⟩)
        simp [outside]
    | some item => simp [get_lt_size found, known item.kind (kind_of_get found)]
  · simp [same]

theorem marks_setKind (forest : Forest) (id : Nat) (kind : ItemKind) :
    (forest.setKind id kind).marks = forest.marks.set id kind.mark :=
  @marks_changeKind_set forest id (fun _ => kind) kind.mark fun _ _ => rfl

theorem marks_truncate {count : Nat} : (forest.truncate count).marks = forest.marks.take count := by
  by_cases cut : count < forest.size
  · refine List.ext_getElem? fun id => ?_
    rw [getElem_marks, List.getElem?_take, getElem_marks]
    by_cases inside : id < count
    · simp [kind?, get_truncate inside cut, inside, Function.comp_def]
    · have outside : (forest.truncate count).get? id = none := by
        have size := size_truncate (Nat.le_of_lt cut)
        cases found : (forest.truncate count).get? id with
        | none => rfl
        | some item => exact absurd (get_lt_size found) (by omega)
      simp [kind?, outside, inside]
  · rw [truncate_of_le (by omega), List.take_of_length_le]
    rw [length_marks]
    omega

/-- Whether something is missing at the end of the construct. -/
def lacks (forest : Forest) (flaw : Flaw) (id : Nat) : Bool :=
  (forest.kind? id).any (·.mark == .lacks flaw)

/-- The marks are counted over the numbers of the items. -/
theorem count_marks (forest : Forest) (mark : Mark) :
    forest.marks.count mark =
      (List.range forest.size).countP fun id => (forest.kind? id).any (·.mark == mark) := by
  have listed : forest.marks = (List.range forest.size).map
      fun id => ((forest.kind? id).map ItemKind.mark).getD .whole := by
    refine List.ext_getElem (by simp) fun id inMarks inRange => ?_
    have here := getElem_marks forest id
    rw [List.getElem?_eq_getElem inMarks] at here
    simp [← here]
  rw [listed, List.count_eq_countP, List.countP_map]
  refine List.countP_congr fun id member => ?_
  obtain ⟨item, found⟩ := get_of_lt (List.mem_range.mp member)
  simp [kind_of_get found]

theorem series_mem_marks : Mark.series ∈ forest.marks ↔
    ∃ id < forest.size, forest.kind? id = some .series := by
  rw [List.mem_iff_getElem?]
  constructor
  · rintro ⟨id, found⟩
    rw [getElem_marks] at found
    obtain ⟨kind, isKind, mark⟩ := Option.map_eq_some_iff.mp found
    obtain rfl : kind = .series := by
      rcases kind with _ | _ | _ | ⟨_, _, _, _ | _⟩ | ⟨_, _, _, _ | _, _⟩ | ⟨_, _ | _, _⟩ | _ | _ | _ | _ | _ <;>
        first | rfl | cases mark
    obtain ⟨item, here, _⟩ := Option.map_eq_some_iff.mp isKind
    exact ⟨id, get_lt_size here, isKind⟩
  · rintro ⟨id, _, isSeries⟩
    exact ⟨id, by rw [getElem_marks, isSeries]; rfl⟩

/-- An item that can take postfixes. -/
def Takes (forest : Forest) (id : Nat) : Prop :=
  ∃ mark, forest.marks[id]? = some mark ∧ mark ≠ .token ∧ mark ≠ .custom

theorem acceptsPostfix_of_takes (takes : forest.Takes id) (postfixed : ItemId) :
    forest.acceptsPostfix id postfixed = true := by
  obtain ⟨mark, found, notToken, notCustom⟩ := takes
  rw [getElem_marks] at found
  obtain ⟨kind, isKind, rfl⟩ := Option.map_eq_some_iff.mp found
  unfold acceptsPostfix
  rw [isKind]
  cases kind <;> first | rfl | exact absurd rfl notToken | exact absurd rfl notCustom

/-- New items come behind the old ones. -/
theorem Takes.mono {after : Forest} {marks : List Mark} (takes : forest.Takes id)
    (grown : after.marks = forest.marks ++ marks) : after.Takes id := by
  obtain ⟨mark, found, notToken, notCustom⟩ := takes
  refine ⟨mark, ?_, notToken, notCustom⟩
  rw [grown, List.getElem?_append_left (List.getElem?_eq_some_iff.mp found).1]
  exact found

theorem takes_new {after : Forest} {mark : Mark} {marks : List Mark}
    (grown : after.marks = forest.marks ++ mark :: marks) (notToken : mark ≠ .token)
    (notCustom : mark ≠ .custom) : after.Takes forest.size := by
  refine ⟨mark, ?_, notToken, notCustom⟩
  rw [grown, ← length_marks, List.getElem?_append_right (Nat.le_refl _), Nat.sub_self]
  rfl

end Forest

end ExprLang
