import ExprLang.Proofs.Forest.Access
import ExprLang.Proofs.Parse.Extending

/-!
What a parse has written stays written. Faults are only appended, and an item keeps its place and
stays a token or none, whatever is attached to it later. So all that the result of a parse tells is
told of every state on the way to it.
-/

namespace ExprLang

/-- Faults and items of `s` are still there in `t`. -/
structure ParseState.Later (s t : ParseState) : Prop where
  faults : s.faults <+: t.faults
  items : ∀ id item, s.forest.get? id = some item → ∃ other, t.forest.get? id = some other ∧
    other.start = item.start ∧ other.length = item.length ∧ other.isToken = item.isToken

open ParseState (Later)

namespace ParseState.Later

variable {s t u : ParseState}

theorem refl (s : ParseState) : Later s s :=
  ⟨List.prefix_refl _, fun _ item found => ⟨item, found, rfl, rfl, rfl⟩⟩

theorem trans (first : Later s t) (second : Later t u) : Later s u where
  faults := first.faults.trans second.faults
  items id item found := by
    obtain ⟨other, foundOther, start, length, isToken⟩ := first.items id item found
    obtain ⟨last, foundLast, start', length', isToken'⟩ := second.items id other foundOther
    exact ⟨last, foundLast, start'.trans start, length'.trans length, isToken'.trans isToken⟩

theorem of_forest (faults : s.faults <+: t.faults) (forest : t.forest = s.forest) : Later s t :=
  ⟨faults, fun _ item found => ⟨item, forest ▸ found, rfl, rfl, rfl⟩⟩

theorem of_push {new : Item} (faults : t.faults = s.faults)
    (forest : t.forest = (s.forest.push new).2) : Later s t where
  faults := faults ▸ List.prefix_refl _
  items id item found := by
    refine ⟨item, ?_, rfl, rfl, rfl⟩
    rw [forest, Forest.get_push_old new (Forest.get_lt_size found)]
    exact found

/-- A change that leaves each item its place. -/
theorem of_modify {id : Nat} {change : Item → Item} (faults : t.faults = s.faults)
    (forest : t.forest = s.forest.modify id change)
    (keeps : ∀ item, s.forest.get? id = some item → (change item).start = item.start ∧
      (change item).length = item.length ∧ (change item).isToken = item.isToken) : Later s t where
  faults := faults ▸ List.prefix_refl _
  items other item found := by
    rw [forest, Forest.get_modify]
    by_cases here : id = other
    · subst here
      rw [if_pos rfl, found]
      exact ⟨change item, rfl, keeps item found⟩
    · rw [if_neg here]
      exact ⟨item, found, rfl, rfl, rfl⟩

end ParseState.Later

namespace Parse

variable {α β : Type}

/-- Whatever the state is, the step adds to it. -/
def Growing (step : Parse α) : Prop := ∀ s, Ends step s (fun _ t => Later s t) fun _ t => Later s t

variable {step : Parse α} {next : α → Parse β}

/-! The rules are for `simp`, which takes a step apart with them. -/

@[simp]
theorem growing_pure (value : α) : Growing (pure value : Parse α) := fun s => ends_pure (.refl s)

@[simp]
theorem growing_bind (first : Growing step) (rest : ∀ value, Growing (next value)) :
    Growing (step >>= next) := by
  intro s
  apply (first s).bind
  · intro value t grown
    exact (rest value t).imp (fun _ _ more => grown.trans more) fun _ _ more => grown.trans more
  · exact fun _ _ grown => grown

@[simp]
theorem growing_map {f : α → β} (first : Growing step) : Growing (f <$> step) := by
  rw [map_eq_pure_bind]
  exact growing_bind first fun _ => growing_pure _

@[simp]
theorem growing_ite {c : Prop} [Decidable c] {other : Parse α} (first : Growing step)
    (second : Growing other) : Growing (if c then step else other) := by
  split
  · exact first
  · exact second

@[simp]
theorem growing_forM {list : List α} {body : α → Parse Unit} (each : ∀ value, Growing (body value)) :
    Growing (list.forM body) := by
  induction list with
  | nil => exact growing_pure ()
  | cons value rest ih => exact growing_bind (each value) fun _ => ih

@[simp]
theorem growing_option_forM {value : Option α} {body : α → Parse Unit}
    (each : ∀ value, Growing (body value)) : Growing (value.forM body) := by
  cases value with
  | none => exact growing_pure ()
  | some value => exact each value

@[simp]
theorem growing_mapM {list : List α} {body : α → Parse β} (each : ∀ value, Growing (body value)) :
    Growing (list.mapM body) := by
  induction list with
  | nil => exact growing_pure []
  | cons value rest ih =>
      rw [List.mapM_cons]
      exact growing_bind (each value) fun _ => growing_bind ih fun _ => growing_pure _

@[simp]
theorem growing_foldlM {list : List α} {body : β → α → Parse β} {start : β}
    (each : ∀ before value, Growing (body before value)) : Growing (list.foldlM body start) := by
  induction list generalizing start with
  | nil => exact growing_pure start
  | cons value rest ih => exact growing_bind (each start value) fun _ => ih

/-! Single steps -/

theorem growing_of_read {f : ParseState → α} (reads : ∀ s, step s = .ok (f s) s) : Growing step :=
  fun s => ends_ok (reads s) (.refl s)

@[simp]
theorem growing_position : Growing position := growing_of_read fun _ => rfl

@[simp]
theorem growing_text : Growing text := growing_of_read fun _ => rfl

@[simp]
theorem growing_current : Growing current? := growing_of_read fun _ => rfl

@[simp]
theorem growing_slice (start stop : Nat) : Growing (slice start stop) := growing_of_read fun _ => rfl

@[simp]
theorem growing_forest : Growing forest := growing_of_read fun _ => rfl

@[simp]
theorem growing_remaining : Growing remaining := growing_of_read fun _ => rfl

@[simp]
theorem growing_get : Growing (get : Parse ParseState) := growing_of_read fun _ => rfl

@[simp]
theorem growing_moveTo (place : Nat) : Growing (moveTo place) := fun _ =>
  ends_ok rfl (.of_forest (List.prefix_refl _) rfl)

@[simp]
theorem growing_skip (count : Nat) : Growing (skip count) := fun _ =>
  ends_ok rfl (.of_forest (List.prefix_refl _) rfl)

@[simp]
theorem growing_addFault (fault : Fault) : Growing (addFault fault) := fun _ =>
  ends_ok rfl (.of_forest (List.prefix_append _ _) rfl)

@[simp]
theorem growing_report (start length : Nat) (cause : Fault.Cause) :
    Growing (report start length cause) := growing_addFault _

@[simp]
theorem growing_stop (start length : Nat) (cause : Fault.Cause) :
    Growing (stop start length cause : Parse α) := fun _ =>
  ends_error rfl (.of_forest (List.prefix_append _ _) rfl)

@[simp]
theorem growing_stuck (place : Nat) : Growing (stuck place : Parse α) := growing_stop _ _ _

@[simp]
theorem growing_createToken (kind : TokenKind) (word : String) (start : Nat) :
    Growing (createToken kind word start) := fun _ => ends_ok rfl (.of_push rfl rfl)

@[simp]
theorem growing_create (kind : ItemKind) (start : Nat) : Growing (create kind start) := fun _ =>
  ends_ok rfl (.of_push rfl rfl)

theorem later_link {s : ParseState} {owner item : Nat} {place : Section} {isChild : Bool} :
    Later s { s with forest := s.forest.link owner item place isChild } := by
  have first : Later s { s with
      forest := s.forest.modify item fun attached => { attached with parent := some owner } } :=
    .of_modify rfl rfl fun _ _ => ⟨rfl, rfl, rfl⟩
  exact first.trans (.of_modify rfl rfl fun _ _ => ⟨rfl, rfl, rfl⟩)

theorem growing_attach {owner item : Nat} {place : Section} {isChild : Bool} :
    Growing (attach (·.attach owner item place isChild)) := by
  intro s
  unfold attach attachOr
  simp only [ends_forest_bind]
  split
  · rename_i forest attached
    obtain ⟨rfl, _⟩ := Forest.attach_ok attached
    exact ends_ok rfl later_link
  · rename_i error _
    have stops : Growing (do
        stop (← position) 0 (.parserImplementation error.message) : Parse Unit) := by simp
    exact stops s

@[simp]
theorem growing_addPrefix (owner item : Nat) : Growing (addPrefix owner item) := growing_attach

@[simp]
theorem growing_addKeyword (owner item : Nat) : Growing (addKeyword owner item) := growing_attach

@[simp]
theorem growing_addPostfix (owner item : Nat) : Growing (addPostfix owner item) := growing_attach

@[simp]
theorem growing_addRegular (owner item : Nat) : Growing (addRegular owner item) := growing_attach

@[simp]
theorem growing_addChild (owner item : Nat) : Growing (addChild owner item) := growing_attach

theorem growing_changeKind (item : Nat) {change : ItemKind → ItemKind}
    (same : ∀ kind, (change kind).isToken = kind.isToken) : Growing (changeKind item change) := fun _ =>
  ends_ok rfl (.of_modify rfl rfl fun found _ => ⟨rfl, rfl, same found.kind⟩)

@[simp]
theorem growing_noteStatement (item statement : Nat) :
    Growing (changeKind item (noteStatement statement)) :=
  growing_changeKind _ fun kind => by cases kind <;> rfl

@[simp]
theorem growing_noteSeparator (item separator : Nat) :
    Growing (changeKind item (noteSeparator separator)) :=
  growing_changeKind _ fun kind => by cases kind <;> rfl

@[simp]
theorem growing_noteBlockEnd (item stop : Nat) : Growing (changeKind item (noteBlockEnd stop)) :=
  growing_changeKind _ fun kind => by cases kind <;> rfl

@[simp]
theorem growing_skipGap : Growing skipGap := by
  intro s
  unfold skipGap
  simp only [ends_get_bind]
  have moved : Later s { s with cursor := s.cursor.skipGap.1 } :=
    .of_forest (List.prefix_refl _) rfl
  have behind : ∀ {step : Parse Unit}, Growing step →
      Ends step { s with cursor := s.cursor.skipGap.1 } (fun _ => Later s) fun _ => Later s :=
    fun growing => (growing _).imp (fun _ _ more => moved.trans more) fun _ _ more => moved.trans more
  cases s.cursor.skipGap.2 with
  | none => exact behind (growing_pure ())
  | some start => exact behind (growing_ite (growing_pure ()) (growing_report _ _ _))

end Parse

end ExprLang
