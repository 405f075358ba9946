import ExprLang.Proofs.Written
import ExprLang.Proofs.Parse.Ends

/-!
Where the cursor goes. Making and attaching items leaves it where it is; whatever reads the text moves
it onward in the same text, and not behind its end.
-/

namespace ExprLang

variable {α β : Type}

namespace ParseState

variable {s t u : ParseState}

def Within (s : ParseState) : Prop := s.cursor.position ≤ s.cursor.text.size

/-- The cursor is in the same text as before, at the same place or further on. -/
structure Onward (s t : ParseState) : Prop where
  text : t.cursor.text = s.cursor.text
  further : s.cursor.position ≤ t.cursor.position
  within : t.Within

/-- The cursor is further on. -/
structure Beyond (s t : ParseState) : Prop extends Onward s t where
  beyond : s.cursor.position < t.cursor.position

theorem Within.refl (within : s.Within) : s.Onward s := ⟨rfl, Nat.le_refl _, within⟩

theorem Onward.trans (first : s.Onward t) (second : t.Onward u) : s.Onward u where
  text := second.text.trans first.text
  further := Nat.le_trans first.further second.further
  within := second.within

theorem Onward.trans_beyond (first : s.Onward t) (second : t.Beyond u) : s.Beyond u :=
  ⟨first.trans second.toOnward, Nat.lt_of_le_of_lt first.further second.beyond⟩

theorem Beyond.trans_onward (first : s.Beyond t) (second : t.Onward u) : s.Beyond u :=
  ⟨first.toOnward.trans second, Nat.lt_of_lt_of_le first.beyond second.further⟩

/-- Further on there is less left. -/
theorem Beyond.remaining_lt (further : s.Beyond t) : t.cursor.remaining < s.cursor.remaining := by
  have within : t.cursor.position ≤ t.cursor.text.size := further.within
  have text := congrArg Array.size further.text
  have beyond := further.beyond
  unfold Cursor.remaining
  omega

theorem onward_of_cursor (within : s.Within) (same : t.cursor = s.cursor) : s.Onward t where
  text := congrArg Cursor.text same
  further := Nat.le_of_eq (congrArg Cursor.position same.symm)
  within := by rwa [Within, same]

theorem onward_moveTo (within : s.Within) {place : Nat} (further : s.cursor.position ≤ place) :
    s.Onward { s with cursor := s.cursor.moveTo place } :=
  ⟨rfl, Nat.le_min.mpr ⟨further, within⟩, Nat.min_le_right _ _⟩

/-- Inside the text the cursor can move. -/
theorem beyond_moveTo (inside : s.cursor.position < s.cursor.text.size) {place : Nat}
    (further : s.cursor.position < place) : s.Beyond { s with cursor := s.cursor.moveTo place } :=
  ⟨onward_moveTo (Nat.le_of_lt inside) (Nat.le_of_lt further), Nat.lt_min.mpr ⟨further, inside⟩⟩

end ParseState

open ParseState (Within Onward Beyond)

namespace Parse

/-! Steps that leave the cursor alone -/

/-- Whatever the state is, the cursor stays. -/
def Resting (step : Parse α) : Prop :=
  ∀ s, Ends step s (fun _ t => t.cursor = s.cursor) fun _ t => t.cursor = s.cursor

variable {step : Parse α} {next : α → Parse β}

/-! The rules are for `simp`, which takes a step apart with them. -/

@[simp]
theorem resting_pure (value : α) : Resting (pure value : Parse α) := fun _ => ends_pure rfl

@[simp]
theorem resting_bind (first : Resting step) (rest : ∀ value, Resting (next value)) : Resting (step >>= next) := by
  intro s
  apply (first s).bind
  · intro value t same
    exact (rest value t).imp (fun _ _ more => more.trans same) fun _ _ more => more.trans same
  · exact fun _ _ same => same

@[simp]
theorem resting_map {f : α → β} (first : Resting step) : Resting (f <$> step) := by
  rw [map_eq_pure_bind]
  exact resting_bind first fun _ => resting_pure _

@[simp]
theorem resting_ite {c : Prop} [Decidable c] {other : Parse α} (first : Resting step)
    (second : Resting other) : Resting (if c then step else other) := by
  split
  · exact first
  · exact second

@[simp]
theorem resting_forM {list : List α} {body : α → Parse Unit} (each : ∀ value, Resting (body value)) :
    Resting (forM list body) := by
  induction list with
  | nil => exact resting_pure ()
  | cons value rest ih => exact resting_bind (each value) fun _ => ih

@[simp]
theorem resting_option_forM {value : Option α} {body : α → Parse Unit}
    (each : ∀ value, Resting (body value)) : Resting (forM value body) := by
  cases value with
  | none => exact resting_pure ()
  | some value => exact each value

@[simp]
theorem resting_mapM {list : List α} {body : α → Parse β} (each : ∀ value, Resting (body value)) :
    Resting (list.mapM body) := by
  induction list with
  | nil => exact resting_pure []
  | cons value rest ih =>
      rw [List.mapM_cons]
      exact resting_bind (each value) fun _ => resting_bind ih fun _ => resting_pure _

@[simp]
theorem resting_foldlM {list : List α} {body : β → α → Parse β} {start : β}
    (each : ∀ before value, Resting (body before value)) : Resting (list.foldlM body start) := by
  induction list generalizing start with
  | nil => exact resting_pure start
  | cons value rest ih => exact resting_bind (each start value) fun _ => ih

@[simp]
theorem resting_position : Resting position := fun _ => ends_ok rfl rfl

@[simp]
theorem resting_forest : Resting forest := fun _ => ends_ok rfl rfl

@[simp]
theorem resting_slice (start stop : Nat) : Resting (slice start stop) := fun _ => ends_ok rfl rfl

@[simp]
theorem resting_addFault (fault : Fault) : Resting (addFault fault) := fun _ => ends_ok rfl rfl

@[simp]
theorem resting_report (start length : Nat) (cause : Fault.Cause) : Resting (report start length cause) :=
  resting_addFault _

@[simp]
theorem resting_stop (start length : Nat) (cause : Fault.Cause) :
    Resting (stop start length cause : Parse α) := fun _ => ends_error rfl rfl

@[simp]
theorem resting_stuck (place : Nat) : Resting (stuck place : Parse α) := resting_stop _ _ _

@[simp]
theorem resting_createToken (kind : TokenKind) (word : String) (start : Nat) :
    Resting (createToken kind word start) := fun _ => ends_ok rfl rfl

@[simp]
theorem resting_create (kind : ItemKind) (start : Nat) : Resting (create kind start) := fun _ =>
  ends_ok rfl rfl

@[simp]
theorem resting_changeForest (change : Forest → Forest) : Resting (changeForest change) := fun _ =>
  ends_ok rfl rfl

theorem resting_attach (change : Forest → Except AttachError Forest) : Resting (attach change) := by
  intro s
  unfold attach attachOr
  rw [ends_forest_bind]
  cases change s.forest with
  | ok forest => exact ends_ok rfl rfl
  | error error => exact resting_bind resting_position (fun _ => resting_stop _ _ _) s

@[simp]
theorem resting_addPrefix (owner item : ItemId) : Resting (addPrefix owner item) := resting_attach _

@[simp]
theorem resting_addKeyword (owner item : ItemId) : Resting (addKeyword owner item) := resting_attach _

@[simp]
theorem resting_addPostfix (owner item : ItemId) : Resting (addPostfix owner item) := resting_attach _

@[simp]
theorem resting_addRegular (owner item : ItemId) : Resting (addRegular owner item) := resting_attach _

@[simp]
theorem resting_addChild (owner item : ItemId) : Resting (addChild owner item) := resting_attach _

/-! What is put together from them -/

theorem resting_createLeaf (kind : ItemKind) (token : TokenKind) (text : String) (start : Nat) :
    Resting (createLeaf kind token text start) := by
  refine resting_bind (resting_create _ _) fun item => resting_bind (resting_createToken _ _ _) fun part => ?_
  exact resting_bind (resting_addRegular item part) fun _ => resting_pure item

theorem resting_addStatement (owner item : ItemId) : Resting (addStatement owner item) := by
  simp [addStatement, changeKind]

@[simp]
theorem resting_attachModifiers (owner : ItemId) (modifiers : Modifiers) :
    Resting (attachModifiers owner modifiers) :=
  resting_bind (resting_forM (resting_addPrefix owner)) fun _ => resting_forM (resting_addKeyword owner)

@[simp]
theorem resting_misplaced (modifiers : Modifiers) : Resting (misplaced modifiers) := by
  refine resting_bind resting_forest fun forest => resting_bind (resting_report _ _ _) fun _ => ?_
  refine resting_bind (resting_create _ _) fun series => ?_
  exact resting_bind (resting_attachModifiers series modifiers) fun _ => resting_pure series

theorem resting_settlePending (draft : Draft) : Resting (settlePending draft) := by
  apply resting_ite (resting_pure draft)
  apply resting_ite (resting_pure draft.leadWithPending)
  exact resting_bind (resting_misplaced draft.pending) fun _ => resting_pure _

theorem resting_modifyOperand (draft : Draft) (item : ItemId) : Resting (modifyOperand draft item) := by
  apply resting_ite (resting_pure draft.leadWithPending)
  exact resting_bind (resting_attachModifiers item draft.pending) fun _ => resting_pure _

theorem resting_attachPostfix (target postfixed : ItemId) : Resting (attachPostfix target postfixed) := by
  apply resting_bind resting_forest
  intro forest
  apply resting_ite
  · exact resting_bind (resting_addPostfix target postfixed) fun _ => resting_pure true
  · exact resting_bind (resting_report _ _ _) fun _ => resting_pure false

@[simp]
theorem resting_createInfo (chosen : Chosen) : Resting (createInfo chosen) := by
  refine resting_bind (resting_create _ _) fun info => resting_bind (resting_forM fun part => ?_) fun _ => resting_pure info
  exact resting_bind (resting_createToken _ _ _) fun token => resting_addRegular info token

@[simp]
theorem resting_createOperator (chosen : Chosen) (operand : ItemId) (right : Option ItemId) :
    Resting (createOperator chosen operand right) := by
  refine resting_bind (resting_createInfo chosen) fun info => resting_bind (resting_create _ _) fun item => ?_
  cases chosen.operator.kind with
  | prefixOp => simp
  | postfixOp => simp
  | binary =>
      refine resting_bind (resting_addChild item operand) fun _ => resting_bind (resting_addRegular item info) fun _ => ?_
      exact resting_bind (resting_option_forM (resting_addChild item)) fun _ => resting_pure item

theorem resting_combineAt (priority : Int) (links : List (Chosen × ItemId)) :
    ∀ left, Resting (Run.combineAt combine priority left links) := by
  induction links with
  | nil => exact fun left => resting_pure _
  | cons link rest ih =>
      obtain ⟨chosen, right⟩ := link
      intro left
      unfold Run.combineAt
      apply resting_ite
      · exact resting_bind (resting_createOperator _ _ _) ih
      · exact resting_bind (ih right) fun _ => resting_pure _

theorem resting_foldAt (priorities : List Int) : ∀ run, Resting (Run.foldAt combine priorities run) := by
  induction priorities with
  | nil => exact fun run => resting_pure _
  | cons priority rest ih =>
      exact fun run => resting_bind (resting_combineAt priority run.links run.first) ih

theorem resting_foldSlots (slots : List Slot) : Resting (foldSlots slots) := by
  unfold foldSlots
  apply resting_bind
  · refine resting_mapM fun slot => resting_bind ?_ fun _ => resting_pure _
    exact resting_foldlM fun node chosen => resting_createOperator chosen node none
  · intro nodes
    cases nodes with
    | nil => exact resting_pure []
    | cons node rest => exact resting_mapM fun run => resting_foldAt run.priorities run

theorem resting_createSeries (items : List ItemId) : Resting (createSeries items) := by
  refine resting_bind resting_forest fun forest => resting_bind (resting_create _ _) fun series => ?_
  exact resting_bind (resting_forM (resting_addChild series)) fun _ => resting_pure series

theorem resting_resolve (terms : List Term) : Resting (resolve terms) := by
  refine resting_bind resting_forest fun forest => resting_bind (resting_forM resting_addFault) fun _ => ?_
  apply resting_ite (resting_pure none)
  apply resting_bind (resting_foldSlots _)
  intro nodes
  split
  · exact resting_pure _
  · refine resting_bind (resting_mapM resting_createInfo) fun infos => ?_
    exact resting_bind (resting_createSeries _) fun series => resting_pure _

/-! Steps that move the cursor -/

/-- The step leads onward, to where `ok` holds. -/
def Goes (s : ParseState) (step : Parse α) (ok : α → ParseState → Prop) : Prop :=
  Ends step s (fun value t => s.Onward t ∧ ok value t) fun _ t => s.Onward t

variable {s : ParseState}

theorem Resting.goes (resting : Resting step) (within : s.Within) :
    Goes s step fun _ t => t.cursor = s.cursor :=
  (resting s).imp (fun _ _ same => ⟨ParseState.onward_of_cursor within same, same⟩)
    fun _ _ same => ParseState.onward_of_cursor within same

theorem goes_skipGap (within : s.Within) :
    Goes s skipGap fun _ t => t.cursor.position = s.cursor.gapEnd s.cursor.position := by
  refine ends_skipGap.imp ?_ fun _ _ never => never.elim
  rintro _ t ⟨-, cursor⟩
  have position : t.cursor.position = s.cursor.gapEnd s.cursor.position := by
    rw [cursor, Cursor.position_skipGap]
  have text : t.cursor.text = s.cursor.text := by rw [cursor, Cursor.text_skipGap]
  refine ⟨⟨text, ?_, ?_⟩, position⟩
  · rw [position]
    exact CommentMarkers.le_gapEnd
  · rw [Within, text, position]
    exact CommentMarkers.gapEnd_le within

end Parse

end ExprLang
