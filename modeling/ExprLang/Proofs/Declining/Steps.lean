import ExprLang.Proofs.Declining.Overlay
import ExprLang.Proofs.Progress.Segments

/-!
Steps that do the same with extensions that decline and without extensions. Whatever is put together of
such steps is such a step; what calls the parser for something inside needs fewer characters to be left
there.
-/

namespace ExprLang

variable {grammar : Grammar} {whole : Text} {limit : Nat} {s a t b : ParseState} {α β : Type}

/-- Where fewer than `limit` characters are left the other step does the same, and no more are left behind
it. This is a class, so that a step that is put together of such steps is found to be one. -/
class Echoes (grammar : Grammar) (whole : Text) (limit : Nat) (step alone : Parse α) : Prop where
  follows : ∀ s a, Overlays grammar whole s a → s.cursor.remaining < limit →
    Follows grammar whole step alone s a fun _ t => t.cursor.remaining ≤ s.cursor.remaining

/-- A step for which it does not matter how many characters are left. -/
theorem Overlays.follows {step alone : Parse α} (overlays : Overlays grammar whole s a)
    [echoes : Echoes grammar whole (s.cursor.remaining + 1) step alone] :
    Follows grammar whole step alone s a fun _ t => t.cursor.remaining ≤ s.cursor.remaining :=
  echoes.follows s a overlays (Nat.lt_succ_self _)

/-! Putting steps together -/

section Rules

variable {step alone other otherAlone : Parse α} {next nextAlone : α → Parse β}

instance echoes_pure (value : α) : Echoes grammar whole limit (pure value) (pure value) :=
  ⟨fun _ _ overlays _ => follows_pure overlays (Nat.le_refl _)⟩

theorem echoes_bind (first : Echoes grammar whole limit step alone)
    (rest : ∀ value, Echoes grammar whole limit (next value) (nextAlone value)) :
    Echoes grammar whole limit (step >>= next) (alone >>= nextAlone) where
  follows s a overlays near := (first.follows s a overlays near).bind fun value t b there left =>
    ((rest value).follows t b there (Nat.lt_of_le_of_lt left near)).imp
      fun _ _ less => Nat.le_trans less left

instance [first : Echoes grammar whole limit step alone]
    [rest : ∀ value, Echoes grammar whole limit (next value) (nextAlone value)] :
    Echoes grammar whole limit (step >>= next) (alone >>= nextAlone) := echoes_bind first rest

theorem echoes_ite {c : Prop} [Decidable c] (first : Echoes grammar whole limit step alone)
    (second : Echoes grammar whole limit other otherAlone) :
    Echoes grammar whole limit (if c then step else other) (if c then alone else otherAlone) := by
  by_cases holds : c
  · rwa [if_pos holds, if_pos holds]
  · rwa [if_neg holds, if_neg holds]

instance {c : Prop} [Decidable c] [first : Echoes grammar whole limit step alone]
    [second : Echoes grammar whole limit other otherAlone] :
    Echoes grammar whole limit (if c then step else other) (if c then alone else otherAlone) :=
  echoes_ite first second

variable {body bodyAlone : α → Parse Unit}

instance echoes_option_forM {value : Option α}
    [each : ∀ value, Echoes grammar whole limit (body value) (bodyAlone value)] :
    Echoes grammar whole limit (value.forM body) (value.forM bodyAlone) := by
  cases value with
  | none => exact echoes_pure ()
  | some value => exact each value

instance echoes_forM {list : List α}
    [each : ∀ value, Echoes grammar whole limit (body value) (bodyAlone value)] :
    Echoes grammar whole limit (list.forM body) (list.forM bodyAlone) := by
  induction list with
  | nil => exact echoes_pure ()
  | cons value rest ih => exact echoes_bind (each value) fun _ => ih

instance echoes_mapM {list : List α} {body : α → Parse β}
    [each : ∀ value, Echoes grammar whole limit (body value) (body value)] :
    Echoes grammar whole limit (list.mapM body) (list.mapM body) := by
  induction list with
  | nil => exact echoes_pure []
  | cons value rest ih =>
      rw [List.mapM_cons]
      infer_instance

instance echoes_foldlM {list : List α} {body : β → α → Parse β} {start : β}
    [each : ∀ before value, Echoes grammar whole limit (body before value) (body before value)] :
    Echoes grammar whole limit (list.foldlM body start) (list.foldlM body start) := by
  induction list generalizing start with
  | nil => exact echoes_pure start
  | cons value rest ih => exact echoes_bind (each start value) fun _ => ih

end Rules

namespace Parse

/-! Single steps -/

section Reading

variable (overlays : Overlays grammar whole s a) {next nextAlone : α → Parse β} {ok : β → ParseState → Prop}

include overlays

/-- A step that reads the same in both states. -/
theorem follows_reading_bind {step : Parse α} {read : ParseState → α}
    (reads : ∀ s, step s = .ok (read s) s) (same : read a = read s)
    (rest : Follows grammar whole (next (read s)) (nextAlone (read s)) s a ok) :
    Follows grammar whole (step >>= next) (step >>= nextAlone) s a ok := by
  have here : Follows grammar whole step step s a fun value t => value = read s ∧ t = s :=
    follows_ok (reads s) (same ▸ reads a) overlays ⟨rfl, rfl⟩
  unfold Follows Ends at rest ⊢
  rw [bind_run, bind_run, reads s, reads a, same]
  exact rest

theorem follows_position_bind {next nextAlone : Nat → Parse β}
    (rest : Follows grammar whole (next s.cursor.position) (nextAlone s.cursor.position) s a ok) :
    Follows grammar whole (position >>= next) (position >>= nextAlone) s a ok :=
  follows_reading_bind overlays (fun _ => rfl) overlays.position rest

theorem follows_text_bind {next nextAlone : Text → Parse β}
    (rest : Follows grammar whole (next s.cursor.text) (nextAlone s.cursor.text) s a ok) :
    Follows grammar whole (text >>= next) (text >>= nextAlone) s a ok :=
  follows_reading_bind overlays (fun _ => rfl) overlays.sameText rest

theorem follows_current_bind {next nextAlone : Option Char → Parse β}
    (rest : Follows grammar whole (next s.cursor.text[s.cursor.position]?)
      (nextAlone s.cursor.text[s.cursor.position]?) s a ok) :
    Follows grammar whole (current? >>= next) (current? >>= nextAlone) s a ok :=
  follows_reading_bind overlays (fun _ => rfl) overlays.current rest

theorem follows_slice_bind {start stop : Nat} {next nextAlone : String → Parse β}
    (rest : Follows grammar whole (next (s.cursor.text.slice start stop))
      (nextAlone (s.cursor.text.slice start stop)) s a ok) :
    Follows grammar whole (slice start stop >>= next) (slice start stop >>= nextAlone) s a ok :=
  follows_reading_bind overlays (fun _ => rfl) (congrArg (Text.slice · start stop) overlays.sameText) rest

theorem follows_forest_bind {next nextAlone : Forest → Parse β}
    (rest : Follows grammar whole (next s.forest) (nextAlone s.forest) s a ok) :
    Follows grammar whole (forest >>= next) (forest >>= nextAlone) s a ok :=
  follows_reading_bind overlays (fun _ => rfl) overlays.forest rest

theorem follows_remaining_bind {next nextAlone : Nat → Parse β}
    (rest : Follows grammar whole (next s.cursor.remaining) (nextAlone s.cursor.remaining) s a ok) :
    Follows grammar whole (remaining >>= next) (remaining >>= nextAlone) s a ok :=
  follows_reading_bind overlays (fun _ => rfl) overlays.remaining rest

end Reading

section Single

variable (overlays : Overlays grammar whole s a)

include overlays

theorem follows_skip (count : Nat) : Follows grammar whole (skip count) (skip count) s a
    fun _ t => t.cursor = s.cursor.skip count := by
  refine follows_ok rfl ?_ (overlays.moved (s.cursor.position + count)) rfl
  rw [← overlays.position]
  rfl

theorem follows_moveTo {place : Nat} (further : s.cursor.position ≤ place) :
    Follows grammar whole (moveTo place) (moveTo place) s a
      fun _ t => t.cursor.remaining ≤ s.cursor.remaining :=
  follows_ok rfl rfl (overlays.moved place)
    (Cursor.remaining_le rfl (Nat.le_min.mpr ⟨further, overlays.proper.inside⟩))

theorem follows_addFault (fault : Fault) : Follows grammar whole (addFault fault) (addFault fault) s a
    fun _ t => t.cursor = s.cursor :=
  follows_ok rfl rfl (overlays.withFaults (overlays.faults.both fault)) rfl

theorem follows_stop (start length : Nat) (cause : Fault.Cause) {ok : α → ParseState → Prop} :
    Follows grammar whole (stop start length cause : Parse α) (stop start length cause) s a ok :=
  ends_error rfl ⟨_, rfl, overlays.withFaults (overlays.faults.both _)⟩

/-- A comment without end is reported at most once in each of the parses. -/
theorem follows_reportUnclosed (unclosed : Option Nat) :
    Follows grammar whole (Tandem.reportUnclosed s unclosed) (Tandem.reportUnclosed a unclosed) s a
      fun _ t => t.cursor = s.cursor := by
  cases unclosed with
  | none => exact follows_pure overlays rfl
  | some start =>
      have marker : a.cursor.markers = s.cursor.markers := overlays.sameMarkers
      have size : a.cursor.text = s.cursor.text := overlays.sameText
      simp only [Tandem.reportUnclosed, marker, size]
      by_cases known : ((s.faults.covering start).any (·.code == .commentNotClosed)) = true <;>
        by_cases knownAlone : ((a.faults.covering start).any (·.code == .commentNotClosed)) = true
      · rw [if_pos known, if_pos knownAlone]
        exact follows_pure overlays rfl
      · rw [if_pos known, if_neg knownAlone]
        refine follows_ok rfl rfl (overlays.withFaults (overlays.faults.spared rfl rfl ?_ ?_)) rfl
        · obtain ⟨other, member, code⟩ := List.any_eq_true.mp known
          obtain ⟨member, covers⟩ := List.mem_filter.mp member
          exact ⟨other, member, beq_iff_eq.mp code, covers⟩
        · intro same
          exact knownAlone (same ▸ known)
      · rw [if_neg known, if_pos knownAlone]
        refine follows_ok rfl rfl (overlays.withFaults (overlays.faults.alone rfl rfl ?_)) rfl
        intro same
        exact known (same ▸ knownAlone)
      · rw [if_neg known, if_neg knownAlone]
        exact follows_addFault overlays _

theorem follows_skipGap : Follows grammar whole skipGap skipGap s a
    fun _ t => t.cursor = s.cursor.skipGap.1 := by
  have behind := follows_reportUnclosed overlays.skipped s.cursor.skipGap.2
  unfold Follows Ends at behind ⊢
  rw [Tandem.skipGap_run, Tandem.skipGap_run, overlays.unclosed]
  exact behind

end Single

theorem echoes_reading {step : Parse α} {read : ParseState → α} (reads : ∀ s, step s = .ok (read s) s)
    (same : ∀ {s a}, Overlays grammar whole s a → read a = read s) :
    Echoes grammar whole limit step step where
  follows s a overlays _ := follows_ok (reads s) (same overlays ▸ reads a) overlays (Nat.le_refl _)

instance : Echoes grammar whole limit position position :=
  echoes_reading (fun _ => rfl) (·.position)

instance : Echoes grammar whole limit text text := echoes_reading (fun _ => rfl) (·.sameText)

instance : Echoes grammar whole limit current? current? := echoes_reading (fun _ => rfl) (·.current)

instance (start stop : Nat) : Echoes grammar whole limit (slice start stop) (slice start stop) :=
  echoes_reading (fun _ => rfl) fun overlays => congrArg (Text.slice · start stop) overlays.sameText

instance : Echoes grammar whole limit forest forest := echoes_reading (fun _ => rfl) (·.forest)

instance : Echoes grammar whole limit remaining remaining :=
  echoes_reading (fun _ => rfl) (·.remaining)

instance (count : Nat) : Echoes grammar whole limit (skip count) (skip count) where
  follows s _ overlays _ := (follows_skip overlays count).imp fun _ t same => by
    have inside := overlays.proper.inside
    apply Cursor.remaining_le
    · rw [same]
      rfl
    · rw [same]
      exact Nat.le_min.mpr ⟨Nat.le_add_right _ _, inside⟩

instance (fault : Fault) : Echoes grammar whole limit (addFault fault) (addFault fault) where
  follows _ _ overlays _ := (follows_addFault overlays fault).imp fun _ _ same => by rw [same]

instance (start length : Nat) (cause : Fault.Cause) :
    Echoes grammar whole limit (report start length cause) (report start length cause) :=
  inferInstanceAs (Echoes grammar whole limit (addFault _) (addFault _))

instance (place : Nat) : Echoes grammar whole limit (stuck place : Parse α) (stuck place) :=
  ⟨fun _ _ overlays _ => follows_stop overlays place 0 _⟩

instance : Echoes grammar whole limit skipGap skipGap where
  follows s _ overlays _ := (follows_skipGap overlays).imp fun _ t same => by
    apply Cursor.remaining_le
    · rw [same, Cursor.text_skipGap]
    · rw [same, Cursor.position_skipGap]
      exact CommentMarkers.le_gapEnd

/-- A step on the forest alone. -/
theorem echoes_forest {step : Parse α} (value : Forest → α) {change : Forest → Forest}
    (closed : ∀ {forest}, Forest.Closed forest → Forest.Closed (change forest))
    (run : ∀ s, step s = .ok (value s.forest) { s with forest := change s.forest }) :
    Echoes grammar whole limit step step where
  follows s a overlays _ := by
    refine follows_ok (run s) ?_ (overlays.withForest (closed overlays.proper.closed)) (Nat.le_refl _)
    rw [run a, overlays.forest]

instance (kind : TokenKind) (word : String) (start : Nat) :
    Echoes grammar whole limit (createToken kind word start) (createToken kind word start) :=
  echoes_forest Forest.size (Forest.closed_push rfl rfl) fun _ => rfl

instance (kind : ItemKind) (start : Nat) :
    Echoes grammar whole limit (create kind start) (create kind start) :=
  echoes_forest Forest.size (Forest.closed_push rfl rfl) fun _ => rfl

instance (item : ItemId) (change : ItemKind → ItemKind) :
    Echoes grammar whole limit (changeKind item change) (changeKind item change) :=
  echoes_forest (fun _ => ()) Forest.closed_changeKind fun _ => rfl

instance (item : ItemId) (kind : ItemKind) :
    Echoes grammar whole limit (changeForest (·.setKind item kind)) (changeForest (·.setKind item kind)) :=
  inferInstanceAs (Echoes grammar whole limit (changeKind item fun _ => kind) (changeKind item fun _ => kind))

theorem echoes_attach (owner item : Nat) (place : Section) (isChild : Bool) :
    Echoes grammar whole limit (attach (·.attach owner item place isChild))
      (attach (·.attach owner item place isChild)) where
  follows s a overlays _ := by
    unfold attach attachOr
    refine follows_forest_bind overlays ?_
    dsimp only
    cases attached : s.forest.attach owner item place isChild with
    | error error =>
        refine follows_position_bind overlays ?_
        exact follows_stop overlays ..
    | ok next =>
        obtain ⟨rfl, ownerInside, itemInside⟩ := Forest.attach_ok attached
        exact follows_ok rfl rfl
          (overlays.withForest (Forest.closed_link ownerInside itemInside overlays.proper.closed)) (Nat.le_refl _)

instance (owner item : Nat) : Echoes grammar whole limit (addPrefix owner item) (addPrefix owner item) :=
  echoes_attach ..

instance (owner item : Nat) : Echoes grammar whole limit (addKeyword owner item) (addKeyword owner item) :=
  echoes_attach ..

instance (owner item : Nat) : Echoes grammar whole limit (addPostfix owner item) (addPostfix owner item) :=
  echoes_attach ..

instance (owner item : Nat) : Echoes grammar whole limit (addRegular owner item) (addRegular owner item) :=
  echoes_attach ..

instance (owner item : Nat) : Echoes grammar whole limit (addChild owner item) (addChild owner item) :=
  echoes_attach ..

/-! What is put together from them -/

instance (kind : ItemKind) (token : TokenKind) (word : String) (start : Nat) :
    Echoes grammar whole limit (createLeaf kind token word start) (createLeaf kind token word start) := by
  unfold createLeaf
  infer_instance

instance (written : NumericMatch) : Echoes grammar whole limit (number written) (number written) := by
  unfold number
  infer_instance

instance (owner item : ItemId) :
    Echoes grammar whole limit (addStatement owner item) (addStatement owner item) := by
  unfold addStatement
  infer_instance

instance (owner : ItemId) (place : Nat) :
    Echoes grammar whole limit (addSeparator owner place) (addSeparator owner place) := by
  unfold addSeparator
  infer_instance

instance (place length : Nat) :
    Echoes grammar whole limit (unexpected place length) (unexpected place length) := by
  unfold unexpected
  infer_instance

instance (root start : Nat) (closedByBlock : Bool) :
    Echoes grammar whole limit (afterStatement grammar root start closedByBlock)
      (afterStatement grammar root start closedByBlock) := by
  unfold afterStatement
  refine echoes_bind inferInstance fun _ => echoes_bind inferInstance fun place => ?_
  refine echoes_bind inferInstance fun next => ?_
  cases next <;> infer_instance

instance (owner : ItemId) (modifiers : Modifiers) :
    Echoes grammar whole limit (attachModifiers owner modifiers) (attachModifiers owner modifiers) := by
  unfold attachModifiers
  infer_instance

instance (modifiers : Modifiers) :
    Echoes grammar whole limit (misplaced modifiers) (misplaced modifiers) := by
  unfold misplaced
  infer_instance

instance (target postfixed : ItemId) :
    Echoes grammar whole limit (attachPostfix target postfixed) (attachPostfix target postfixed) := by
  unfold attachPostfix
  infer_instance

instance (token : ItemId) : Echoes grammar whole limit (keywordId? token) (keywordId? token) := by
  unfold keywordId?
  refine echoes_bind inferInstance fun forest => ?_
  split <;> infer_instance

/-! Resolving -/

instance (chosen : Chosen) : Echoes grammar whole limit (createInfo chosen) (createInfo chosen) := by
  unfold createInfo
  infer_instance

instance (chosen : Chosen) (operand : ItemId) (right : Option ItemId) :
    Echoes grammar whole limit (createOperator chosen operand right)
      (createOperator chosen operand right) := by
  unfold createOperator
  refine echoes_bind inferInstance fun info => echoes_bind inferInstance fun item => ?_
  cases chosen.operator.kind <;> infer_instance

instance (slot : Slot) : Echoes grammar whole limit (applyUnary slot) (applyUnary slot) := by
  unfold applyUnary
  infer_instance

instance (chosen : Chosen) (left right : ItemId) :
    Echoes grammar whole limit (combine chosen left right) (combine chosen left right) := by
  unfold combine
  infer_instance

@[instance]
theorem echoes_combineAt (level : Int) (left : ItemId) (links : List (Chosen × ItemId)) :
    Echoes grammar whole limit (Run.combineAt combine level left links)
      (Run.combineAt combine level left links) := by
  induction links generalizing left with
  | nil => exact echoes_pure _
  | cons link rest ih =>
      unfold Run.combineAt
      infer_instance

@[instance]
theorem echoes_foldAt (priorities : List Int) (run : Run ItemId) :
    Echoes grammar whole limit (Run.foldAt combine priorities run) (Run.foldAt combine priorities run) := by
  induction priorities generalizing run with
  | nil => exact echoes_pure _
  | cons priority rest ih =>
      unfold Run.foldAt
      infer_instance

instance (run : Run ItemId) :
    Echoes grammar whole limit (Run.fold combine run) (Run.fold combine run) := by
  unfold Run.fold
  infer_instance

instance (slots : List Slot) : Echoes grammar whole limit (foldSlots slots) (foldSlots slots) := by
  unfold foldSlots
  refine echoes_bind inferInstance fun nodes => ?_
  cases nodes <;> infer_instance

instance (items : List ItemId) :
    Echoes grammar whole limit (createSeries items) (createSeries items) := by
  unfold createSeries
  infer_instance

instance (terms : List Term) : Echoes grammar whole limit (resolve terms) (resolve terms) := by
  unfold resolve
  refine echoes_bind inferInstance fun forest => echoes_bind inferInstance fun _ => ?_
  refine echoes_ite inferInstance (echoes_bind inferInstance fun nodes => ?_)
  split <;> infer_instance

/-! Lists inside a construct -/

section Inside

variable {inner alone : Inner} [∀ context, Echoes grammar whole limit (inner context) (alone context)]

@[instance]
theorem echoes_parameters (item : ItemId) (kind : BraceKind) (passes : Nat)
    (before : List (Option ItemId)) (seenComma : Bool) :
    Echoes grammar whole limit (parameters inner item kind passes before seenComma)
      (parameters alone item kind passes before seenComma) := by
  induction passes generalizing before seenComma with
  | zero =>
      unfold parameters
      infer_instance
  | succ passes ih =>
      unfold parameters
      refine echoes_bind inferInstance fun segment => echoes_bind inferInstance fun _ => ?_
      refine echoes_bind inferInstance fun _ => echoes_bind inferInstance fun place => ?_
      refine echoes_bind inferInstance fun next => ?_
      cases next <;> infer_instance

@[instance]
theorem echoes_blockStatements (block : ItemId) (markers : MarkerPair) (blockStart passes : Nat) :
    Echoes grammar whole limit (blockStatements grammar inner block markers blockStart passes)
      (blockStatements grammar alone block markers blockStart passes) := by
  induction passes with
  | zero =>
      unfold blockStatements
      infer_instance
  | succ passes ih =>
      unfold blockStatements
      refine echoes_bind inferInstance fun start => echoes_bind inferInstance fun segment => ?_
      refine echoes_bind inferInstance fun _ => echoes_bind inferInstance fun _ => ?_
      refine echoes_bind inferInstance fun place => echoes_bind inferInstance fun next => ?_
      cases next <;> infer_instance

@[instance]
theorem echoes_rootStatements (root passes : Nat) :
    Echoes grammar whole limit (rootStatements grammar inner root passes)
      (rootStatements grammar alone root passes) := by
  induction passes with
  | zero =>
      unfold rootStatements
      infer_instance
  | succ passes ih =>
      unfold rootStatements
      infer_instance

end Inside

end Parse

end ExprLang
