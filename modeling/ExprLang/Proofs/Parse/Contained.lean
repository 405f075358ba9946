import ExprLang.Proofs.Parse.Alarm
import ExprLang.Proofs.Parse.Reading

/-!
Every step of the parser works above the floor it starts from and stops only on a critical fault,
whatever extensions there are. A step is handled as it is put together, so the lemmas follow the
parser function by function; an owner is always an item the function has made itself.
-/

namespace ExprLang.Parse

open Forest (Floor Untouched)

variable {floor : Nat} {α : Type}

/-- The steps inside a construct, above every floor. -/
def InnerContained (inner : Inner) : Prop :=
  ∀ floor context, Contained floor (fun segment => ∀ item ∈ segment.item, floor ≤ item) (inner context)

/-! Single steps -/

theorem contained_position : Contained floor (fun _ => True) position :=
  contained_quiet fun s => ⟨_, s.cursor.position, rfl, trivial, id⟩

theorem contained_text : Contained floor (fun _ => True) text :=
  contained_quiet fun s => ⟨_, s.cursor.position, rfl, trivial, id⟩

theorem contained_current : Contained floor (fun _ => True) current? :=
  contained_quiet fun s => ⟨_, s.cursor.position, rfl, trivial, id⟩

theorem contained_slice {start stop : Nat} : Contained floor (fun _ => True) (slice start stop) :=
  contained_quiet fun s => ⟨_, s.cursor.position, rfl, trivial, id⟩

theorem contained_forest : Contained floor (fun _ => True) forest :=
  contained_quiet fun s => ⟨_, s.cursor.position, rfl, trivial, id⟩

theorem contained_remaining : Contained floor (fun _ => True) remaining :=
  contained_quiet fun s => ⟨_, s.cursor.position, rfl, trivial, id⟩

theorem contained_get : Contained floor (fun _ => True) (get : Parse ParseState) :=
  contained_quiet fun s => ⟨_, s.cursor.position, rfl, trivial, id⟩

theorem contained_moveTo {place : Nat} : Contained floor (fun _ => True) (moveTo place) :=
  contained_quiet fun _ => ⟨_, _, rfl, trivial, fun _ => Nat.min_le_right _ _⟩

theorem contained_skip {count : Nat} : Contained floor (fun _ => True) (skip count) :=
  contained_quiet fun _ => ⟨_, _, rfl, trivial, fun _ => Nat.min_le_right _ _⟩

theorem contained_report {start length : Nat} {cause : Fault.Cause} :
    Contained floor (fun _ => True) (report start length cause) := by
  intro s holds
  refine ends_ok rfl ⟨trivial, above_of_eq holds rfl rfl, [⟨start, length, cause, false⟩], rfl, ?_⟩
  simp

theorem contained_stop {result : α → Prop} {start length : Nat} {cause : Fault.Cause} :
    Contained floor result (stop start length cause) := by
  intro s holds
  refine ends_error rfl ⟨above_of_eq holds rfl rfl, [⟨start, length, cause, true⟩], rfl, ?_⟩
  simp

theorem contained_skipGap : Contained floor (fun _ => True) skipGap := by
  intro s holds
  unfold skipGap
  simp only [ends_get_bind]
  have text := s.cursor.text_skipGap
  have markers := s.cursor.markers_skipGap
  have inside : s.cursor.position ≤ s.cursor.text.size →
      s.cursor.skipGap.1.position ≤ s.cursor.skipGap.1.text.size := fun inside => by
    rw [Cursor.position_skipGap, Cursor.text_skipGap]
    exact CommentMarkers.gapEnd_le inside
  have heard := s.cursor.hears_skipGap
  cases gap : s.cursor.skipGap with
  | mk cursor unclosed =>
      rw [gap] at text markers inside heard
      refine ends_bind (ends_ok (t := { s with cursor }) rfl ?_)
      cases unclosed with
      | none => exact ends_pure ⟨trivial, above_of_heard holds rfl text markers inside heard, calm_of_eq rfl⟩
      | some start =>
          dsimp only
          split
          · exact ends_pure ⟨trivial, above_of_heard holds rfl text markers inside heard, calm_of_eq rfl⟩
          · refine ends_ok rfl ⟨trivial, above_of_heard holds rfl text markers inside heard, [_], rfl, ?_⟩
            simp

theorem contained_createToken {kind : TokenKind} {text : String} {start : Nat} :
    Contained floor (fun id => floor ≤ id) (createToken kind text start) :=
  fun _ holds => ends_ok rfl ⟨holds.size, above_of_forest (Forest.floor_push rfl holds)
    (Forest.untouched_push holds) (Forest.closed_push rfl rfl), calm_of_eq rfl⟩

theorem contained_create {kind : ItemKind} {start : Nat} :
    Contained floor (fun id => floor ≤ id) (create kind start) :=
  fun _ holds => ends_ok rfl ⟨holds.size, above_of_forest (Forest.floor_push rfl holds)
    (Forest.untouched_push holds) (Forest.closed_push rfl rfl), calm_of_eq rfl⟩

theorem contained_changeKind {item : Nat} (above : floor ≤ item) (change : ItemKind → ItemKind) :
    Contained floor (fun _ => True) (changeKind item change) :=
  fun _ holds => ends_ok rfl ⟨trivial, above_of_forest (Forest.floor_changeKind holds)
    (Forest.untouched_changeKind above) Forest.closed_changeKind, calm_of_eq rfl⟩

theorem contained_setKind {item : Nat} {kind : ItemKind} (above : floor ≤ item) :
    Contained floor (fun _ => True) (changeForest (·.setKind item kind)) :=
  contained_changeKind above fun _ => kind

section Attach

variable {owner item : Nat}

/-- Nothing but a refused part stops here, and that is reported as critical. -/
theorem contained_attachOr {refused : AttachError → Parse Unit} {place : Section} {isChild : Bool}
    (above : floor ≤ owner) (stops : ∀ error, Contained floor (fun _ => True) (refused error)) :
    Contained floor (fun _ => True) (attachOr refused (·.attach owner item place isChild)) := by
  intro s holds
  unfold attachOr
  simp only [ends_forest_bind]
  cases attached : s.forest.attach owner item place isChild with
  | error error => exact stops error s holds
  | ok next =>
      obtain ⟨rfl, ownerInside, itemInside⟩ := Forest.attach_ok attached
      exact ends_ok rfl ⟨trivial, above_of_forest (Forest.floor_link above holds)
        (Forest.untouched_link above (Forest.free_of_attach attached))
        (Forest.closed_link ownerInside itemInside), calm_of_eq rfl⟩

theorem contained_attach {place : Section} {isChild : Bool} (above : floor ≤ owner) :
    Contained floor (fun _ => True) (attach (·.attach owner item place isChild)) :=
  contained_attachOr above fun _ =>
    contained_bind contained_position fun _ _ => contained_stop

theorem contained_addPrefix (above : floor ≤ owner) :
    Contained floor (fun _ => True) (addPrefix owner item) := contained_attach above

theorem contained_addKeyword (above : floor ≤ owner) :
    Contained floor (fun _ => True) (addKeyword owner item) := contained_attach above

theorem contained_addPostfix (above : floor ≤ owner) :
    Contained floor (fun _ => True) (addPostfix owner item) := contained_attach above

theorem contained_addRegular (above : floor ≤ owner) :
    Contained floor (fun _ => True) (addRegular owner item) := contained_attach above

theorem contained_addChild (above : floor ≤ owner) :
    Contained floor (fun _ => True) (addChild owner item) := contained_attach above

end Attach

theorem contained_stuck {result : α → Prop} {place : Nat} : Contained floor result (stuck place) :=
  contained_stop

/-- Out of passes. -/
theorem contained_stuckHere {result : α → Prop} :
    Contained floor result (do stuck (← position)) :=
  contained_bind contained_position fun _ _ => contained_stuck

/-! Operands -/

theorem contained_createLeaf {kind : ItemKind} {token : TokenKind} {text : String} {start : Nat} :
    Contained floor (fun id => floor ≤ id) (createLeaf kind token text start) := by
  refine contained_bind contained_create fun item above => ?_
  refine contained_bind contained_createToken fun _ _ => ?_
  exact contained_bind (contained_addRegular above) fun _ _ => contained_pure above

theorem contained_textConstant (grammar : Grammar) (quote : Char) :
    Contained floor (fun id => floor ≤ id) (textConstant grammar quote) := by
  refine contained_bind contained_position fun _ _ => ?_
  refine contained_bind contained_text fun _ _ => ?_
  refine contained_bind contained_slice fun _ _ => ?_
  refine contained_bind contained_createLeaf fun item above => ?_
  dsimp only
  split
  · refine contained_bind contained_report fun _ _ => ?_
    exact contained_bind contained_moveTo fun _ _ => contained_pure above
  · exact contained_bind contained_moveTo fun _ _ => contained_pure above

theorem contained_number (written : NumericMatch) :
    Contained floor (fun id => floor ≤ id) (number written) := by
  refine contained_bind contained_position fun _ _ => ?_
  refine contained_bind contained_slice fun _ _ => ?_
  refine contained_bind contained_createLeaf fun item above => ?_
  exact contained_bind contained_skip fun _ _ => contained_pure above

theorem contained_name (grammar : Grammar) :
    Contained floor (fun found => ∀ item ∈ found, floor ≤ item) (name? grammar) := by
  refine contained_bind contained_position fun _ _ => ?_
  refine contained_bind contained_text fun _ _ => ?_
  dsimp only
  split
  · exact contained_pure (by simp)
  · refine contained_bind contained_slice fun _ _ => ?_
    refine contained_bind contained_createLeaf fun item above => ?_
    exact contained_bind contained_moveTo fun _ _ => contained_pure (by simpa using above)

/-! Enclosed lists -/

section Enclosed

variable {grammar : Grammar} {inner : Inner}

theorem contained_parameters (inside : InnerContained inner) {item : Nat} (above : floor ≤ item)
    (kind : BraceKind) (passes : Nat) : ∀ before seenComma,
      Contained floor (fun _ => True) (parameters inner item kind passes before seenComma) := by
  induction passes with
  | zero => exact fun _ _ => contained_stuckHere
  | succ passes ih =>
      intro before seenComma
      unfold parameters
      refine contained_bind (inside floor .braces) fun segment _ => ?_
      refine contained_bind (P := fun _ => True) ?_ fun _ _ => ?_
      · exact contained_optionForM fun _ => contained_addChild above
      refine contained_bind contained_skipGap fun _ _ => ?_
      refine contained_bind contained_position fun place _ => ?_
      refine contained_bind contained_current fun next _ => ?_
      split
      · split
        · refine contained_bind contained_createToken fun _ _ => ?_
          refine contained_bind (contained_addRegular above) fun _ _ => ?_
          exact contained_bind contained_skip fun _ _ => ih _ _
        · split
          · refine contained_bind contained_createToken fun _ _ => ?_
            refine contained_bind (contained_addRegular above) fun _ _ => ?_
            exact contained_bind contained_skip fun _ _ => contained_pure trivial
          · exact contained_bind contained_report fun _ _ => contained_pure trivial
      · exact contained_bind contained_report fun _ _ => contained_pure trivial

theorem contained_braces (inside : InnerContained inner) (name : Option ItemId) :
    Contained floor (fun id => floor ≤ id) (braces inner name) := by
  unfold braces
  refine contained_bind contained_position fun start _ => ?_
  refine contained_bind contained_current fun found _ => ?_
  split
  · exact contained_stop
  · refine contained_bind contained_createToken fun _ _ => ?_
    refine contained_bind contained_create fun item above => ?_
    refine contained_bind (P := fun _ => True) ?_ fun _ _ => ?_
    · exact contained_optionForM fun _ => contained_addChild above
    refine contained_bind (contained_addRegular above) fun _ _ => ?_
    refine contained_bind contained_skip fun _ _ => ?_
    refine contained_bind contained_remaining fun _ _ => ?_
    refine contained_bind (contained_parameters inside above _ _ _ _) fun _ _ => ?_
    exact contained_bind (contained_setKind above) fun _ _ => contained_pure above

theorem contained_literal (inside : InnerContained inner) :
    Contained floor (fun found => ∀ item ∈ found, floor ≤ item) (literal? grammar inner) := by
  unfold literal?
  refine contained_bind (contained_name grammar) fun found above => ?_
  split
  · exact contained_pure (by simp)
  · refine contained_bind contained_get fun _ _ => ?_
    dsimp only
    split
    · refine contained_bind contained_skipGap fun _ _ => ?_
      refine contained_bind (contained_braces inside _) fun item above => ?_
      exact contained_pure (by simpa using above)
    · exact contained_pure above

theorem contained_addStatement {owner item : Nat} (above : floor ≤ owner) :
    Contained floor (fun _ => True) (addStatement owner item) :=
  contained_bind (contained_addChild above) fun _ _ => contained_changeKind above _

theorem contained_addSeparator {owner place : Nat} (above : floor ≤ owner) :
    Contained floor (fun _ => True) (addSeparator owner place) := by
  refine contained_bind contained_slice fun _ _ => ?_
  refine contained_bind contained_createToken fun _ _ => ?_
  refine contained_bind (contained_addRegular above) fun _ _ => ?_
  exact contained_bind (contained_changeKind above _) fun _ _ => contained_skip

theorem contained_unexpected {place length : Nat} :
    Contained floor (fun _ => True) (unexpected place length) := by
  refine contained_bind contained_slice fun _ _ => ?_
  exact contained_bind contained_report fun _ _ => contained_skip

theorem contained_blockStatements (inside : InnerContained inner) {block : Nat}
    (above : floor ≤ block) (markers : MarkerPair) (blockStart passes : Nat) :
    Contained floor (fun _ => True)
      (blockStatements grammar inner block markers blockStart passes) := by
  induction passes with
  | zero => exact contained_stuckHere
  | succ passes ih =>
      unfold blockStatements
      refine contained_bind contained_position fun start _ => ?_
      refine contained_bind (inside floor .codeBlock) fun segment _ => ?_
      refine contained_bind (P := fun _ => True) ?_ fun _ _ => ?_
      · exact contained_optionForM fun _ => contained_addStatement above
      refine contained_bind contained_skipGap fun _ _ => ?_
      refine contained_bind contained_position fun place _ => ?_
      refine contained_bind contained_current fun next _ => ?_
      split
      · exact contained_report
      · refine contained_bind contained_text fun text _ => ?_
        split
        · refine contained_bind contained_slice fun _ _ => ?_
          refine contained_bind contained_createToken fun _ _ => ?_
          refine contained_bind (contained_addRegular above) fun _ _ => ?_
          exact contained_bind (contained_changeKind above _) fun _ _ => contained_skip
        · split
          · exact contained_bind (contained_addSeparator above) fun _ _ => ih
          · split
            · exact ih
            · split
              · exact contained_bind contained_unexpected fun _ _ => ih
              · split
                · exact contained_stuck
                · exact ih

theorem contained_codeBlock (inside : InnerContained inner) :
    Contained floor (fun id => floor ≤ id) (codeBlock grammar inner) := by
  unfold codeBlock
  refine contained_bind contained_position fun start _ => ?_
  split
  · exact contained_stuck
  · refine contained_bind contained_slice fun _ _ => ?_
    refine contained_bind contained_createToken fun _ _ => ?_
    refine contained_bind contained_create fun block above => ?_
    refine contained_bind (contained_addRegular above) fun _ _ => ?_
    refine contained_bind contained_skip fun _ _ => ?_
    refine contained_bind contained_remaining fun _ _ => ?_
    refine contained_bind (contained_blockStatements inside above _ _ _) fun _ _ => ?_
    exact contained_pure above

theorem contained_afterStatement {root start : Nat} {closedByBlock : Bool} (above : floor ≤ root) :
    Contained floor (fun _ => True) (afterStatement grammar root start closedByBlock) := by
  refine contained_bind contained_skipGap fun _ _ => ?_
  refine contained_bind contained_position fun place _ => ?_
  refine contained_bind contained_current fun next _ => ?_
  split
  · exact contained_pure trivial
  · split
    · exact contained_bind (contained_addSeparator above) fun _ _ => contained_pure trivial
    · split
      · exact contained_pure trivial
      · refine contained_bind contained_text fun text _ => ?_
        split
        · exact contained_bind contained_unexpected fun _ _ => contained_pure trivial
        · split
          · exact contained_bind contained_unexpected fun _ _ => contained_pure trivial
          · split
            · exact contained_stuck
            · exact contained_pure trivial

theorem contained_rootStatements (inside : InnerContained inner) {root : Nat} (above : floor ≤ root)
    (passes : Nat) : Contained floor (fun _ => True) (rootStatements grammar inner root passes) := by
  induction passes with
  | zero => exact contained_stuckHere
  | succ passes ih =>
      refine contained_bind contained_position fun start _ => ?_
      refine contained_bind (inside floor .root) fun segment _ => ?_
      refine contained_bind (P := fun _ => True) ?_ fun _ _ => ?_
      · exact contained_optionForM fun _ => contained_addStatement above
      refine contained_bind (contained_afterStatement above) fun again _ => ?_
      cases again with
      | true => exact ih
      | false => exact contained_pure trivial

end Enclosed

/-! Resolving -/

theorem contained_createInfo (chosen : Chosen) :
    Contained floor (fun id => floor ≤ id) (createInfo chosen) := by
  refine contained_bind contained_create fun info above => ?_
  refine contained_bind (P := fun _ => True) ?_ fun _ _ => contained_pure above
  refine contained_forM fun part _ => ?_
  exact contained_bind contained_createToken fun _ _ => contained_addRegular above

theorem contained_createOperator (chosen : Chosen) (operand : ItemId) (right : Option ItemId) :
    Contained floor (fun id => floor ≤ id) (createOperator chosen operand right) := by
  refine contained_bind (contained_createInfo chosen) fun info _ => ?_
  refine contained_bind contained_create fun item above => ?_
  dsimp only
  split
  · refine contained_bind (contained_addRegular above) fun _ _ => ?_
    exact contained_bind (contained_addChild above) fun _ _ => contained_pure above
  · refine contained_bind (contained_addChild above) fun _ _ => ?_
    exact contained_bind (contained_addRegular above) fun _ _ => contained_pure above
  · refine contained_bind (contained_addChild above) fun _ _ => ?_
    refine contained_bind (contained_addRegular above) fun _ _ => ?_
    refine contained_bind (P := fun _ => True) ?_ fun _ _ => contained_pure above
    exact contained_optionForM fun _ => contained_addChild above

theorem contained_applyUnary {slot : Slot} (above : floor ≤ slot.operand) :
    Contained floor (fun id => floor ≤ id) (applyUnary slot) :=
  contained_foldlM (fun node chosen _ => contained_createOperator chosen node none) above

section Fold

variable {combine : Chosen → ItemId → ItemId → Parse ItemId}

/-- The nodes of a run. -/
def RunAbove (floor : Nat) (run : Run ItemId) : Prop :=
  floor ≤ run.first ∧ ∀ link ∈ run.links, floor ≤ link.2

theorem contained_combineAt
    (step : ∀ chosen left right, Contained floor (fun id => floor ≤ id) (combine chosen left right))
    (priority : Int) {links : List (Chosen × ItemId)} :
    ∀ {left : ItemId}, floor ≤ left → (∀ link ∈ links, floor ≤ link.2) →
      Contained floor (RunAbove floor) (Run.combineAt combine priority left links) := by
  induction links with
  | nil => exact fun above _ => contained_pure ⟨above, by simp⟩
  | cons link rest ih =>
      obtain ⟨chosen, right⟩ := link
      intro left above all
      have aboveRight : floor ≤ right := all _ List.mem_cons_self
      have aboveRest := fun link member => all link (List.mem_cons_of_mem _ member)
      unfold Run.combineAt
      split
      · exact contained_bind (step chosen left right) fun node aboveNode => ih aboveNode aboveRest
      · refine contained_bind (ih aboveRight aboveRest) fun run aboveRun => ?_
        refine contained_pure ⟨above, ?_⟩
        exact List.forall_mem_cons.mpr ⟨aboveRun.1, aboveRun.2⟩

theorem contained_fold
    (step : ∀ chosen left right, Contained floor (fun id => floor ≤ id) (combine chosen left right))
    {run : Run ItemId} (above : RunAbove floor run) :
    Contained floor (fun id => floor ≤ id) (Run.fold combine run) := by
  unfold Run.fold
  induction run.priorities generalizing run with
  | nil => exact contained_pure above.1
  | cons priority rest ih =>
      exact contained_bind (contained_combineAt step priority above.1 above.2) fun _ next => ih next

end Fold

theorem runs_above {links : List (Option Chosen × ItemId)} :
    ∀ {node : ItemId}, floor ≤ node → (∀ link ∈ links, floor ≤ link.2) →
      ∀ run ∈ (Run.split node links).1 :: (Run.split node links).2, RunAbove floor run := by
  induction links with
  | nil => simp [Run.split, RunAbove]
  | cons link rest ih =>
      obtain ⟨chosen, next⟩ := link
      intro node above all
      have later := ih (all _ List.mem_cons_self) fun link member =>
        all link (List.mem_cons_of_mem _ member)
      cases chosen with
      | none =>
          simp only [Run.split, List.forall_mem_cons] at later ⊢
          exact ⟨⟨above, by simp⟩, later⟩
      | some chosen =>
          simp only [Run.split, List.forall_mem_cons] at later ⊢
          exact ⟨⟨above, List.forall_mem_cons.mpr later.1⟩, later.2⟩

theorem contained_foldSlots {slots : List Slot} (all : ∀ slot ∈ slots, floor ≤ slot.operand) :
    Contained floor (fun nodes => ∀ node ∈ nodes, floor ≤ node) (foldSlots slots) := by
  refine contained_bind (P := fun nodes => ∀ node ∈ nodes, floor ≤ node.2) ?_ fun nodes above => ?_
  · refine contained_mapM (fun slot good => ?_) all
    exact contained_bind (contained_applyUnary good) fun node aboveNode => contained_pure aboveNode
  · split
    · exact contained_pure (by simp)
    · rename_i first rest
      have aboveFirst := above _ List.mem_cons_self
      have aboveRest := fun link member => above link (List.mem_cons_of_mem _ member)
      refine contained_mapM (P := RunAbove floor) (fun run good => ?_) (runs_above aboveFirst aboveRest)
      exact contained_fold (fun chosen left right => contained_createOperator chosen left right) good

theorem contained_createSeries {items : List ItemId} :
    Contained floor (fun id => floor ≤ id) (createSeries items) := by
  refine contained_bind contained_forest fun _ _ => ?_
  refine contained_bind contained_create fun series above => ?_
  refine contained_bind (P := fun _ => True) ?_ fun _ _ => contained_pure above
  exact contained_forM fun _ _ => contained_addChild above

theorem contained_addFaults {faults : List Fault} (calm : ∀ fault ∈ faults, fault.critical = false) :
    Contained floor (fun _ => True) (faults.forM addFault) := by
  refine contained_forM fun fault member s holds => ?_
  refine ends_ok rfl ⟨trivial, above_of_eq holds rfl rfl, [fault], rfl, ?_⟩
  simpa using calm fault member

theorem contained_resolve {terms : List Term} (above : ∀ item, Term.operand item ∈ terms → floor ≤ item) :
    Contained floor (fun found => ∀ item ∈ found, floor ≤ item) (resolve terms) := by
  refine contained_bind contained_forest fun forest _ => ?_
  dsimp only
  have slots : ∀ slot ∈ (Reading.ofTerms forest.start terms).slots.reverse, floor ≤ slot.operand := by
    intro slot member
    refine above _ (Reading.operand_mem_of_slot (forest.start) ?_)
    simpa using member
  have calm := Reading.faults_ofTerms forest.start terms
  refine contained_bind (contained_addFaults fun fault member => (calm fault member).1) fun _ _ => ?_
  split
  · exact contained_pure (by simp)
  · refine contained_bind (contained_foldSlots slots) fun nodes aboveNodes => ?_
    split
    · exact contained_pure (by simpa using aboveNodes)
    · refine contained_bind (P := fun _ => True) ?_ fun infos _ => ?_
      · refine (contained_mapM (P := fun _ => True) (Q := fun _ => True) ?_ ?_).imp fun _ _ => trivial
        · exact fun chosen _ => (contained_createInfo chosen).imp fun _ _ => trivial
        · exact fun _ _ => trivial
      · refine contained_bind contained_createSeries fun series aboveSeries => ?_
        exact contained_pure (by simpa using aboveSeries)

end ExprLang.Parse
