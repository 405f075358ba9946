import ExprLang.Proofs.Tandem.Resolve

/-!
No word of an operator is lost: at the end of a segment each of them becomes a token. So what is known
of the tokens of a document is known of the words of its operators before they are tokens.
-/

namespace ExprLang

open Parse
open ParseState (Later)

variable {α β : Type}

/-- A token stands where the word does. -/
def Tokened (t : ParseState) (word : Nat × String) : Prop :=
  ∃ id item, t.forest.get? id = some item ∧ item.isToken = true ∧ item.start = word.1 ∧
    item.length = word.2.length

theorem Tokened.later {s t : ParseState} {word : Nat × String} (tokened : Tokened s word)
    (grown : Later s t) : Tokened t word := by
  obtain ⟨id, item, found, isToken, start, length⟩ := tokened
  obtain ⟨other, there, start', length', isToken'⟩ := grown.items id item found
  exact ⟨id, other, there, isToken'.trans isToken, start'.trans start, length'.trans length⟩

/-- The operator stands around the operand or links it to the one before. -/
def Slot.Has (slot : Slot) (chosen : Chosen) : Prop :=
  slot.link = some chosen ∨ chosen ∈ slot.prefixes ∨ chosen ∈ slot.postfixes

namespace Parse

/-- The step makes a token of the word. -/
def Writes (word : Nat × String) (step : Parse α) : Prop :=
  ∀ s, Ends step s (fun _ t => Tokened t word) fun _ _ => True

section Rules

variable {word : Nat × String} {step : Parse α} {next : α → Parse β}

theorem writes_bind (first : Writes word step) (rest : ∀ value, Growing (next value)) :
    Writes word (step >>= next) := by
  intro s
  apply (first s).bind
  · exact fun value t tokened =>
      (rest value t).imp (fun _ _ grown => tokened.later grown) fun _ _ _ => trivial
  · exact fun _ _ _ => trivial

theorem writes_then (rest : ∀ value, Writes word (next value)) : Writes word (step >>= next) := by
  intro s
  apply (Tandem.ends_somehow step s).bind
  · exact fun value t _ => rest value t
  · exact fun _ _ _ => trivial

theorem writes_forM {list : List α} {body : α → Parse Unit} {value : α} (member : value ∈ list)
    (writes : Writes word (body value)) (grows : ∀ value, Growing (body value)) :
    Writes word (list.forM body) := by
  induction list with
  | nil => cases member
  | cons other rest ih =>
      rcases List.mem_cons.mp member with rfl | later
      · exact writes_bind writes fun _ => growing_forM grows
      · exact writes_then fun _ => ih later

theorem writes_mapM {list : List α} {body : α → Parse β} {value : α} (member : value ∈ list)
    (writes : Writes word (body value)) (grows : ∀ value, Growing (body value)) :
    Writes word (list.mapM body) := by
  induction list with
  | nil => cases member
  | cons other rest ih =>
      rw [List.mapM_cons]
      rcases List.mem_cons.mp member with rfl | later
      · exact writes_bind writes fun _ => growing_bind (growing_mapM grows) fun _ => growing_pure _
      · exact writes_then fun _ => writes_bind (ih later) fun _ => growing_pure _

theorem writes_foldlM {list : List α} {body : β → α → Parse β} {start : β} (value : α)
    (member : value ∈ list) (writes : ∀ before, Writes word (body before value))
    (grows : ∀ before value, Growing (body before value)) : Writes word (list.foldlM body start) := by
  induction list generalizing start with
  | nil => cases member
  | cons other rest ih =>
      rw [List.foldlM_cons]
      rcases List.mem_cons.mp member with rfl | later
      · exact writes_bind (writes start) fun _ => growing_foldlM grows
      · exact writes_then fun _ => ih later

theorem writes_createToken (kind : TokenKind) (start : Nat) (text : String) :
    Writes (start, text) (createToken kind text start) := fun s =>
  ends_ok rfl ⟨s.forest.size, _, Forest.get_push_new _, rfl, rfl, rfl⟩

end Rules

/-! Operators -/

theorem growing_createInfo (chosen : Chosen) : Growing (createInfo chosen) := by
  apply growing_bind (growing_create _ _)
  intro info
  refine growing_bind (growing_forM fun word => ?_) fun _ => growing_pure info
  exact growing_bind (growing_createToken _ _ _) fun token => growing_addRegular info token

theorem growing_createOperator (chosen : Chosen) (operand : ItemId) (right : Option ItemId) :
    Growing (createOperator chosen operand right) := by
  apply growing_bind (growing_createInfo chosen)
  intro info
  apply growing_bind (growing_create _ _)
  intro item
  cases chosen.operator.kind with
  | prefixOp => exact growing_bind (growing_addRegular item info) (by simp)
  | postfixOp => exact growing_bind (growing_addChild item operand) (by simp)
  | binary =>
      apply growing_bind (growing_addChild item operand)
      intro _
      apply growing_bind (growing_addRegular item info)
      intro _
      exact growing_bind (growing_option_forM (growing_addChild item)) fun _ => growing_pure item

theorem growing_applyUnary (slot : Slot) : Growing (applyUnary slot) :=
  growing_foldlM fun node chosen => growing_createOperator chosen node none

theorem growing_combineAt (priority : Int) (links : List (Chosen × ItemId)) :
    ∀ left, Growing (Run.combineAt combine priority left links) := by
  induction links with
  | nil => exact fun left => growing_pure _
  | cons link rest ih =>
      obtain ⟨chosen, right⟩ := link
      intro left
      unfold Run.combineAt
      apply growing_ite
      · exact growing_bind (growing_createOperator _ _ _) ih
      · exact growing_bind (ih right) fun _ => growing_pure _

theorem growing_foldAt (priorities : List Int) :
    ∀ run : Run ItemId, Growing (Run.foldAt combine priorities run) := by
  induction priorities with
  | nil => exact fun run => growing_pure _
  | cons priority rest ih =>
      exact fun run => growing_bind (growing_combineAt priority run.links run.first) ih

theorem growing_createSeries (items : List ItemId) : Growing (createSeries items) := by
  apply growing_bind growing_forest
  intro forest
  apply growing_bind (growing_create _ _)
  intro series
  exact growing_bind (growing_forM (growing_addChild series)) fun _ => growing_pure series

theorem growing_buildSeries (nodes : List ItemId) (operators : List Chosen) (items : List ItemId) :
    Growing (Tandem.buildSeries nodes operators items) := by
  apply growing_bind (growing_mapM growing_createInfo)
  intro infos
  exact growing_bind (growing_createSeries _) fun _ => growing_pure _

/-! Words of one operator -/

section Chosen

variable {chosen : Chosen} {word : Nat × String} (member : word ∈ chosen.written.parts)

include member

theorem writes_createInfo : Writes word (createInfo chosen) := by
  apply writes_then
  intro info
  refine writes_bind (writes_forM member ?_ fun part => ?_) fun _ => growing_pure info
  · exact writes_bind (writes_createToken _ _ _) fun token => growing_addRegular info token
  · exact growing_bind (growing_createToken _ _ _) fun token => growing_addRegular info token

theorem writes_createOperator (operand : ItemId) (right : Option ItemId) :
    Writes word (createOperator chosen operand right) := by
  rw [Tandem.createOperator_eq]
  apply writes_bind (writes_createInfo member)
  intro info
  apply growing_bind (growing_create _ _)
  intro item
  cases chosen.operator.kind with
  | prefixOp => exact growing_bind (growing_addRegular item info) (by simp)
  | postfixOp => exact growing_bind (growing_addChild item operand) (by simp)
  | binary =>
      apply growing_bind (growing_addChild item operand)
      intro _
      apply growing_bind (growing_addRegular item info)
      intro _
      exact growing_bind (growing_option_forM (growing_addChild item)) fun _ => growing_pure item

theorem writes_applyUnary {slot : Slot} (unary : chosen ∈ slot.prefixes ∨ chosen ∈ slot.postfixes) :
    Writes word (applyUnary slot) := by
  apply writes_foldlM chosen
  · rw [unaryOrder, (mergeBy_perm _ _).mem_iff, List.mem_append, List.mem_reverse]
    exact unary
  · exact fun node => writes_createOperator member node none
  · exact fun node other => growing_createOperator other node none

/-- An operator between two nodes is taken at its priority, or stands there still. -/
theorem ends_combineAt_words (priority : Int) {links : List (Chosen × ItemId)}
    (linked : ∃ right, (chosen, right) ∈ links) : ∀ left s,
    Ends (Run.combineAt combine priority left links) s
      (fun run t => Tokened t word ∨
        chosen.operator.priority ≠ priority ∧ ∃ right, (chosen, right) ∈ run.links)
      fun _ _ => True := by
  induction links with
  | nil =>
      obtain ⟨_, isLink⟩ := linked
      cases isLink
  | cons link rest ih =>
      obtain ⟨other, right⟩ := link
      obtain ⟨node, isLink⟩ := linked
      intro left s
      unfold Run.combineAt
      split
      · rename_i here
        rcases List.mem_cons.mp isLink with same | later
        · cases same
          apply (writes_createOperator member left (some right) s).bind
          · exact fun made t tokened => (growing_combineAt priority rest made t).imp
              (fun _ _ grown => Or.inl (tokened.later grown)) fun _ _ _ => trivial
          · exact fun _ _ _ => trivial
        · apply (Tandem.ends_somehow _ s).bind
          · exact fun made t _ => ih ⟨node, later⟩ made t
          · exact fun _ _ _ => trivial
      · rename_i elsewhere
        rcases List.mem_cons.mp isLink with same | later
        · cases same
          apply (Tandem.ends_somehow _ s).bind
          · exact fun run t _ => ends_pure (Or.inr ⟨elsewhere, _, List.mem_cons_self⟩)
          · exact fun _ _ _ => trivial
        · apply (ih ⟨node, later⟩ right s).bind
          · intro run t holds
            refine ends_pure (holds.imp_right ?_)
            rintro ⟨different, next, isLink⟩
            exact ⟨different, next, List.mem_cons_of_mem _ isLink⟩
          · exact fun _ _ _ => trivial

theorem writes_foldAt {priorities : List Int} (listed : chosen.operator.priority ∈ priorities) :
    ∀ run : Run ItemId, (∃ right, (chosen, right) ∈ run.links) →
      Writes word (Run.foldAt combine priorities run) := by
  induction priorities with
  | nil => cases listed
  | cons priority rest ih =>
      intro run linked s
      unfold Run.foldAt
      apply (ends_combineAt_words member priority linked run.first s).bind
      · rintro next t (tokened | ⟨different, linked⟩)
        · exact (growing_foldAt rest next t).imp (fun _ _ grown => tokened.later grown)
            fun _ _ _ => trivial
        · exact ih ((List.mem_cons.mp listed).resolve_left different) next linked t
      · exact fun _ _ _ => trivial

theorem writes_fold {run : Run ItemId} (linked : ∃ right, (chosen, right) ∈ run.links) :
    Writes word (Run.fold combine run) := by
  refine writes_foldAt member ?_ run linked
  obtain ⟨right, isLink⟩ := linked
  rw [Run.priorities, List.mem_eraseDups, sortBy_perm.mem_iff]
  exact List.mem_map_of_mem isLink

end Chosen

/-! Words of a segment -/

/-- No link of a row is lost when it is split. -/
theorem linked_split {chosen : Chosen} {nodes : List (Option Chosen × ItemId)}
    (linked : ∃ node ∈ nodes, node.1 = some chosen) : ∀ first : ItemId,
    ∃ run ∈ (Run.split first nodes).1 :: (Run.split first nodes).2,
      ∃ right, (chosen, right) ∈ run.links := by
  induction nodes with
  | nil =>
      obtain ⟨_, isNode, _⟩ := linked
      cases isNode
  | cons node rest ih =>
      obtain ⟨link, next⟩ := node
      obtain ⟨other, isNode, isLink⟩ := linked
      intro first
      rcases List.mem_cons.mp isNode with rfl | later
      · obtain rfl : link = some chosen := isLink
        exact ⟨_, List.mem_cons_self, _, List.mem_cons_self⟩
      · obtain ⟨run, isRun, right, inRun⟩ := ih ⟨other, later, isLink⟩ next
        cases link with
        | none => exact ⟨run, List.mem_cons_of_mem _ isRun, right, inRun⟩
        | some before =>
            rcases List.mem_cons.mp isRun with rfl | inRest
            · exact ⟨_, List.mem_cons_self, right, List.mem_cons_of_mem _ inRun⟩
            · exact ⟨run, List.mem_cons_of_mem _ inRest, right, inRun⟩

theorem ends_mapM_links (slots : List Slot) (s : ParseState) :
    Ends (slots.mapM fun slot => do return (slot.link, ← applyUnary slot)) s
      (fun nodes _ => nodes.map Prod.fst = slots.map (·.link)) fun _ _ => True := by
  induction slots generalizing s with
  | nil => exact ends_pure rfl
  | cons slot rest ih =>
      rw [List.mapM_cons, bind_assoc]
      apply (Tandem.ends_somehow _ s).bind
      · intro id t _
        apply (ih t).bind
        · exact fun nodes u links => ends_pure (by simp [links])
        · exact fun _ _ _ => trivial
      · exact fun _ _ _ => trivial

theorem writes_foldSlots {slots : List Slot} {slot : Slot} {chosen : Chosen} {word : Nat × String}
    (unlinked : ∀ first ∈ slots.head?, first.link = none) (isSlot : slot ∈ slots)
    (has : slot.Has chosen) (member : word ∈ chosen.written.parts) :
    Writes word (foldSlots slots) := by
  rw [foldSlots_eq]
  rcases has with isLink | unary
  · intro s
    apply (ends_mapM_links slots s).bind
    · intro nodes t links
      cases nodes with
      | nil =>
          rw [List.map_eq_nil_iff.mp links.symm] at isSlot
          cases isSlot
      | cons node rest =>
          cases slots with
          | nil => cases isSlot
          | cons first others =>
              rcases List.mem_cons.mp isSlot with rfl | later
              · rw [unlinked slot rfl] at isLink
                cases isLink
              · have linked : ∃ node ∈ rest, node.1 = some chosen := by
                  have isFirst : some chosen ∈ rest.map Prod.fst := by
                    rw [(List.cons_eq_cons.mp links).2, ← isLink]
                    exact List.mem_map_of_mem later
                  exact List.mem_map.mp isFirst
                obtain ⟨run, isRun, inRun⟩ := linked_split linked node.2
                exact writes_mapM isRun (writes_fold member inRun)
                  (fun run => growing_foldAt run.priorities run) t
    · exact fun _ _ _ => trivial
  · apply writes_bind
    · apply writes_mapM isSlot
      · exact writes_bind (writes_applyUnary member unary) fun _ => growing_pure _
      · exact fun slot => growing_bind (growing_applyUnary slot) fun _ => growing_pure _
    · exact fun nodes => growing_mapM fun run => growing_foldAt run.priorities run

theorem growing_rest (isWhole : Bool) (operators : List Chosen) (items nodes : List ItemId) :
    Growing (match nodes, isWhole with
      | [node], true => pure (some node)
      | _, _ => Tandem.buildSeries nodes operators items) := by
  split
  · exact growing_pure _
  · exact growing_buildSeries _ _ _

theorem mem_parts_of_held {written : OperatorMatch} {word : Nat × String}
    (held : Held.word word.1 word.2 ∈ written.held) : word ∈ written.parts := by
  obtain ⟨part, inParts, same⟩ := List.mem_map.mp held
  obtain ⟨start, text⟩ := Held.word.inj same
  rwa [← Prod.ext start text]

theorem writes_resolve {terms : List Term} {written : OperatorMatch} {word : Nat × String}
    (filled : ∀ written, .operators written ∈ terms → written.parts ≠ [])
    (isTerm : .operators written ∈ terms) (member : word ∈ written.parts) :
    Writes word (resolve terms) := by
  intro s
  rw [Tandem.resolve_eq]
  simp only [ends_forest_bind]
  obtain ⟨row, arranged⟩ := Reading.arranged_ofTerms s.forest.start filled
  generalize Reading.ofTerms s.forest.start terms = reading at arranged ⊢
  have held : Held.word word.1 word.2 ∈ row.held Slot.held := by
    rw [arranged.held]
    exact List.mem_flatMap.mpr ⟨_, isTerm, List.mem_map.mpr ⟨word, member, rfl⟩⟩
  obtain ⟨placed, inRow, held⟩ := List.mem_flatMap.mp held
  apply (Tandem.ends_somehow _ s).bind _ fun _ _ _ => trivial
  intro _ t _
  cases placed with
  | left id => simp [Placed.held] at held
  -- A loose operator is written into the series.
  | loose chosen =>
      have isLeft : chosen ∈ reading.leftOperators :=
        arranged.looses ▸ Arrangement.mem_looses.mpr inRow
      have filledLeft : reading.leftOperators.isEmpty = false := by
        cases operators : reading.leftOperators with
        | nil => exact absurd (operators ▸ isLeft) List.not_mem_nil
        | cons => rfl
      have notEmpty : reading.isEmpty = false := by simp [Reading.isEmpty, filledLeft]
      have notWhole : reading.isWhole = false := by simp [Reading.isWhole, filledLeft]
      rw [notEmpty, notWhole]
      apply (Tandem.ends_somehow _ t).bind _ fun _ _ _ => trivial
      intro nodes u _
      have series : Writes word (Tandem.buildSeries nodes reading.leftOperators reading.leftItems) := by
        apply writes_bind (writes_mapM isLeft (writes_createInfo (mem_parts_of_held held)) growing_createInfo)
        intro infos
        exact growing_bind (growing_createSeries _) fun _ => growing_pure _
      split
      · rename_i never
        cases never
      · exact series u
  -- The operators of a slot are written when the slots are folded.
  | whole slot =>
      have isSlot : slot ∈ reading.slots.reverse :=
        arranged.slots ▸ Arrangement.mem_wholes.mpr inRow
      have notEmpty : reading.isEmpty = false := by
        cases slots : reading.slots with
        | nil => exact absurd (slots ▸ isSlot) (by simp)
        | cons => simp [Reading.isEmpty, slots]
      rw [notEmpty]
      have unlinked : ∀ first ∈ reading.slots.reverse.head?, first.link = none := by
        intro first isFirst
        obtain ⟨rest, slots⟩ := List.head?_eq_some_iff.mp isFirst
        exact Option.not_isSome_iff_eq_none.mp (arranged.linked.head (arranged.slots.trans slots))
      have has : ∃ chosen, slot.Has chosen ∧ word ∈ chosen.written.parts := by
        simp only [Placed.held, Slot.held, List.mem_append, List.mem_flatMap, Option.mem_toList,
          List.mem_singleton, reduceCtorEq, or_false] at held
        rcases held with (⟨chosen, isLink, inside⟩ | ⟨chosen, isPrefix, inside⟩) |
          ⟨chosen, isPostfix, inside⟩
        · exact ⟨chosen, Or.inl isLink, mem_parts_of_held inside⟩
        · exact ⟨chosen, Or.inr (Or.inl isPrefix), mem_parts_of_held inside⟩
        · exact ⟨chosen, Or.inr (Or.inr isPostfix), mem_parts_of_held inside⟩
      obtain ⟨chosen, has, inside⟩ := has
      exact writes_bind (writes_foldSlots unlinked isSlot has inside)
        (growing_rest reading.isWhole reading.leftOperators reading.leftItems) t

end Parse

end ExprLang
