import ExprLang.Proofs.Fields.Steps
import ExprLang.Proofs.Readings

/-!
Operator items. Each operator of a slot is of the kind that its place asks for, whatever the row is, so
an item is made with one operand or two as its kind demands.
-/

namespace ExprLang

/-! The slots of a reading -/

namespace Reading

/-- Each operator of a slot is of the kind that its place asks for. -/
def Picks (reading : Reading) : Prop := ∀ slot ∈ reading.slots, slot.Picks

variable {reading : Reading}

theorem Picks.of_slots {other : Reading} (picks : reading.Picks)
    (same : other.slots = reading.slots) : other.Picks := by
  rw [Picks, same]
  exact picks

theorem Picks.report (picks : reading.Picks) (start length : Nat) (cause : Fault.Cause) :
    (reading.report start length cause).Picks := picks

theorem Picks.leaveOver (picks : reading.Picks) (written : List OperatorMatch) :
    (reading.leaveOver written).Picks := picks

theorem Picks.addPostfixes (picks : reading.Picks) {written : List OperatorMatch}
    (possible : ∀ w ∈ written, w.canBe .postfixOp = true) :
    (reading.addPostfixes (written.map (.ofKind .postfixOp))).Picks := by
  unfold Reading.addPostfixes
  split
  · exact picks
  · rename_i slot before slots
    rw [Picks, slots] at picks
    obtain ⟨first, rest⟩ := List.forall_mem_cons.mp picks
    refine List.forall_mem_cons.mpr ⟨⟨first.prefixes, fun chosen member => ?_, first.link⟩, rest⟩
    exact (List.mem_append.mp member).elim (first.postfixes chosen) (Chosen.picks_map possible chosen)

theorem Picks.addSlot (picks : reading.Picks) {slot : Slot} (slotPicks : slot.Picks) :
    (reading.addSlot slot).Picks := List.forall_mem_cons.mpr ⟨slotPicks, picks⟩

theorem Slot.picks_of_prefixes {operand : ItemId} {written : List OperatorMatch}
    (possible : ∀ w ∈ written, w.canBe .prefixOp = true) :
    Slot.Picks { operand, prefixes := written.map (.ofKind .prefixOp) } :=
  ⟨Chosen.picks_map possible, by simp, by simp⟩

theorem Picks.startRun (picks : reading.Picks) (operand : ItemId) :
    (reading.startRun operand).Picks := by
  obtain ⟨_, possible⟩ := splitPrefixes_spec reading.gap
  exact (picks.of_slots (slots_withoutOperand _ _)).addSlot (Slot.picks_of_prefixes possible)

theorem Picks.goOn (picks : reading.Picks) (operand : ItemId) (start : Nat) :
    (reading.goOn operand start).Picks := by
  unfold Reading.goOn
  split
  · split
    · rename_i gap found
      obtain ⟨postfixes, binary, prefixes, _, rfl, canPostfix, canBinary, canPrefix⟩ :=
        readGap_spec found
      refine (picks.addPostfixes canPostfix).addSlot ⟨Chosen.picks_map canPrefix, by simp, ?_⟩
      intro chosen isLink
      obtain rfl := Option.some.inj isLink
      exact Chosen.picks_ofKind canBinary
    · rename_i first last _ _ _ _
      obtain ⟨_, canPostfix⟩ := splitPostfixes_spec reading.gap
      obtain ⟨_, canPrefix⟩ := splitPrefixes_spec (splitPostfixes reading.gap).2
      have cut := picks.report first.start (last.stop - first.start) .binaryOperatorMissing
      exact (((cut.addPostfixes canPostfix).leaveOver _).addSlot (Slot.picks_of_prefixes canPrefix))
  · exact (picks.report _ _ _).addSlot ⟨by simp, by simp, by simp⟩

theorem Picks.endRun (picks : reading.Picks) : reading.endRun.Picks := by
  have ended : Picks { reading with gap := [], running := false } := picks
  unfold Reading.endRun
  dsimp only
  split
  · obtain ⟨_, canPostfix⟩ := splitPostfixes_spec reading.gap
    exact (ended.addPostfixes canPostfix).of_slots (slots_withoutOperand _ _)
  · exact ended.of_slots (slots_withoutOperand _ _)

theorem Picks.add (startOf : ItemId → Nat) (picks : reading.Picks) (term : Term) :
    (reading.add startOf term).Picks := by
  cases term with
  | operators written => exact picks
  | stray item => exact picks.endRun
  | operand item =>
      unfold Reading.add
      dsimp only
      split
      · exact picks.goOn item _
      · exact picks.startRun item

theorem picks_ofTerms (startOf : ItemId → Nat) (terms : List Term) :
    (ofTerms startOf terms).Picks := by
  have folded : ∀ reading : Reading, reading.Picks → (terms.foldl (add startOf) reading).Picks := by
    induction terms with
    | nil => exact fun _ picks => picks
    | cons term rest ih => exact fun _ picks => ih _ (picks.add startOf term)
  exact (folded {} (by simp [Picks])).endRun

end Reading

/-! Items -/

namespace Parse

open Forest (Filled IsComplex Built Finished)

variable {known : List ItemId}

theorem fills_createInfo (chosen : Chosen) : Fills known (fun id => [id]) (createInfo chosen) := by
  refine fills_made (fun _ _ _ => trivial) rfl fun info => ?_
  refine adds_bind (P := fun _ => True) (adds_forM fun part _ => ?_) fun _ _ => adds_pure rfl
  exact adds_bind (adds_of_fills fills_createToken) fun _ _ => adds_attach

/-- An operator item with as many operands as its kind demands. -/
theorem fills_createOperator {chosen : Chosen} {operand : ItemId} {right : Option ItemId}
    (fits : right.isSome = true ↔ chosen.operator.kind = .binary) :
    Fills known (fun id => [id]) (createOperator chosen operand right) := by
  refine fills_bind (fills_createInfo chosen) fun info s closed _ => ?_
  refine ends_made closed fun t made _ => ?_
  dsimp only
  split
  · rename_i isPrefix
    have single : right = none := by simpa [isPrefix] using fits
    refine Ends.bind (ends_addRegular_built made) ?_ fun _ _ _ => trivial
    intro _ u reached
    refine Ends.bind (ends_addChild_built reached.2) ?_ fun _ _ _ => trivial
    intro _ v reached
    refine ends_pure ⟨rfl, ⟨_, _, _, reached.2, ?_, rfl⟩⟩
    rw [isPrefix]
    exact ⟨single, rfl⟩
  · rename_i isPostfix
    have single : right = none := by simpa [isPostfix] using fits
    refine Ends.bind (ends_addChild_built made) ?_ fun _ _ _ => trivial
    intro _ u reached
    refine Ends.bind (ends_addRegular_built reached.2) ?_ fun _ _ _ => trivial
    intro _ v reached
    refine ends_pure ⟨rfl, ⟨_, _, _, reached.2, ?_, rfl⟩⟩
    rw [isPostfix]
    exact ⟨single, rfl⟩
  · rename_i isBinary
    obtain ⟨other, rfl⟩ := Option.isSome_iff_exists.mp (fits.mpr isBinary)
    refine Ends.bind (ends_addChild_built made) ?_ fun _ _ _ => trivial
    intro _ u reached
    refine Ends.bind (ends_addRegular_built reached.2) ?_ fun _ _ _ => trivial
    intro _ v reached
    refine Ends.bind (ends_addChild_built reached.2) ?_ fun _ _ _ => trivial
    intro _ w reached
    refine ends_pure ⟨rfl, ⟨_, _, _, reached.2, ?_, rfl⟩⟩
    rw [isBinary]
    exact ⟨other, rfl, rfl⟩

theorem fills_applyUnary {slot : Slot} (picks : slot.Picks) (operand : slot.operand ∈ known) :
    Fills known (fun id => [id]) (applyUnary slot) := by
  refine fills_foldlM (fun chosen member node => fills_createOperator ?_) operand
  rcases picks.fits.unary chosen member with isPrefix | isPostfix
  · simp [eq_of_beq isPrefix]
  · simp [eq_of_beq isPostfix]

theorem fills_combine {chosen : Chosen} (isBinary : chosen.operator.kind = .binary)
    (left right : ItemId) : Fills known (fun id => [id]) (combine chosen left right) :=
  fills_createOperator (by simp [isBinary])

/-! Runs -/

/-- The operators between the nodes of a run are binary ones. -/
def IsRun (run : Run ItemId) : Prop := ∀ link ∈ run.links, link.1.operator.kind = .binary

/-- The nodes of a run. -/
def runNodes (run : Run ItemId) : List ItemId := run.first :: run.links.map (·.2)

theorem ends_combineAt_fills (priority : Int) {links : List (Chosen × ItemId)} :
    ∀ {left : ItemId} {s : ParseState}, s.forest.Closed →
      (∀ link ∈ links, link.1.operator.kind = .binary) →
      (∀ id ∈ runNodes ⟨left, links⟩, s.forest.IsComplex id) →
      Ends (Run.combineAt combine priority left links) s
        (fun run t => IsRun run ∧ (∀ id ∈ runNodes run, t.forest.IsComplex id) ∧
          Filled [] s.forest t.forest) fun _ _ => True := by
  induction links with
  | nil =>
      intro left s closed _ complex
      exact ends_pure ⟨by simp [IsRun], complex, Forest.filled_refl closed (by simp)⟩
  | cons link rest ih =>
      obtain ⟨chosen, right⟩ := link
      intro left s closed binary complex
      obtain ⟨isBinary, binaryRest⟩ := List.forall_mem_cons.mp binary
      obtain ⟨complexLeft, complexRest⟩ := List.forall_mem_cons.mp complex
      unfold Run.combineAt
      split
      · refine Ends.bind ((fills_combine isBinary left right : Fills [] _ _) s closed (by simp)) ?_
          fun _ _ _ => trivial
        intro node t reached
        obtain ⟨complexNode, filled⟩ := reached
        have complexHere : ∀ id ∈ runNodes ⟨node, rest⟩, t.forest.IsComplex id :=
          List.forall_mem_cons.mpr ⟨complexNode node (by simp), fun id member =>
            (complexRest id (List.mem_cons_of_mem _ member)).stays filled⟩
        refine (ih filled.closed binaryRest complexHere).imp ?_ fun _ _ _ => trivial
        exact fun run u reached => ⟨reached.1, reached.2.1, filled.trans reached.2.2⟩
      · refine Ends.bind (ih closed binaryRest complexRest) ?_ fun _ _ _ => trivial
        intro run t reached
        obtain ⟨isRun, complexRun, filled⟩ := reached
        refine ends_pure ⟨List.forall_mem_cons.mpr ⟨isBinary, isRun⟩, ?_, filled⟩
        exact List.forall_mem_cons.mpr ⟨complexLeft.stays filled, complexRun⟩

theorem fills_fold {run : Run ItemId} (isRun : IsRun run) (nodes : runNodes run ⊆ known) :
    Fills known (fun id => [id]) (Run.fold combine run) := by
  intro s closed complex
  have complexRun : ∀ id ∈ runNodes run, s.forest.IsComplex id := fun id member =>
    complex id (nodes member)
  clear complex nodes
  unfold Run.fold
  induction run.priorities generalizing run s with
  | nil =>
      refine ends_pure ⟨fun id member => ?_, Forest.filled_refl closed (by simp)⟩
      exact List.mem_singleton.mp member ▸ complexRun run.first List.mem_cons_self
  | cons priority rest ih =>
      refine Ends.bind (ends_combineAt_fills priority closed isRun complexRun) ?_ fun _ _ _ => trivial
      intro next t reached
      obtain ⟨isRunNext, complexNext, filled⟩ := reached
      refine (ih isRunNext t filled.closed complexNext).imp ?_ fun _ _ _ => trivial
      exact fun node u reached => ⟨reached.1, filled.trans reached.2⟩

/-- Nodes with what links each to the one before. -/
def Linked (nodes : List (Option Chosen × ItemId)) : Prop :=
  ∀ node ∈ nodes, ∀ chosen ∈ node.1, chosen.operator.kind = .binary

theorem isRun_split {links : List (Option Chosen × ItemId)} (linked : Linked links) :
    ∀ node : ItemId, ∀ run ∈ (Run.split node links).1 :: (Run.split node links).2,
      IsRun run ∧ runNodes run ⊆ node :: links.map (·.2) := by
  induction links with
  | nil => simp [Run.split, IsRun, runNodes]
  | cons link rest ih =>
      obtain ⟨chosen, next⟩ := link
      obtain ⟨binary, linkedRest⟩ := List.forall_mem_cons.mp linked
      intro node
      obtain ⟨⟨isRun, nodes⟩, later⟩ := List.forall_mem_cons.mp (ih linkedRest next)
      have laterHere : ∀ run ∈ (Run.split next rest).2,
          IsRun run ∧ runNodes run ⊆ node :: next :: rest.map (·.2) := fun run member =>
        ⟨(later run member).1, fun id inRun => List.mem_cons_of_mem _ ((later run member).2 inRun)⟩
      cases chosen with
      | none =>
          refine List.forall_mem_cons.mpr ⟨⟨by simp [IsRun, Run.split], by simp [runNodes, Run.split]⟩, ?_⟩
          refine List.forall_mem_cons.mpr ⟨⟨isRun, fun id inRun => ?_⟩, laterHere⟩
          exact List.mem_cons_of_mem _ (nodes inRun)
      | some chosen =>
          refine List.forall_mem_cons.mpr ⟨⟨?_, ?_⟩, laterHere⟩
          · exact List.forall_mem_cons.mpr ⟨binary chosen rfl, isRun⟩
          · exact List.cons_subset_cons node nodes

/-- The slots become nodes, one after another. -/
theorem ends_slotNodes {slots : List Slot} : ∀ {s : ParseState}, s.forest.Closed →
    (∀ slot ∈ slots, slot.Picks) → (∀ slot ∈ slots, s.forest.IsComplex slot.operand) →
    Ends (slots.mapM fun slot => do return (slot.link, ← applyUnary slot) :
        Parse (List (Option Chosen × ItemId))) s
      (fun nodes t => Linked nodes ∧ (∀ id ∈ nodes.map (·.2), t.forest.IsComplex id) ∧
        Filled [] s.forest t.forest) fun _ _ => True := by
  induction slots with
  | nil =>
      intro s closed _ _
      rw [List.mapM_nil]
      exact ends_pure ⟨by simp [Linked], by simp, Forest.filled_refl closed (by simp)⟩
  | cons slot rest ih =>
      intro s closed picks complex
      obtain ⟨slotPicks, picksRest⟩ := List.forall_mem_cons.mp picks
      obtain ⟨complexSlot, complexRest⟩ := List.forall_mem_cons.mp complex
      rw [List.mapM_cons, bind_assoc]
      have first := fills_applyUnary slotPicks (List.mem_singleton.mpr rfl) s closed
        (by simpa using complexSlot)
      refine Ends.bind first ?_ fun _ _ _ => trivial
      intro node t reached
      obtain ⟨complexNode, filled⟩ := reached
      rw [pure_bind]
      refine Ends.bind (ih filled.closed picksRest fun slot member =>
        (complexRest slot member).stays filled) ?_ fun _ _ _ => trivial
      intro nodes u reached
      obtain ⟨linked, complexNodes, filledRest⟩ := reached
      refine ends_pure ⟨?_, ?_, filled.trans filledRest⟩
      · exact List.forall_mem_cons.mpr ⟨fun chosen isLink => (slotPicks.link chosen isLink).kind, linked⟩
      · exact List.forall_mem_cons.mpr ⟨(complexNode node (by simp)).stays filledRest, complexNodes⟩

theorem fills_foldSlots {slots : List Slot} (picks : ∀ slot ∈ slots, slot.Picks)
    (operands : slots.map (·.operand) ⊆ known) :
    Fills known (fun nodes => nodes) (foldSlots slots) := by
  intro s closed complex
  unfold foldSlots
  refine Ends.bind (ends_slotNodes closed picks fun slot member =>
    complex _ (operands (List.mem_map_of_mem member))) ?_ fun _ _ _ => trivial
  intro nodes t reached
  obtain ⟨linked, complexNodes, filled⟩ := reached
  split
  · exact ends_pure ⟨by simp, filled⟩
  · rename_i link first rest
    refine ends_after filled ?_
    have runs := isRun_split (fun node member => linked node (List.mem_cons_of_mem _ member)) first
    have folded : Fills (first :: rest.map (·.2)) (fun nodes => nodes.flatMap fun id => [id])
        (((Run.split first rest).1 :: (Run.split first rest).2).mapM (Run.fold combine)) :=
      fills_mapM fun run member => fills_fold (runs run member).1 (runs run member).2
    exact folded.imp (by simp) t filled.closed (by simpa using complexNodes)

/-! Segments -/

theorem fills_createSeries {items : List ItemId} :
    Fills known (fun id => [id]) (createSeries items) := by
  refine fills_bind fills_forest fun forest => ?_
  refine fills_made (fun _ _ _ => trivial) rfl fun series => ?_
  exact adds_bind (P := fun _ => True) (adds_forM fun _ _ => adds_attach) fun _ _ => adds_pure rfl

theorem fills_resolve {terms : List Term} (operands : terms.filterMap Term.operand? ⊆ known) :
    Fills known (fun found => found.toList) (resolve terms) := by
  refine fills_bind fills_forest fun forest => ?_
  dsimp only
  have picks := Reading.picks_ofTerms forest.start terms
  have inKnown : (Reading.ofTerms forest.start terms).slots.reverse.map (·.operand) ⊆ known := by
    rw [List.map_reverse]
    exact fun id member => operands (Reading.operands_ofTerms forest.start terms ▸ member)
  refine fills_bind (fills_forM fun _ _ => fills_addFault) fun _ => ?_
  split
  · exact fills_pure (List.nil_subset _)
  · refine fills_bind (fills_foldSlots (fun slot member => picks slot (List.mem_reverse.mp member))
      inKnown) fun nodes => ?_
    split
    · exact fills_pure (by simp)
    · refine fills_bind (fills_mapM fun chosen _ => fills_createInfo chosen) fun infos => ?_
      exact fills_bind fills_createSeries fun series => fills_pure (by simp)

end Parse

end ExprLang
