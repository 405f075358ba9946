import ExprLang.Proofs.Parse.Resolving
import ExprLang.Proofs.Tandem.Enclosed
import ExprLang.Proofs.Tandem.Reading

/-!
Operators of two parses in lockstep: their words become tokens, and the same operators are put around
the same operands in the same order.
-/

namespace ExprLang.Tandem

open Parse
open ParseState (Later)

variable {W : Tandem} {ahead : ParseState → Prop} {s s' t t' : ParseState}
  (lawful : W.Lawful) (heading : W.Heading ahead) {α β γ : Type}

include heading

/-! Rows of steps -/

section Rows

variable {f : γ → α} {carry : β → β} {list : List γ}

theorem lock_foldlM {body : β → γ → Parse β} {body' : β → α → Parse β} {start : β}
    {good : β → ParseState → ParseState → Prop} (given : ahead s → good start s s')
    (each : ∀ value ∈ list, ∀ before t t', Later s t → (ahead t → ahead s ∧ good before t t') →
      W.Locked ahead carry t t' (body before value) (body' (carry before) (f value)) good) :
    W.Locked ahead carry s s' (list.foldlM body start) ((list.map f).foldlM body' (carry start))
      good := by
  induction list generalizing start s s' with
  | nil => exact lock_pure fun isAhead _ => ⟨rfl, given isAhead⟩
  | cons value rest ih =>
      rw [List.map_cons, List.foldlM_cons, List.foldlM_cons]
      apply (each value List.mem_cons_self start s s' (.refl s) fun isAhead =>
        ⟨isAhead, given isAhead⟩).bind heading
      intro next t t' grown known
      apply ih fun isAhead => (known isAhead).2
      intro other member before u u' more both
      exact each other (List.mem_cons_of_mem _ member) before u u' (grown.trans more) fun isAhead =>
        ⟨heading.later (grown.trans more) isAhead, (both isAhead).2⟩

/-- What holds of a value goes on to hold of it. -/
theorem lock_mapM {body : γ → Parse β} {body' : α → Parse β} {holds : γ → β → ParseState → Prop}
    (keeps : ∀ value result t u, Later t u → holds value result t → holds value result u)
    (given : ahead s → W.Near s s')
    (each : ∀ value ∈ list, ∀ t t', Later s t → (ahead t → ahead s ∧ W.Near t t') →
      W.Locked ahead carry t t' (body value) (body' (f value)) fun result u u' =>
        holds value result u ∧ W.Stays t t' u u') :
    W.Locked ahead (List.map carry) s s' (list.mapM body) ((list.map f).mapM body') fun results t t' =>
      List.Forall₂ (fun value result => holds value result t) list results ∧ W.Stays s s' t t' := by
  induction list generalizing s s' with
  | nil => exact lock_pure fun isAhead _ => ⟨rfl, .nil, (given isAhead).stays⟩
  | cons value rest ih =>
      rw [List.map_cons, List.mapM_cons, List.mapM_cons]
      apply (each value List.mem_cons_self s s' (.refl s) fun isAhead =>
        ⟨isAhead, given isAhead⟩).bind heading
      intro result t t' grown first
      have others := @ih t t' (fun isAhead => (first isAhead).2.2.near)
        fun other member u u' more both => each other (List.mem_cons_of_mem _ member) u u'
          (grown.trans more) fun isAhead => ⟨heading.later (grown.trans more) isAhead, (both isAhead).2⟩
      apply others.bind heading
      intro results u u' more known
      refine lock_pure fun isAhead _ => ⟨rfl, ?_⟩
      obtain ⟨isAhead, all, second⟩ := known isAhead
      obtain ⟨_, holds, stays⟩ := first isAhead
      exact ⟨.cons (keeps _ _ _ _ more holds) all, stays.trans second⟩

end Rows

/-- Steps one after another that leave the cursors where they are. -/
theorem lock_then {first first' : Parse Unit} {second second' : Parse β} {carry : β → β}
    {good : β → ParseState → ParseState → Prop}
    (lock : W.Locked ahead id s s' first first' fun _ t t' => W.Stays s s' t t')
    (rest : ∀ t t', Later s t → (ahead t → ahead s ∧ W.Near t t') →
      W.Locked ahead carry t t' second second' fun value u u' => good value u u' ∧ W.Stays t t' u u') :
    W.Locked ahead carry s s' (first >>= fun _ => second) (first' >>= fun _ => second')
      fun value t t' => good value t t' ∧ W.Stays s s' t t' := by
  apply lock.bind heading
  intro _ t t' grown known
  apply (rest t t' grown fun isAhead => ?_).imp
  · exact fun _ u u' more isAhead _ ⟨good, stays⟩ =>
      ⟨good, (known (heading.later more isAhead)).2.trans stays⟩
  · exact ⟨(known isAhead).1, (known isAhead).2.near⟩

/-- An item to which something has been attached. -/
theorem lock_giving {step step' : Parse Unit} {item : Nat} (known : ahead s → Known s item)
    (lock : W.Locked ahead id s s' step step' fun _ t t' => W.Stays s s' t t') :
    W.Locked ahead W.rename s s' (step >>= fun _ => pure item) (step' >>= fun _ => pure (W.rename item))
      fun id t t' => Known t id ∧ W.Stays s s' t t' := by
  apply lock.bind heading
  intro _ t t' grown attached
  refine lock_pure fun isAhead _ => ⟨rfl, ?_⟩
  obtain ⟨isAhead, stays⟩ := attached isAhead
  exact ⟨(known isAhead).later grown, stays⟩

include lawful

/-! Operators -/

omit lawful heading in
theorem Stands.front_start {written : OperatorMatch} (stands : W.Stands written) :
    W.front written.start := by
  cases here : written.parts with
  | nil => exact absurd here stands.1
  | cons first rest =>
      simp only [OperatorMatch.start, here, List.head?_cons, Option.map_some, Option.getD_some]
      exact (stands.2 first (here ▸ List.mem_cons_self)).1

theorem lock_createInfo {chosen : Chosen} (given : ahead s → W.Near s s' ∧ W.Stands chosen.written) :
    W.Locked ahead W.rename s s' (createInfo chosen) (createInfo (W.carryChosen chosen))
      fun id t t' => Known t id ∧ W.Stays s s' t t' := by
  unfold createInfo
  apply (lock_create heading rfl fun isAhead => ?_).bind heading
  · intro info t t' _ created
    apply (lock_forM heading (fun isAhead => (created isAhead).2.2.near) fun part member u u' more known => ?_
      ).bind heading
    · intro _ u u' grown added
      refine lock_pure fun isAhead _ => ⟨rfl, ?_⟩
      obtain ⟨isAhead, second⟩ := added isAhead
      obtain ⟨_, known, first⟩ := created isAhead
      exact ⟨known.later grown, first.trans second⟩
    · obtain ⟨start, word⟩ := part
      apply (lock_createToken heading fun isAhead => ?_).bind heading
      · intro token v v' _ made
        apply (lock_addRegular lawful heading fun isAhead => ?_).imp
        · intro _ w w' last isAhead _ second
          exact (made (heading.later last isAhead)).2.2.1.trans second
        · obtain ⟨isAhead, token, stays, _⟩ := made isAhead
          exact ⟨stays.near, (created (known isAhead).1).2.1.1, token.1⟩
      · obtain ⟨isAhead, near⟩ := known isAhead
        obtain ⟨isAhead, _⟩ := created isAhead
        exact ⟨near, ((given isAhead).2.2 _ member).1, rfl, fun _ => rfl⟩
  · obtain ⟨near, stands⟩ := given isAhead
    exact ⟨near, stands.front_start, start_carryMatch stands.1, rfl⟩

/-- What `createOperator` does with the item that it has made. -/
def placeOperator (kind : OperatorKind) (item info operand : ItemId) (right : Option ItemId) :
    Parse ItemId := do
  match kind with
  | .prefixOp =>
      addRegular item info
      addChild item operand
  | .postfixOp =>
      addChild item operand
      addRegular item info
  | .binary =>
      addChild item operand
      addRegular item info
      right.forM (addChild item)
  return item

omit lawful heading in
theorem createOperator_eq (chosen : Chosen) (operand : ItemId) (right : Option ItemId) :
    createOperator chosen operand right = (do
      let info ← createInfo chosen
      let item ← create (.operator chosen.operator.id chosen.operator.kind chosen.operator.priority info
        operand right) chosen.written.start
      placeOperator chosen.operator.kind item info operand right) := rfl

theorem lock_placeOperator {kind : OperatorKind} {item info operand : Nat} {right : Option ItemId}
    (given : ahead s → W.Near s s' ∧ Known s item ∧ info ≠ 0 ∧ operand ≠ 0 ∧
      ∀ part, right = some part → part ≠ 0) :
    W.Locked ahead W.rename s s' (placeOperator kind item info operand right)
      (placeOperator kind (W.rename item) (W.rename info) (W.rename operand) (right.map W.rename))
      fun id t t' => Known t id ∧ W.Stays s s' t t' := by
  have attachable : ∀ part, (ahead s → part ≠ 0) → ∀ t t', (ahead t → ahead s ∧ W.Near t t') →
      ahead t → W.Near t t' ∧ item ≠ 0 ∧ part ≠ 0 := by
    intro part known t t' there isAhead
    obtain ⟨isAhead, near⟩ := there isAhead
    exact ⟨near, (given isAhead).2.1.1, known isAhead⟩
  have here : ahead s → ahead s ∧ W.Near s s' := fun isAhead => ⟨isAhead, (given isAhead).1⟩
  have itemLater : ∀ t t', Later s t → (ahead t → ahead s ∧ W.Near t t') → ahead t → Known t item :=
    fun t _ grown there isAhead => (given (there isAhead).1).2.1.later grown
  have knownInfo := fun isAhead => (given isAhead).2.2.1
  have knownOperand := fun isAhead => (given isAhead).2.2.2.1
  cases kind with
  | prefixOp =>
      apply lock_then heading (lock_addRegular lawful heading (attachable info knownInfo s s' here))
      intro t t' grown there
      apply lock_giving heading (itemLater t t' grown there)
      exact lock_addChild lawful heading (attachable operand knownOperand t t' there)
  | postfixOp =>
      apply lock_then heading (lock_addChild lawful heading (attachable operand knownOperand s s' here))
      intro t t' grown there
      apply lock_giving heading (itemLater t t' grown there)
      exact lock_addRegular lawful heading (attachable info knownInfo t t' there)
  | binary =>
      apply lock_then heading (lock_addChild lawful heading (attachable operand knownOperand s s' here))
      intro t t' grown there
      have back : ∀ u u', (ahead u → ahead t ∧ W.Near u u') → ahead u → ahead s ∧ W.Near u u' :=
        fun u u' known isAhead => ⟨(there (known isAhead).1).1, (known isAhead).2⟩
      apply lock_then heading (lock_addRegular lawful heading (attachable info knownInfo t t' there))
      intro u u' more known
      apply lock_giving heading (itemLater u u' (grown.trans more) (back u u' known))
      apply lock_option_forM fun isAhead => (known isAhead).2
      intro part found
      apply lock_addChild lawful heading
      exact attachable part (fun isAhead => (given isAhead).2.2.2.2 part found) u u' (back u u' known)

theorem lock_createOperator {chosen : Chosen} {operand : Nat} {right : Option ItemId}
    (given : ahead s → W.Near s s' ∧ W.Stands chosen.written ∧ operand ≠ 0 ∧
      ∀ item, right = some item → item ≠ 0) :
    W.Locked ahead W.rename s s' (createOperator chosen operand right)
      (createOperator (W.carryChosen chosen) (W.rename operand) (right.map W.rename))
      fun id t t' => Known t id ∧ W.Stays s s' t t' := by
  rw [createOperator_eq, createOperator_eq]
  apply (lock_createInfo lawful heading fun isAhead => ?_).bind heading
  · intro info t t' _ informed
    apply (lock_create heading rfl fun isAhead => ?_).bind heading
    · intro item u u' _ created
      apply (lock_placeOperator lawful heading fun isAhead => ?_).imp
      · rintro id v v' grown isAhead _ ⟨known, third⟩
        obtain ⟨isAhead, _, second⟩ := created (heading.later grown isAhead)
        exact ⟨known, ((informed isAhead).2.2.trans second).trans third⟩
      · obtain ⟨isAhead, knownItem, stays⟩ := created isAhead
        obtain ⟨isAhead, knownInfo, _⟩ := informed isAhead
        exact ⟨stays.near, knownItem, knownInfo.1, (given isAhead).2.2⟩
    · obtain ⟨isAhead, _, stays⟩ := informed isAhead
      obtain ⟨_, stands, _⟩ := given isAhead
      exact ⟨stays.near, stands.front_start, start_carryMatch stands.1, rfl⟩
  · exact ⟨(given isAhead).1, (given isAhead).2.1⟩

/-! Operands with their unary operators -/

/-- The operand is there, and the operators stand in the text. -/
structure FirmSlot (W : Tandem) (s : ParseState) (slot : Slot) : Prop where
  operand : Known s slot.operand
  prefixes : ∀ chosen ∈ slot.prefixes, W.Stands chosen.written
  postfixes : ∀ chosen ∈ slot.postfixes, W.Stands chosen.written
  link : ∀ chosen ∈ slot.link, W.Stands chosen.written

omit lawful heading in
theorem FirmSlot.later {slot : Slot} (firm : FirmSlot W s slot) (grown : Later s t) :
    FirmSlot W t slot := { firm with operand := firm.operand.later grown }

omit lawful heading in
theorem unaryOrder_map (prefixes postfixes : List Chosen) :
    unaryOrder (prefixes.map W.carryChosen) (postfixes.map W.carryChosen) =
      (unaryOrder prefixes postfixes).map W.carryChosen := by
  rw [unaryOrder, unaryOrder, ← List.map_reverse]
  exact mergeBy_map (fun _ _ => rfl) _ _

omit lawful heading in
theorem FirmSlot.unary {slot : Slot} (firm : FirmSlot W s slot) {chosen : Chosen}
    (member : chosen ∈ unaryOrder slot.prefixes slot.postfixes) : W.Stands chosen.written := by
  rw [unaryOrder, (mergeBy_perm _ _).mem_iff, List.mem_append, List.mem_reverse] at member
  exact member.elim (firm.prefixes chosen) (firm.postfixes chosen)

theorem lock_applyUnary {slot : Slot} (given : ahead s → W.Near s s' ∧ FirmSlot W s slot) :
    W.Locked ahead W.rename s s' (applyUnary slot) (applyUnary (W.carrySlot slot))
      fun id t t' => Known t id ∧ W.Stays s s' t t' := by
  rw [applyUnary, applyUnary, carrySlot, unaryOrder_map]
  apply lock_foldlM heading fun isAhead => ?_
  · intro chosen member node t t' _ known
    apply (lock_createOperator lawful heading fun isAhead => ?_).imp
    · rintro id u u' grown isAhead _ ⟨there, second⟩
      exact ⟨there, (known (heading.later grown isAhead)).2.2.trans second⟩
    · obtain ⟨isAhead, there, first⟩ := known isAhead
      exact ⟨first.near, (given isAhead).2.unary member, there.1, by rintro _ ⟨⟩⟩
  · obtain ⟨near, firm⟩ := given isAhead
    exact ⟨firm.operand, near.stays⟩

/-! Runs -/

/-- A node with the operator that links it to the one before. -/
def carryNode (W : Tandem) (node : Option Chosen × ItemId) : Option Chosen × ItemId :=
  (node.1.map W.carryChosen, W.rename node.2)

def carryLink (W : Tandem) (link : Chosen × ItemId) : Chosen × ItemId :=
  (W.carryChosen link.1, W.rename link.2)

def carryRun (W : Tandem) (run : Run ItemId) : Run ItemId :=
  ⟨W.rename run.first, run.links.map W.carryLink⟩

structure FirmRun (W : Tandem) (s : ParseState) (run : Run ItemId) : Prop where
  first : Known s run.first
  links : ∀ link ∈ run.links, W.Stands link.1.written ∧ Known s link.2

omit lawful heading in
theorem FirmRun.later {run : Run ItemId} (firm : FirmRun W s run) (grown : Later s t) :
    FirmRun W t run where
  first := firm.first.later grown
  links link member := ⟨(firm.links link member).1, (firm.links link member).2.later grown⟩

omit lawful heading in
theorem split_map (nodes : List (Option Chosen × ItemId)) : ∀ first : ItemId,
    Run.split (W.rename first) (nodes.map W.carryNode) =
      Prod.map W.carryRun (List.map W.carryRun) (Run.split first nodes) := by
  induction nodes with
  | nil => exact fun _ => rfl
  | cons node rest ih =>
      obtain ⟨link, next⟩ := node
      intro first
      have behind := ih next
      cases link <;> simp [carryNode, Run.split, behind, carryRun, carryLink]

omit lawful heading in
theorem runsOf_map (nodes : List (Option Chosen × ItemId)) :
    runsOf (nodes.map W.carryNode) = (runsOf nodes).map W.carryRun := by
  cases nodes with
  | nil => rfl
  | cons node rest => simp [runsOf, carryNode, split_map]

omit lawful heading in
theorem firm_split {nodes : List (Option Chosen × ItemId)}
    (firm : ∀ node ∈ nodes, (∀ chosen ∈ node.1, W.Stands chosen.written) ∧ Known s node.2) :
    ∀ first : ItemId, Known s first → ∀ run ∈ (Run.split first nodes).1 :: (Run.split first nodes).2,
      FirmRun W s run := by
  induction nodes with
  | nil =>
      intro first known run member
      obtain rfl := List.mem_singleton.mp member
      exact ⟨known, nofun⟩
  | cons node rest ih =>
      obtain ⟨link, next⟩ := node
      intro first known run member
      obtain ⟨stands, knownNext⟩ := firm _ List.mem_cons_self
      have behind := ih (fun node member => firm node (List.mem_cons_of_mem _ member)) next knownNext
      cases link with
      | none =>
          rcases List.mem_cons.mp member with rfl | later
          · exact ⟨known, nofun⟩
          · exact behind run later
      | some chosen =>
          rcases List.mem_cons.mp member with rfl | later
          · have rest := behind _ List.mem_cons_self
            refine ⟨known, fun link inLinks => ?_⟩
            rcases List.mem_cons.mp inLinks with rfl | inRest
            · exact ⟨stands chosen rfl, rest.first⟩
            · exact rest.links link inRest
          · exact behind run (List.mem_cons_of_mem _ later)

theorem lock_combineAt (priority : Int) (links : List (Chosen × ItemId)) : ∀ left s s',
    (ahead s → W.Near s s' ∧ FirmRun W s ⟨left, links⟩) →
    W.Locked ahead W.carryRun s s' (Run.combineAt combine priority left links)
      (Run.combineAt combine priority (W.rename left) (links.map W.carryLink))
      fun run t t' => FirmRun W t run ∧ W.Stays s s' t t' := by
  induction links with
  | nil =>
      intro left s s' given
      exact lock_pure fun isAhead _ => ⟨rfl, (given isAhead).2, (given isAhead).1.stays⟩
  | cons link rest ih =>
      obtain ⟨chosen, right⟩ := link
      intro left s s' given
      have known : ahead s → W.Near s s' ∧ Known s left ∧ W.Stands chosen.written ∧
          FirmRun W s ⟨right, rest⟩ := by
        intro isAhead
        obtain ⟨near, firm⟩ := given isAhead
        obtain ⟨stands, there⟩ := firm.links _ List.mem_cons_self
        exact ⟨near, firm.first, stands, there, fun link member =>
          firm.links link (List.mem_cons_of_mem _ member)⟩
      rw [List.map_cons]
      unfold Run.combineAt
      apply lock_ite heading fun _ => Iff.rfl
      · intro _
        apply (lock_createOperator lawful heading fun isAhead => ?_).bind heading
        · intro node t t' grown made
          apply (ih node t t' fun isAhead => ?_).imp
          · rintro run u u' more isAhead _ ⟨firm, second⟩
            exact ⟨firm, (made (heading.later more isAhead)).2.2.trans second⟩
          · obtain ⟨isAhead, there, stays⟩ := made isAhead
            obtain ⟨_, _, _, firm⟩ := known isAhead
            exact ⟨stays.near, there, (firm.later grown).links⟩
        · obtain ⟨near, there, stands, firm⟩ := known isAhead
          refine ⟨near, stands, there.1, ?_⟩
          rintro _ ⟨⟩
          exact firm.first.1
      · intro _
        apply (ih right s s' fun isAhead => ?_).bind heading
        · intro run t t' grown behind
          refine lock_pure fun isAhead _ => ⟨rfl, ?_⟩
          obtain ⟨isAhead, firm, stays⟩ := behind isAhead
          obtain ⟨_, there, stands, _⟩ := known isAhead
          refine ⟨⟨there.later grown, fun link member => ?_⟩, stays⟩
          rcases List.mem_cons.mp member with rfl | inRest
          · exact ⟨stands, firm.first⟩
          · exact firm.links link inRest
        · exact ⟨(known isAhead).1, (known isAhead).2.2.2⟩

theorem lock_fold {run : Run ItemId} (given : ahead s → W.Near s s' ∧ FirmRun W s run) :
    W.Locked ahead W.rename s s' (Run.fold combine run) (Run.fold combine (W.carryRun run))
      fun id t t' => Known t id ∧ W.Stays s s' t t' := by
  have folded : ∀ priorities run s s', (ahead s → W.Near s s' ∧ FirmRun W s run) →
      W.Locked ahead W.rename s s' (Run.foldAt combine priorities run)
        (Run.foldAt combine priorities (W.carryRun run))
        fun id t t' => Known t id ∧ W.Stays s s' t t' := by
    intro priorities
    induction priorities with
    | nil =>
        intro run s s' given
        exact lock_pure fun isAhead _ => ⟨rfl, (given isAhead).2.first, (given isAhead).1.stays⟩
    | cons priority rest ih =>
        intro run s s' given
        apply (lock_combineAt lawful heading priority run.links run.first s s' given).bind heading
        intro next t t' _ combined
        apply (ih next t t' fun isAhead => ?_).imp
        · rintro id u u' more isAhead _ ⟨known, second⟩
          exact ⟨known, (combined (heading.later more isAhead)).2.2.trans second⟩
        · obtain ⟨_, firm, stays⟩ := combined isAhead
          exact ⟨stays.near, firm⟩
  have priorities : (W.carryRun run).priorities = run.priorities := by
    rw [Run.priorities, Run.priorities, carryRun, List.map_map]
    rfl
  rw [Run.fold, Run.fold, priorities]
  exact folded run.priorities run s s' given

theorem lock_foldSlots {slots : List Slot}
    (given : ahead s → W.Near s s' ∧ ∀ slot ∈ slots, FirmSlot W s slot) :
    W.Locked ahead (List.map W.rename) s s' (foldSlots slots) (foldSlots (slots.map W.carrySlot))
      fun nodes t t' => ((∀ node ∈ nodes, Known t node) ∧ (nodes = [] → slots = [])) ∧
        W.Stays s s' t t' := by
  rw [foldSlots_eq, foldSlots_eq]
  -- First every operand with the operators around it.
  have applied : W.Locked ahead (List.map W.carryNode) s s'
      (slots.mapM fun slot => do return (slot.link, ← applyUnary slot))
      ((slots.map W.carrySlot).mapM fun slot => do return (slot.link, ← applyUnary slot))
      fun nodes t t' => List.Forall₂ (fun slot node => node.1 = slot.link ∧ Known t node.2) slots nodes ∧
        W.Stays s s' t t' := by
    apply lock_mapM heading
    · rintro slot node t u grown ⟨link, known⟩
      exact ⟨link, known.later grown⟩
    · exact fun isAhead => (given isAhead).1
    · intro slot member t t' grown known
      apply (lock_applyUnary lawful heading fun isAhead => ?_).bind heading
      · intro id u u' _ applied
        refine lock_pure fun isAhead _ => ⟨rfl, ?_⟩
        obtain ⟨_, there, stays⟩ := applied isAhead
        exact ⟨⟨rfl, there⟩, stays⟩
      · obtain ⟨isAhead, near⟩ := known isAhead
        exact ⟨near, ((given isAhead).2 slot member).later grown⟩
  apply applied.bind heading
  intro nodes t t' grown made
  rw [runsOf_map]
  have firm : ahead t → ∀ run ∈ runsOf nodes, FirmRun W t run := by
    intro isAhead
    obtain ⟨isAhead, same, _⟩ := made isAhead
    have each : ∀ node ∈ nodes, (∀ chosen ∈ node.1, W.Stands chosen.written) ∧ Known t node.2 := by
      intro node member
      obtain ⟨slot, inSlots, link, known⟩ := Arrangement.rel_mem same member
      exact ⟨link ▸ ((given isAhead).2 slot inSlots).link, known⟩
    cases nodes with
    | nil => simp [runsOf]
    | cons first rest =>
        exact firm_split (fun node member => each node (List.mem_cons_of_mem _ member)) first.2
          (each first List.mem_cons_self).2
  -- Then the operators between the operands, run by run.
  have combined : W.Locked ahead (List.map W.rename) t t' ((runsOf nodes).mapM (Run.fold combine))
      (((runsOf nodes).map W.carryRun).mapM (Run.fold combine))
      fun results u u' => List.Forall₂ (fun _ id => Known u id) (runsOf nodes) results ∧
        W.Stays t t' u u' := by
    apply lock_mapM heading
    · exact fun run id u v grown known => known.later grown
    · exact fun isAhead => (made isAhead).2.2.near
    · intro run member u u' more known
      apply lock_fold lawful heading
      intro isAhead
      obtain ⟨isAhead, near⟩ := known isAhead
      exact ⟨near, (firm isAhead run member).later more⟩
  apply combined.imp
  rintro results u u' more isAhead _ ⟨known, second⟩
  obtain ⟨_, same, first⟩ := made (heading.later more isAhead)
  refine ⟨⟨fun node member => ?_, ?_⟩, first.trans second⟩
  · obtain ⟨_, _, there⟩ := Arrangement.rel_mem known member
    exact there
  · rintro rfl
    cases nodes with
    | nil => cases same; rfl
    | cons node rest => cases known

/-! Series -/

theorem lock_createSeries {items : List Nat}
    (given : ahead s → W.Near s s' ∧ items ≠ [] ∧ ∀ item ∈ items, Known s item) :
    W.Locked ahead W.rename s s' (createSeries items) (createSeries (items.map W.rename))
      fun id t t' => Known t id ∧ W.Stays s s' t t' := by
  unfold createSeries
  rw [Locked, lock_forest_bind]
  dsimp only
  let ordered := sortBy (fun a b => s.forest.start a ≤ s.forest.start b) items
  -- Both runs sort the items alike, since moving keeps the order of the places.
  have same : ahead s → sortBy (fun a b => s'.forest.start a ≤ s'.forest.start b) (items.map W.rename) =
      ordered.map W.rename := by
    intro isAhead
    obtain ⟨near, _, known⟩ := given isAhead
    apply sortBy_map
    intro a memberA b memberB
    obtain ⟨startA, frontA⟩ := near.forest.start_rename (known a memberA).1 (known a memberA).2
    obtain ⟨startB, frontB⟩ := near.forest.start_rename (known b memberB).1 (known b memberB).2
    rw [startA, startB]
    exact decide_eq_decide.mpr (move_le_iff lawful (lawful.rest_of_front _ frontA)
      (lawful.rest_of_front _ frontB))
  generalize sortBy (fun a b => s'.forest.start a ≤ s'.forest.start b) (items.map W.rename) = ordered'
    at same ⊢
  apply lock_subst heading same
  have member : ∀ item, item ∈ ordered ↔ item ∈ items := fun item => sortBy_perm.mem_iff
  have begins : ahead s → W.front ((ordered.head?.map s.forest.start).getD 0) ∧
      ((ordered.map W.rename).head?.map s'.forest.start).getD 0 =
        W.move ((ordered.head?.map s.forest.start).getD 0) := by
    intro isAhead
    obtain ⟨near, filled, known⟩ := given isAhead
    have filledOrdered : ordered ≠ [] := by
      intro none
      obtain ⟨item, isItem⟩ := List.exists_mem_of_ne_nil items filled
      exact absurd ((member item).mpr isItem) (none ▸ List.not_mem_nil)
    obtain ⟨first, rest, isOrdered⟩ := List.exists_cons_of_ne_nil filledOrdered
    obtain ⟨there, inside⟩ := known first ((member first).mp (isOrdered ▸ List.mem_cons_self))
    obtain ⟨start, front⟩ := near.forest.start_rename there inside
    rw [isOrdered]
    exact ⟨front, start⟩
  apply (lock_create heading rfl fun isAhead => ?_).bind heading
  · intro series t t' grown created
    have known : ahead t → ∀ item ∈ ordered, item ≠ 0 := fun isAhead item inOrdered =>
      ((given (created isAhead).1).2.2 item ((member item).mp inOrdered)).1
    apply (lock_giving heading (fun isAhead => (created isAhead).2.1) ?_).imp
    · rintro id u u' more isAhead _ ⟨there, second⟩
      exact ⟨there, (created (heading.later more isAhead)).2.2.trans second⟩
    · apply lock_forM heading fun isAhead => (created isAhead).2.2.near
      intro item inOrdered u u' _ there
      apply lock_addChild lawful heading
      intro isAhead
      obtain ⟨isAhead, near⟩ := there isAhead
      exact ⟨near, (created isAhead).2.1.1, known isAhead item inOrdered⟩
  · obtain ⟨front, start⟩ := begins isAhead
    exact ⟨(given isAhead).1, front, start, rfl⟩

/-! Segments -/

/-- A series of all the pieces. -/
def buildSeries (nodes : List ItemId) (operators : List Chosen) (items : List ItemId) :
    Parse (Option ItemId) := do
  let infos ← operators.mapM createInfo
  return some (← createSeries (nodes ++ infos ++ items))

/-- What `resolve` does with a reading that is not empty. -/
def build (isWhole : Bool) (slots : List Slot) (operators : List Chosen) (items : List ItemId) :
    Parse (Option ItemId) := do
  let nodes ← foldSlots slots
  match nodes, isWhole with
  | [node], true => return some node
  | _, _ => buildSeries nodes operators items

omit lawful heading in
theorem resolve_eq (terms : List Term) : resolve terms = (do
    let reading := Reading.ofTerms (← forest).start terms
    reading.faults.forM addFault
    if reading.isEmpty then return none
    build reading.isWhole reading.slots.reverse reading.leftOperators reading.leftItems) := rfl

omit lawful heading in
theorem addFaults_run (faults : List Fault) (s : ParseState) :
    faults.forM addFault s = .ok () { s with faults := s.faults ++ faults } := by
  induction faults generalizing s with
  | nil => simp [List.forM, pure, EStateM.pure]
  | cons fault rest ih =>
      rw [List.forM, bind_run]
      refine (ih _).trans ?_
      simp

theorem lock_buildSeries {nodes : List Nat} {operators : List Chosen} {items : List Nat}
    (given : ahead s → W.Near s s' ∧ (nodes = [] → operators = [] → items ≠ []) ∧
      (∀ node ∈ nodes, Known s node) ∧ (∀ chosen ∈ operators, W.Stands chosen.written) ∧
      ∀ item ∈ items, Known s item) :
    W.Locked ahead (Option.map W.rename) s s' (buildSeries nodes operators items)
      (buildSeries (nodes.map W.rename) (operators.map W.carryChosen) (items.map W.rename))
      fun found t t' => (∀ item, found = some item → Known t item) ∧ W.Stays s s' t t' := by
  unfold buildSeries
  have informed : W.Locked ahead (List.map W.rename) s s' (operators.mapM createInfo)
      ((operators.map W.carryChosen).mapM createInfo) fun infos t t' =>
        List.Forall₂ (fun _ info => Known t info) operators infos ∧ W.Stays s s' t t' := by
    apply lock_mapM heading
    · exact fun chosen info t u grown known => known.later grown
    · exact fun isAhead => (given isAhead).1
    · intro chosen member t t' _ known
      apply lock_createInfo lawful heading
      intro isAhead
      obtain ⟨isAhead, near⟩ := known isAhead
      obtain ⟨_, _, _, stands, _⟩ := given isAhead
      exact ⟨near, stands chosen member⟩
  apply informed.bind heading
  intro infos t t' grown made
  rw [← List.map_append, ← List.map_append]
  apply (lock_createSeries lawful heading fun isAhead => ?_).bind heading
  · intro series u u' _ created
    refine lock_pure fun isAhead _ => ⟨rfl, ?_⟩
    obtain ⟨isAhead, known, second⟩ := created isAhead
    refine ⟨?_, (made isAhead).2.2.trans second⟩
    rintro item ⟨⟩
    exact known
  · obtain ⟨isAhead, same, stays⟩ := made isAhead
    obtain ⟨_, filled, knownNodes, _, knownItems⟩ := given isAhead
    refine ⟨stays.near, ?_, ?_⟩
    · intro none
      simp only [List.append_eq_nil_iff] at none
      obtain ⟨⟨noNodes, rfl⟩, noItems⟩ := none
      cases same
      exact filled noNodes rfl noItems
    · intro item member
      simp only [List.mem_append] at member
      rcases member with (isNode | isInfo) | isItem
      · exact (knownNodes item isNode).later grown
      · obtain ⟨_, _, known⟩ := Arrangement.rel_mem same isInfo
        exact known
      · exact (knownItems item isItem).later grown

theorem lock_build {isWhole : Bool} {slots : List Slot} {operators : List Chosen} {items : List Nat}
    (given : ahead s → W.Near s s' ∧ (slots = [] → operators = [] → items ≠ []) ∧
      (∀ slot ∈ slots, FirmSlot W s slot) ∧ (∀ chosen ∈ operators, W.Stands chosen.written) ∧
      ∀ item ∈ items, Known s item) :
    W.Locked ahead (Option.map W.rename) s s' (build isWhole slots operators items)
      (build isWhole (slots.map W.carrySlot) (operators.map W.carryChosen) (items.map W.rename))
      fun found t t' => (∀ item, found = some item → Known t item) ∧ W.Stays s s' t t' := by
  unfold build
  apply (lock_foldSlots lawful heading fun isAhead => ?_).bind heading
  · intro nodes t t' grown folded
    have series : W.Locked ahead (Option.map W.rename) t t' (buildSeries nodes operators items)
        (buildSeries (nodes.map W.rename) (operators.map W.carryChosen) (items.map W.rename))
        fun found u u' => (∀ item, found = some item → Known u item) ∧ W.Stays s s' u u' := by
      apply (lock_buildSeries lawful heading fun isAhead => ?_).imp
      · rintro found u u' more isAhead _ ⟨known, second⟩
        exact ⟨known, (folded (heading.later more isAhead)).2.2.trans second⟩
      · obtain ⟨isAhead, ⟨known, none⟩, stays⟩ := folded isAhead
        obtain ⟨_, filled, _, stands, knownItems⟩ := given isAhead
        exact ⟨stays.near, fun noNodes => filled (none noNodes), known, stands, fun item member =>
          (knownItems item member).later grown⟩
    cases nodes with
    | nil => exact series
    | cons node rest =>
        cases rest with
        | cons other rest => exact series
        | nil =>
            cases isWhole with
            | false => exact series
            | true =>
                refine lock_pure fun isAhead _ => ⟨rfl, ?_⟩
                obtain ⟨_, ⟨known, _⟩, stays⟩ := folded isAhead
                refine ⟨?_, stays⟩
                rintro item ⟨⟩
                exact known node List.mem_cons_self
  · obtain ⟨near, _, firm, _⟩ := given isAhead
    exact ⟨near, firm⟩

/-- The item is there, and the words of an operator stand in the text. -/
def FirmTerm (W : Tandem) (s : ParseState) : Term → Prop
  | .operand item | .stray item => Known s item
  | .operators written => W.Stands written

/-- The same for what a term holds. -/
def FirmHeld (W : Tandem) (s : ParseState) : Held → Prop
  | .item id => Known s id
  | .word start text => W.front start ∧ start + text.length ≤ W.text.size ∧ 0 < text.length
  | _ => True

omit lawful heading in
theorem FirmTerm.held {term : Term} (firm : FirmTerm W s term) : ∀ held ∈ term.held, FirmHeld W s held := by
  intro held member
  cases term with
  | operators written =>
      obtain ⟨part, inParts, rfl⟩ := List.mem_map.mp member
      exact firm.2 part inParts
  | _ =>
      obtain rfl := List.mem_singleton.mp member
      exact firm

omit lawful heading in
theorem stands_of_held {chosen : Chosen} (filled : chosen.written.parts ≠ [])
    (firm : ∀ held ∈ chosen.held, FirmHeld W s held) : W.Stands chosen.written :=
  ⟨filled, fun _ member => firm _ (List.mem_map_of_mem member)⟩

omit lawful heading in
/-- Everything that a reading has arranged is firm if the terms are. -/
theorem firm_arranged {reading : Reading} {terms : List Term} {row : Arrangement Slot}
    (arranged : reading.Arranged (terms.flatMap Term.held) row)
    (firm : ∀ term ∈ terms, FirmTerm W s term) :
    (∀ slot ∈ reading.slots, FirmSlot W s slot) ∧
      (∀ chosen ∈ reading.leftOperators, W.Stands chosen.written) ∧
      ∀ item ∈ reading.leftItems, Known s item := by
  have each : ∀ placed ∈ row, ∀ held ∈ placed.held Slot.held, FirmHeld W s held := by
    intro placed inRow held member
    have inTerms : held ∈ terms.flatMap Term.held := by
      rw [← arranged.held]
      exact List.mem_flatMap.mpr ⟨placed, inRow, member⟩
    obtain ⟨term, isTerm, member⟩ := List.mem_flatMap.mp inTerms
    exact (firm term isTerm).held held member
  refine ⟨fun slot member => ?_, fun chosen member => ?_, fun item member => ?_⟩
  · have isWhole : slot ∈ row.wholes := by
      rw [arranged.slots]
      exact List.mem_reverse.mpr member
    have proper := arranged.proper slot isWhole
    have parts := each _ (Arrangement.mem_wholes.mp isWhole)
    simp only [Placed.held, Slot.held, List.mem_append, List.mem_flatMap, Option.mem_toList] at parts
    refine ⟨parts _ (Or.inl (Or.inr List.mem_cons_self)), ?_, ?_, ?_⟩
    · exact fun chosen inSlot => stands_of_held (proper.prefixes chosen inSlot).filled fun held here =>
        parts held (Or.inl (Or.inl (Or.inr ⟨chosen, inSlot, here⟩)))
    · exact fun chosen inSlot => stands_of_held (proper.postfixes chosen inSlot).filled fun held here =>
        parts held (Or.inr ⟨chosen, inSlot, here⟩)
    · exact fun chosen inSlot => stands_of_held (proper.link chosen inSlot).filled fun held here =>
        parts held (Or.inl (Or.inl (Or.inl ⟨chosen, inSlot, here⟩)))
  · rw [← arranged.looses] at member
    exact stands_of_held (arranged.filled chosen member) (each _ (Arrangement.mem_looses.mp member))
  · rw [← arranged.lefts] at member
    exact each _ (Arrangement.mem_lefts.mp member) _ List.mem_cons_self

theorem lock_resolve {terms : List Term}
    (given : ahead s → W.Near s s' ∧ ∀ term ∈ terms, FirmTerm W s term) :
    W.Locked ahead (Option.map W.rename) s s' (resolve terms) (resolve (terms.map W.carryTerm))
      fun found t t' => (∀ item, found = some item → Known t item) ∧ W.Stays s s' t t' := by
  rw [resolve_eq, resolve_eq, Locked, lock_forest_bind]
  dsimp only
  have filled : ahead s → ∀ written, .operators written ∈ terms → written.parts ≠ [] :=
    fun isAhead written member => ((given isAhead).2 _ member).1
  have alike : ahead s → W.ReadingAlike (Reading.ofTerms s.forest.start terms)
      (Reading.ofTerms s'.forest.start (terms.map W.carryTerm)) := by
    intro isAhead
    obtain ⟨near, firm⟩ := given isAhead
    apply alike_ofTerms lawful (filled isAhead)
    intro item member _
    obtain ⟨known, inside⟩ := firm _ member
    exact (near.forest.start_rename known inside).1
  have firm : ahead s → (∀ slot ∈ (Reading.ofTerms s.forest.start terms).slots, FirmSlot W s slot) ∧
      (∀ chosen ∈ (Reading.ofTerms s.forest.start terms).leftOperators, W.Stands chosen.written) ∧
      ∀ item ∈ (Reading.ofTerms s.forest.start terms).leftItems, Known s item := by
    intro isAhead
    obtain ⟨row, arranged⟩ := Reading.arranged_ofTerms s.forest.start (filled isAhead)
    exact firm_arranged arranged (given isAhead).2
  -- From here on only what the two readings have in common counts.
  generalize Reading.ofTerms s.forest.start terms = reading at alike firm ⊢
  generalize Reading.ofTerms s'.forest.start (terms.map W.carryTerm) = reading' at alike ⊢
  let noted : ParseState := { s with faults := s.faults ++ reading.faults }
  let noted' : ParseState := { s' with faults := s'.faults ++ reading'.faults }
  have grown : Later s noted := .of_forest (List.prefix_append _ _) rfl
  have back : ahead noted → ahead s := heading.later grown
  have near : ahead noted → W.Near noted noted' := by
    intro isAhead
    have near := (given (back isAhead)).1
    exact { near with faults := List.rel_append near.faults (alike (back isAhead)).faults }
  -- Behind the faults of the readings both runs build from the same pieces.
  have built : W.Locked ahead (Option.map W.rename) noted noted'
      (if reading.isEmpty then return none else
        build reading.isWhole reading.slots.reverse reading.leftOperators reading.leftItems)
      (if reading'.isEmpty then return none else
        build reading'.isWhole reading'.slots.reverse reading'.leftOperators reading'.leftItems)
      fun found t t' => (∀ item, found = some item → Known t item) ∧ W.Stays noted noted' t t' := by
    apply lock_ite heading
    · intro isAhead
      have alike := alike (back isAhead)
      simp [Reading.isEmpty, alike.slots, alike.leftOperators, alike.leftItems]
    · exact fun _ => lock_pure fun isAhead _ => ⟨rfl, by rintro _ ⟨⟩, (near isAhead).stays⟩
    · intro notEmpty
      -- Both are in one item or neither is.
      refine lock_other heading (lock_build lawful heading fun isAhead => ?_) fun isAhead => ?_
      · obtain ⟨slots, operators, items⟩ := firm (back isAhead)
        refine ⟨near isAhead, ?_, ?_, operators, items⟩
        · intro noSlots noOperators noItems
          refine notEmpty ?_
          simp [Reading.isEmpty, List.reverse_eq_nil_iff.mp noSlots, noOperators, noItems]
        · exact fun slot member => (slots slot (List.mem_reverse.mp member)).later grown
      · have alike := alike (back isAhead)
        have noFaults : reading'.faults.isEmpty = reading.faults.isEmpty := by
          rw [Bool.eq_iff_iff, List.isEmpty_iff_length_eq_zero, List.isEmpty_iff_length_eq_zero,
            alike.faults.length_eq]
        have whole : reading'.isWhole = reading.isWhole := by
          simp [Reading.isWhole, alike.leftOperators, alike.leftItems, noFaults]
        rw [whole, alike.slots, alike.leftOperators, alike.leftItems, List.map_reverse]
  apply (built.imp ?_).before grown
  · rw [bind_run, addFaults_run]
  · rw [bind_run, addFaults_run]
  · rintro found t t' _ _ _ ⟨known, stays⟩
    exact ⟨known, stays.near, stays.cursor, stays.cursorOther⟩

end ExprLang.Tandem
