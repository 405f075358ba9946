import ExprLang.Proofs.Parse.Combining

/-!
Building the items of a reading: one item for each run of its row. What has no place in a run becomes
an item of its own, and a series takes all of them in text order.
-/

namespace ExprLang

open Held (item hollow word ids)

open ParseState

/-! Rows -/

/-- One row has in every place what the other one has made of it. -/
def Placed.Rel {α β : Type} (rel : α → β → Prop) : Placed α → Placed β → Prop
  | whole value, whole other => rel value other
  | loose chosen, loose other => chosen = other
  | left id, left other => id = other
  | _, _ => False

namespace Arrangement

variable {α β : Type} {rel : α → β → Prop} {row : Arrangement α} {other : Arrangement β}

theorem rel_others (same : List.Forall₂ (Placed.Rel rel) row other) :
    row.looses = other.looses ∧ row.lefts = other.lefts := by
  induction same with
  | nil => exact ⟨rfl, rfl⟩
  | @cons placed also _ _ here _ ih =>
      cases placed <;> cases also <;> simp_all [Placed.Rel]

theorem rel_wholes (same : List.Forall₂ (Placed.Rel rel) row other) :
    List.Forall₂ rel row.wholes other.wholes := by
  induction same with
  | nil => exact List.Forall₂.nil
  | @cons placed also _ _ here _ ih =>
      cases placed <;> cases also <;> simp_all [Placed.Rel]

theorem rel_mem {xs : List α} {ys : List β} (same : List.Forall₂ rel xs ys) {y : β}
    (member : y ∈ ys) : ∃ x ∈ xs, rel x y := by
  induction same with
  | nil => cases member
  | cons here _ ih =>
      rcases List.mem_cons.mp member with rfl | later
      · exact ⟨_, List.mem_cons_self, here⟩
      · obtain ⟨x, inRest, related⟩ := ih later
        exact ⟨x, List.mem_cons_of_mem _ inRest, related⟩

theorem eq_single {value : α} (wholes : row.wholes = [value]) (noLooses : row.looses = [])
    (noLefts : row.lefts = []) : row = [.whole value] := by
  cases row with
  | nil => cases wholes
  | cons placed rest =>
      cases placed with
      | loose chosen => cases noLooses
      | left id => cases noLefts
      | whole other =>
          obtain ⟨rfl, noWholes⟩ := List.cons_eq_cons.mp wholes
          cases rest with
          | nil => rfl
          | cons placed rest =>
              cases placed with
              | whole other => cases noWholes
              | loose chosen => cases noLooses
              | left id => cases noLefts

theorem single_of_rel {value : β} (same : List.Forall₂ (Placed.Rel rel) row [.whole value]) :
    ∃ old, row = [.whole old] := by
  cases same
  rename_i placed _ here later
  cases later
  cases placed with
  | whole old => exact ⟨old, rfl⟩
  | loose chosen => cases here
  | left id => cases here

theorem rel_linked {isLinked : α → Prop} {i : β → Prop}
    (same : List.Forall₂ (Placed.Rel rel) row other)
    (keeps : ∀ value also, rel value also → i also → isLinked value) {before : Bool}
    (linked : Linked isLinked before row) : Linked i before other := by
  induction same generalizing before with
  | nil => trivial
  | @cons placed also _ _ here _ ih =>
      obtain ⟨first, later⟩ := linked
      have whole : placed.isWhole = also.isWhole := by
        cases placed <;> cases also <;> first | rfl | cases here
      refine ⟨?_, whole ▸ ih later⟩
      rintro value rfl alsoLinked
      cases placed with
      | whole old => exact first old rfl (keeps old value here alsoLinked)
      | loose chosen => cases here
      | left id => cases here

end Arrangement

namespace Parse

variable {holds : ParseState → List Held → Prop} {s t : ParseState} {left right : List Held}

/-- Everything whole in a row is replaced, one after the other. -/
theorem ends_mapM_wholes {α β : Type} (f : α → Parse β) (before : α → List Held)
    (after : β → List Held) (rel : α → β → Prop) (post : α → β → ParseState → ParseState → Prop)
    (left : List Held) {row : Arrangement α}
    (step : ∀ x ∈ row.wholes, ∀ s left right,
      holds s (left ++ before x ++ right) →
      Ends (f x) s (fun y t => holds t (left ++ after y ++ right) ∧ Steady s t ∧
        rel x y ∧ post x y s t) (fun _ _ => False))
    (holding : holds s (left ++ row.held before)) :
    Ends (row.wholes.mapM f) s
      (fun values t => ∃ row' : Arrangement β, row'.wholes = values ∧
        List.Forall₂ (Placed.Rel rel) row row' ∧
        holds t (left ++ row'.held after) ∧ Steady s t ∧ (row = [] → t = s) ∧
        ∀ x, row = [.whole x] → ∃ y, row' = [.whole y] ∧ post x y s t) (fun _ _ => False) := by
  induction row generalizing left s with
  | nil =>
      exact ends_pure ⟨[], rfl, .nil, holding, Steady.refl s, fun _ => rfl, by simp⟩
  | cons placed rest ih =>
      cases placed with
      | whole x =>
          simp only [Arrangement.wholes_whole, List.mapM_cons]
          refine (step x List.mem_cons_self s left (Arrangement.held before rest)
            (by simpa [Placed.held] using holding)).bind ?_ fun _ _ never => never
          rintro y t ⟨holding, steady, related, here⟩
          refine (ih (left ++ after y) (fun x member => step x (List.mem_cons_of_mem _ member))
            holding).bind ?_ fun _ _ never => never
          rintro values u ⟨row', rfl, same, holding, steadyMore, unchanged, _⟩
          refine ends_pure ⟨.whole y :: row', rfl, .cons related same, ?_, steady.trans steadyMore,
            by simp, ?_⟩
          · simpa [Placed.held] using holding
          · rintro x' isSingle
            cases isSingle
            cases same
            obtain rfl := unchanged rfl
            exact ⟨y, rfl, here⟩
      | loose chosen =>
          refine (ih (left ++ chosen.held) step (by simpa [Placed.held] using holding)).imp ?_
            fun _ _ never => never
          rintro values u ⟨row', rfl, same, holding, steady, _, _⟩
          exact ⟨.loose chosen :: row', rfl, .cons rfl same, by simpa [Placed.held] using holding, steady,
            by simp, by simp⟩
      | left id =>
          refine (ih (left ++ [item id]) step (by simpa [Placed.held] using holding)).imp ?_
            fun _ _ never => never
          rintro values u ⟨row', rfl, same, holding, steady, _, _⟩
          exact ⟨.left id :: row', rfl, .cons rfl same, by simpa [Placed.held] using holding, steady,
            by simp, by simp⟩

end Parse

/-! Runs -/

/-- A node with the operator that links it to the one before. -/
def heldNode (node : Option Chosen × ItemId) : List Held :=
  node.1.toList.flatMap Chosen.held ++ [item node.2]

/-- The runs of a row of nodes. -/
def runsOf : List (Option Chosen × ItemId) → List (Run ItemId)
  | [] => []
  | (_, first) :: rest => (Run.split first rest).1 :: (Run.split first rest).2

/-- The same row, with its nodes put together to runs. -/
structure Grouped (nodes : Arrangement (Option Chosen × ItemId)) (runs : Arrangement (Run ItemId)) :
    Prop where
  wholes : runs.wholes = runsOf nodes.wholes
  looses : runs.looses = nodes.looses
  lefts : runs.lefts = nodes.lefts
  held : runs.held Parse.heldRun = nodes.held heldNode
  binary : ∀ run ∈ runs.wholes, ∀ link ∈ run.links, link.1.Is .binary
  filled : runs = [] → nodes = []
  single : ∀ run, runs = [.whole run] → run.links = [] → nodes = [.whole (none, run.first)]

namespace Arrangement

variable {nodes : Arrangement (Option Chosen × ItemId)}

theorem head_unlinked (linked : nodes.Linked (fun node => node.1.isSome = true) false)
    {first : Option Chosen × ItemId} {rest : List (Option Chosen × ItemId)}
    (parts : nodes.wholes = first :: rest) : first.1 = none :=
  Option.not_isSome_iff_eq_none.mp (linked.head parts)

/-- At a cut the run ends and other ones begin. -/
theorem split_unlinked (linked : nodes.Linked (fun node => node.1.isSome = true) false)
    (first : ItemId) : Run.split first nodes.wholes = (⟨first, []⟩, runsOf nodes.wholes) := by
  cases parts : nodes.wholes with
  | nil => rfl
  | cons node rest =>
      obtain ⟨link, id⟩ := node
      obtain rfl : link = none := head_unlinked linked parts
      rfl

/-- A run of one item has no links. -/
theorem links_single {first : ItemId} {runs : List (Run ItemId)}
    (binary : ∀ other ∈ runs, ∀ link ∈ other.links, link.1.Is .binary) :
    ∀ other ∈ (⟨first, []⟩ : Run ItemId) :: runs, ∀ link ∈ other.links, link.1.Is .binary :=
  List.forall_mem_cons.mpr ⟨List.forall_mem_nil _, binary⟩

/-- A row without a first node, and a row behind a node. -/
theorem group (binary : ∀ node ∈ nodes.wholes, ∀ chosen ∈ node.1, chosen.Is .binary) :
    (nodes.Linked (fun node => node.1.isSome = true) false → ∃ runs, Grouped nodes runs) ∧
      ∀ first, nodes.Linked (fun node => node.1.isSome = true) true →
        ∃ run, ∃ runs : Arrangement (Run ItemId),
          run.first = first ∧ Run.split first nodes.wholes = (run, runs.wholes) ∧
          Parse.heldRun run ++ runs.held Parse.heldRun = item first :: nodes.held heldNode ∧
          runs.looses = nodes.looses ∧ runs.lefts = nodes.lefts ∧
          (∀ other ∈ run :: runs.wholes, ∀ link ∈ other.links, link.1.Is .binary) ∧
          (run.links = [] → runs = [] → nodes = []) := by
  induction nodes with
  | nil =>
      refine ⟨fun _ => ⟨[], rfl, rfl, rfl, rfl, by simp, by simp, by simp⟩, fun first _ => ?_⟩
      exact ⟨⟨first, []⟩, [], rfl, rfl, rfl, rfl, rfl, by simp, by simp⟩
  | cons placed rest ih =>
      cases placed with
      | whole node =>
          obtain ⟨link, id⟩ := node
          obtain ⟨_, behind⟩ := ih fun node member => binary node (List.mem_cons_of_mem _ member)
          constructor
          · intro linked
            obtain rfl : link = none := head_unlinked linked rfl
            obtain ⟨run, runs, rfl, split, held, looses, lefts, isBinary, single⟩ := behind id linked.2
            refine ⟨.whole run :: runs, ?_, looses, lefts, ?_, isBinary, by simp, ?_⟩
            · simp [runsOf, split]
            · simpa [Placed.held, heldNode] using held
            · rintro other isSingle none
              cases isSingle
              rw [single none rfl]
          · intro first linked
            obtain ⟨run, runs, rfl, split, held, looses, lefts, isBinary, single⟩ := behind id linked.2
            cases link with
            | none =>
                refine ⟨⟨first, []⟩, .whole run :: runs, rfl, ?_, ?_, looses, lefts,
                  links_single isBinary, by simp⟩
                · simp [Run.split, split]
                · simpa [Placed.held, heldNode, Parse.heldRun] using held
            | some chosen =>
                refine ⟨⟨first, (chosen, run.first) :: run.links⟩, runs, rfl, ?_, ?_, looses, lefts, ?_,
                  by simp⟩
                · simp [Run.split, split]
                · have rest := congrArg (fun row => item first :: chosen.held ++ row) held
                  simpa [Placed.held, heldNode, Parse.heldRun] using rest
                · intro other member link inLinks
                  rcases List.mem_cons.mp member with rfl | later
                  · rcases List.mem_cons.mp inLinks with rfl | inRun
                    · exact binary (some chosen, run.first) List.mem_cons_self chosen rfl
                    · exact isBinary run List.mem_cons_self link inRun
                  · exact isBinary other (List.mem_cons_of_mem _ later) link inLinks
      | loose chosen =>
          obtain ⟨alone, _⟩ := ih binary
          constructor
          · intro linked
            obtain ⟨runs, grouped⟩ := alone linked.2
            refine ⟨.loose chosen :: runs, grouped.wholes, ?_, grouped.lefts, ?_, grouped.binary, by simp,
              by simp⟩
            · simp [grouped.looses]
            · simp [grouped.held, Placed.held]
          · intro first linked
            obtain ⟨runs, grouped⟩ := alone linked.2
            refine ⟨⟨first, []⟩, .loose chosen :: runs, rfl, ?_, ?_, ?_, grouped.lefts,
              links_single grouped.binary, by simp⟩
            · rw [Arrangement.wholes_loose, split_unlinked linked.2, Arrangement.wholes_loose,
                grouped.wholes]
            · simp [grouped.held, Placed.held, Parse.heldRun]
            · simp [grouped.looses]
      | left id =>
          obtain ⟨alone, _⟩ := ih binary
          constructor
          · intro linked
            obtain ⟨runs, grouped⟩ := alone linked.2
            refine ⟨.left id :: runs, grouped.wholes, grouped.looses, ?_, ?_, grouped.binary, by simp,
              by simp⟩
            · simp [grouped.lefts]
            · simp [grouped.held, Placed.held]
          · intro first linked
            obtain ⟨runs, grouped⟩ := alone linked.2
            refine ⟨⟨first, []⟩, .left id :: runs, rfl, ?_, ?_, grouped.looses, ?_,
              links_single grouped.binary, by simp⟩
            · rw [Arrangement.wholes_left, split_unlinked linked.2, Arrangement.wholes_left,
                grouped.wholes]
            · simp [grouped.held, Placed.held, Parse.heldRun]
            · simp [grouped.lefts]

end Arrangement

namespace Parse

theorem foldSlots_eq (slots : List Slot) : foldSlots slots =
    ((slots.mapM fun slot => do return (slot.link, ← applyUnary slot)) >>= fun nodes =>
      (runsOf nodes).mapM (Run.fold combine)) := by
  unfold foldSlots
  congr 1
  funext nodes
  cases nodes with
  | nil => rfl
  | cons node rest => rfl

end Parse

namespace Grip

open Parse

variable {floor : Nat} {holds : ParseState → List Held → Prop} {s t : ParseState}
  {left right : List Held} (grip : Grip floor holds)

include grip

theorem ends_applyUnary {slot : Slot} (proper : slot.Proper)
    (holding : holds s (left ++ slot.held ++ right)) :
    Ends (do return (slot.link, ← applyUnary slot)) s
      (fun node t => holds t (left ++ heldNode node ++ right) ∧ Steady s t ∧
        node.1 = slot.link ∧ Grown s slot.operand t node.2 ∧
        (node.2 = slot.operand → slot.prefixes = [] ∧ slot.postfixes = [])) (fun _ _ => False) := by
  unfold applyUnary unaryOrder
  have arePrefix : ∀ chosen ∈ slot.prefixes.reverse, chosen.Is .prefixOp := fun chosen member =>
    proper.prefixes chosen (List.mem_reverse.mp member)
  have merged := grip.ends_merged (left ++ slot.link.toList.flatMap Chosen.held) right
    (fun a b => a.operator.priority < b.operator.priority) arePrefix proper.postfixes
    (by simpa [Slot.held] using holding)
  refine merged.bind ?_ fun _ _ never => never
  rintro last t ⟨holding, steady, grown, same⟩
  refine ends_pure ⟨by simpa [heldNode] using holding, steady, rfl, grown, fun isOperand => ?_⟩
  obtain ⟨noPrefixes, noPostfixes⟩ := same isOperand
  exact ⟨List.reverse_eq_nil_iff.mp noPrefixes, noPostfixes⟩

/-- One item is left of each run. An item that is no new one is the only thing in the row. -/
theorem ends_foldSlots {reading : Reading} {row : Arrangement Slot} {done : List Held}
    (arranged : reading.Arranged done row)
    (holding : holds s (left ++ row.held Slot.held)) :
    Ends (foldSlots row.wholes) s
      (fun nodes t => ∃ row' : Arrangement ItemId, row'.wholes = nodes ∧ row'.looses = row.looses ∧
        row'.lefts = row.lefts ∧ holds t (left ++ row'.held fun id => [item id]) ∧
        Steady s t ∧ (row' = [] → row = []) ∧ ∀ node, row' = [.whole node] →
          row.held Slot.held = [item node] ∧ t = s ∨ s.forest.size ≤ node ∧ t.forest.Bare node)
      (fun _ _ => False) := by
  rw [foldSlots_eq]
  refine (ends_mapM_wholes _ Slot.held heldNode (fun slot node => node.1 = slot.link)
    (fun slot node s t => Grown s slot.operand t node.2 ∧
      (node.2 = slot.operand → slot.prefixes = [] ∧ slot.postfixes = [])) left
    (fun slot member s left right holding => grip.ends_applyUnary (arranged.proper slot member) holding)
    holding).bind ?_ fun _ _ never => never
  rintro _ t ⟨nodes, rfl, same, holding, steady, _, only⟩
  have linked := Arrangement.rel_linked same (fun slot node link isLinked => link ▸ isLinked)
    arranged.linked (i := fun node => node.1.isSome = true)
  have binary : ∀ node ∈ nodes.wholes, ∀ chosen ∈ node.1, chosen.Is .binary := by
    intro node member chosen isLink
    obtain ⟨slot, inRow, link⟩ := Arrangement.rel_mem (Arrangement.rel_wholes same) member
    exact (arranged.proper slot inRow).link chosen (link ▸ isLink)
  obtain ⟨runs, grouped⟩ := (Arrangement.group binary).1 linked
  rw [← grouped.held] at holding
  rw [← grouped.wholes]
  refine (ends_mapM_wholes _ heldRun (fun id => [item id]) (fun _ _ => True)
    (fun run last s t => Grown s run.first t last ∧ (last = run.first → run.links = [])) left
    (fun run member s left right holding => (grip.ends_fold (grouped.binary run member) holding).imp
      (fun last t ⟨holding, steady, grown, alone⟩ =>
        ⟨by simpa using holding, steady, trivial, grown, alone⟩)
      fun _ _ never => never) holding).imp ?_ fun _ _ never => never
  rintro _ u ⟨row', rfl, sameRuns, holding, steadyMore, _, onlyRun⟩
  obtain ⟨looses, lefts⟩ := Arrangement.rel_others same
  obtain ⟨loosesRuns, leftsRuns⟩ := Arrangement.rel_others sameRuns
  refine ⟨row', rfl, ?_, ?_, holding, steady.trans steadyMore, ?_, ?_⟩
  · rw [← loosesRuns, grouped.looses, looses]
  · rw [← leftsRuns, grouped.lefts, lefts]
  · rintro rfl
    obtain rfl : runs = [] := by cases sameRuns; rfl
    obtain rfl := grouped.filled rfl
    cases same
    rfl
  · rintro node rfl
    obtain ⟨run, rfl⟩ := Arrangement.single_of_rel sameRuns
    obtain ⟨last, isLast, grown, alone⟩ := onlyRun run rfl
    cases isLast
    rcases grown with ⟨same', rfl⟩ | ⟨new, bare⟩
    · -- Nothing was combined, so the row is one slot, and nothing was put around its operand either.
      have nodes' := grouped.single run rfl (alone same')
      subst nodes'
      obtain ⟨slot, rfl⟩ := Arrangement.single_of_rel same
      obtain ⟨node', isNode, grown, bareSlot⟩ := only slot rfl
      cases isNode
      rcases grown with ⟨isOperand, rfl⟩ | ⟨new, bare⟩
      · left
        obtain ⟨noPrefixes, noPostfixes⟩ := bareSlot isOperand
        have noLink : slot.link = none := by
          cases same
          rename_i here _
          exact here.symm
        refine ⟨?_, rfl⟩
        simp only [Arrangement.held_cons, Placed.held, Slot.held, noLink, noPrefixes, noPostfixes]
        simp [same', ← isOperand]
      · exact Or.inr ⟨same' ▸ new, same' ▸ bare⟩
    · exact Or.inr ⟨Nat.le_trans steady.size new, bare⟩

end Grip

/-! Series -/

namespace Parse

/-- Items that stand in a row are sorted by their starts. -/
theorem sortBy_row {forest : Forest} {ids items : List Nat} {a b : Nat}
    (placed : forest.Row a (ids.map item) b) (same : items.Perm ids) :
    sortBy (fun x y => forest.start x ≤ forest.start y) items = ids := by
  have laid := placed.laid
  have sorted : (sortBy (fun x y => forest.start x ≤ forest.start y) items).Pairwise
      fun x y => decide (forest.start x ≤ forest.start y) = true :=
    pairwise_sortBy (by simp; omega) (by simp; omega) items
  have distinct : (ids.map forest.start).Nodup :=
    List.pairwise_map.mpr (laid.imp fun before => Nat.ne_of_lt before.1)
  refine List.Perm.eq_of_pairwise ?_ sorted
    (laid.imp fun before => decide_eq_true (Nat.le_of_lt before.1)) (sortBy_perm.trans same)
  intro x y inSorted inIds ahead behind
  have inIds' : x ∈ ids := same.mem_iff.mp (sortBy_perm.mem_iff.mp inSorted)
  exact List.inj_on_of_nodup_map distinct inIds' inIds
    (Nat.le_antisymm (of_decide_eq_true ahead) (of_decide_eq_true behind))

end Parse

namespace Grip

open Parse

variable {floor : Nat} {holds : ParseState → List Held → Prop} {s t : ParseState}
  {left right : List Held} (grip : Grip floor holds)

include grip

theorem ends_createSeries {ids items : List Nat} (filled : ids ≠ []) (same : items.Perm ids)
    (holding : holds s (left ++ ids.map item)) :
    Ends (createSeries items) s
      (fun series t => Combined holds s t (left ++ [item series]) series)
      (fun _ _ => False) := by
  obtain ⟨first, rest, rfl⟩ := List.exists_cons_of_ne_nil filled
  obtain ⟨a, b, lined⟩ := grip.lined holding
  obtain ⟨m, _, placed⟩ := Forest.row_append.mp lined.placed
  unfold createSeries
  simp only [ends_forest_bind, ends_create_bind, sortBy_row placed same, List.head?_cons,
    Option.map_some, Option.getD_some]
  have plain : ItemKind.series.isPlain = true := rfl
  have between := grip.hollow_before left (rest.map item) plain holding rfl
  have bare := s.forest.bare_of_create plain (s.forest.start first)
  have steady : Steady s (s.withForest (s.forest.create .series (s.forest.start first)).2) :=
    (Steady.refl s).push rfl
  have room : holds
      (s.withForest (s.forest.create .series (s.forest.start first)).2)
      (left ++ hollow s.forest.size :: (first :: rest).map item ++ []) := by
    simpa using between
  refine (grip.ends_attachAll left [] .regular true room rfl
    bare.toOpen (fun _ => rfl) (grip.room holding) (Nat.le_refl _) steady).bind ?_ fun _ _ never => never
  rintro _ t ⟨later, isLater, holding, isOpen, steady, others⟩
  obtain rfl : later = item s.forest.size := isLater.resolve_right (by simp)
  refine ends_pure ⟨holding, ⟨isOpen, ?_, ?_⟩, Nat.le_refl _, steady⟩
  · exact (others .prefixes (by simp)).trans bare.noPrefixes
  · exact (others .keywords (by simp)).trans bare.noKeywords

end Grip

/-! Segments -/

namespace Parse

/-- A row with the loose operators as what is going to be replaced. -/
def looseAsWhole : Placed ItemId → Placed Chosen
  | .whole id | .left id => .left id
  | .loose chosen => .whole chosen

theorem looseAsWhole_spec (row : Arrangement ItemId) :
    Arrangement.wholes (row.map looseAsWhole) = row.looses ∧
      Arrangement.looses (row.map looseAsWhole) = [] ∧
      (Arrangement.lefts (row.map looseAsWhole)).Perm (row.wholes ++ row.lefts) ∧
      Arrangement.held Chosen.held (row.map looseAsWhole) = row.held fun id => [item id] := by
  induction row with
  | nil => exact ⟨rfl, rfl, .nil, rfl⟩
  | cons placed rest ih =>
      obtain ⟨wholes, looses, lefts, held⟩ := ih
      cases placed with
      | whole id =>
          refine ⟨wholes, looses, ?_, ?_⟩
          · simpa [looseAsWhole] using lefts
          · simpa [looseAsWhole, Placed.held] using held
      | loose chosen =>
          refine ⟨?_, looses, ?_, ?_⟩
          · simpa [looseAsWhole] using wholes
          · simpa [looseAsWhole] using lefts
          · simpa [looseAsWhole, Placed.held] using held
      | left id =>
          refine ⟨wholes, looses, ?_, ?_⟩
          · simpa [looseAsWhole] using (lefts.cons id).trans List.perm_middle.symm
          · simpa [looseAsWhole, Placed.held] using held

/-- Without loose operators a row is a row of items. -/
theorem ids_of_row {row : Arrangement ItemId} (none : row.looses = []) :
    ∃ ids : List Nat, (row.held fun id => [item id]) = ids.map item ∧
      (row.wholes ++ row.lefts).Perm ids ∧ (ids = [] → row = []) := by
  induction row with
  | nil => exact ⟨[], rfl, .nil, fun _ => rfl⟩
  | cons placed rest ih =>
      cases placed with
      | whole id =>
          obtain ⟨ids, held, same, _⟩ := ih none
          exact ⟨id :: ids, by simp [Placed.held, held], by simpa using same, by simp⟩
      | loose chosen => simp at none
      | left id =>
          obtain ⟨ids, held, same, _⟩ := ih none
          refine ⟨id :: ids, by simp [Placed.held, held], ?_, by simp⟩
          simpa using List.perm_middle.trans (same.cons id)

/-- Every term has something to hold. -/
theorem eq_nil_of_held {terms : List Term}
    (filled : ∀ written, .operators written ∈ terms → written.parts ≠ [])
    (none : terms.flatMap Term.held = []) : terms = [] := by
  cases terms with
  | nil => rfl
  | cons term rest =>
      cases term with
      | operand id => cases none
      | stray id => cases none
      | operators written =>
          have parts := filled written List.mem_cons_self
          have held := (List.append_eq_nil_iff.mp none).1
          exact absurd (List.map_eq_nil_iff.mp held) parts

theorem eq_singleton_of_held {terms : List Term} {id : Nat}
    (filled : ∀ written, .operators written ∈ terms → written.parts ≠ [])
    (single : terms.flatMap Term.held = [item id]) : terms = [.operand id] ∨ terms = [.stray id] := by
  cases terms with
  | nil => cases single
  | cons term rest =>
      have filledRest : ∀ written, .operators written ∈ rest → written.parts ≠ [] :=
        fun written member => filled written (List.mem_cons_of_mem _ member)
      cases term with
      | operand other =>
          obtain ⟨same, none⟩ := List.cons_eq_cons.mp single
          cases same
          exact Or.inl (by rw [eq_nil_of_held filledRest none])
      | stray other =>
          obtain ⟨same, none⟩ := List.cons_eq_cons.mp single
          cases same
          exact Or.inr (by rw [eq_nil_of_held filledRest none])
      | operators written =>
          obtain ⟨first, more, parts⟩ := List.exists_cons_of_ne_nil (filled written List.mem_cons_self)
          simp [Term.held, OperatorMatch.held, parts] at single

end Parse

namespace LoggingGrip

open Parse

variable {floor : Nat} {holds : ParseState → List Held → Prop} {s t : ParseState}
  {left right : List Held} (grip : LoggingGrip floor holds)

include grip

theorem ends_addFaults {faults : List Fault} {row : List Held}
    (calm : ∀ fault ∈ faults, fault.critical = false ∧ fault.cause.Quiet)
    (among : ∀ fault ∈ faults, fault.Among s.forest row) (holding : holds s row) :
    Ends (faults.forM addFault) s
      (fun _ t => holds t row ∧ t.forest = s.forest ∧ t.cursor = s.cursor)
      (fun _ _ => False) := by
  induction faults generalizing s with
  | nil => exact ends_pure ⟨holding, rfl, rfl⟩
  | cons fault rest ih =>
      obtain ⟨start, length, cause, critical⟩ := fault
      obtain ⟨rfl, quiet⟩ := calm _ List.mem_cons_self
      rw [List.forM]
      unfold addFault
      rw [ends_modify_bind]
      exact ih (fun fault member => calm fault (List.mem_cons_of_mem _ member))
        (fun fault member => among fault (List.mem_cons_of_mem _ member))
        (grip.noted _ _ quiet (among _ List.mem_cons_self) holding)

/-- What becomes of the terms of a segment: nothing if there are none, the operand if it is the only
one, and otherwise a new item. -/
theorem ends_resolve {terms : List Term}
    (filled : ∀ written, .operators written ∈ terms → written.parts ≠ [])
    (holding : holds s (left ++ terms.flatMap Term.held)) :
    Ends (resolve terms) s
      (fun found t => t.cursor = s.cursor ∧
        (found = none ∧ terms = [] ∧ t.forest = s.forest ∧ holds t left ∨
          ∃ root, found = some root ∧ terms ≠ [] ∧ holds t (left ++ [item root]) ∧
            (terms = [.operand root] ∧ t.forest = s.forest ∨ t.forest.Bare root)))
      (fun _ _ => False) := by
  unfold resolve
  simp only [ends_forest_bind]
  obtain ⟨row, arranged⟩ := Reading.arranged_ofTerms s.forest.start filled
  have calm := Reading.faults_ofTerms s.forest.start terms
  obtain ⟨a, b, lined⟩ := grip.lined holding
  obtain ⟨m, _, placed⟩ := Forest.row_append.mp lined.placed
  have among : ∀ fault ∈ (Reading.ofTerms s.forest.start terms).faults,
      fault.Among s.forest (left ++ terms.flatMap Term.held) := fun fault member =>
    (Reading.among_ofTerms filled placed fault member).mono (List.subset_append_right _ _)
  generalize reading_eq : Reading.ofTerms s.forest.start terms = reading at arranged calm among ⊢
  refine (grip.ends_addFaults calm among holding).bind ?_ fun _ _ never => never
  rintro _ t ⟨holding, forest, cursor⟩
  have slots := arranged.slots
  split
  · rename_i empty
    simp only [Reading.isEmpty, Bool.and_eq_true, List.isEmpty_iff] at empty
    have none : row = [] := by
      have noWholes : row.wholes = [] := by rw [slots, empty.1.1]; rfl
      have noLooses : row.looses = [] := by rw [arranged.looses, empty.1.2]
      have noLefts : row.lefts = [] := by rw [arranged.lefts, empty.2]
      cases row with
      | nil => rfl
      | cons placed rest => cases placed <;> simp at noWholes noLooses noLefts
    obtain rfl := eq_nil_of_held filled (by rw [← arranged.held, none]; rfl)
    exact ends_pure ⟨cursor, Or.inl ⟨rfl, rfl, forest, by simpa using holding⟩⟩
  · rename_i notEmpty
    have some : terms ≠ [] := by
      rintro rfl
      exact notEmpty (by rw [← reading_eq]; rfl)
    rw [← slots]
    rw [← arranged.held] at holding
    refine (grip.ends_foldSlots arranged holding).bind ?_ fun _ _ never => never
    rintro nodes u ⟨row', rfl, looses, lefts, holding, steady, empty, only⟩
    split
    · -- Everything is in one item.
      rename_i _ _ node isNode isWhole
      simp only [Reading.isWhole, Bool.and_eq_true, List.isEmpty_iff] at isWhole
      have isSingle : row' = [.whole node] := by
        have noLooses : row'.looses = [] := by rw [looses, arranged.looses, isWhole.1.1]
        have noLefts : row'.lefts = [] := by rw [lefts, arranged.lefts, isWhole.1.2]
        exact Arrangement.eq_single isNode noLooses noLefts
      subst isSingle
      refine ends_pure ⟨steady.cursor.trans cursor,
        Or.inr ⟨node, rfl, some, by simpa [Placed.held] using holding, ?_⟩⟩
      rcases only node rfl with ⟨held, rfl⟩ | ⟨_, bare⟩
      · left
        refine ⟨?_, forest⟩
        rw [arranged.held] at held
        refine (eq_singleton_of_held filled held).resolve_right ?_
        rintro rfl
        have strays : reading.leftItems = [node] := by
          rw [← reading_eq]
          rfl
        rw [strays] at isWhole
        cases isWhole.1.2
      · exact Or.inr bare
    -- What is left over becomes a series, each loose operator as an item of its own.
    · obtain ⟨wholes', looses', lefts', held'⟩ := looseAsWhole_spec row'
      rw [← held'] at holding
      rw [← arranged.looses, ← looses, ← wholes']
      refine (ends_mapM_wholes createInfo Chosen.held (fun id => [item id]) (fun _ _ => True)
        (fun _ _ _ _ => True) left (fun chosen member s left right holding => ?_) holding).bind ?_
        fun _ _ never => never
      · have named : chosen.written.parts ≠ [] := by
          refine arranged.filled chosen ?_
          rwa [wholes', looses] at member
        refine (grip.ends_createInfo left right named holding).imp ?_ fun _ _ never => never
        rintro info t ⟨holding, _, steady⟩
        exact ⟨by simpa using holding, steady, trivial, trivial⟩
      · rintro infos v ⟨row'', rfl, same, holding, steadyMore, _, _⟩
        obtain ⟨looses'', lefts''⟩ := Arrangement.rel_others same
        obtain ⟨ids, held, perm, none⟩ := ids_of_row (looses''.symm.trans looses')
        rw [held] at holding
        have filledIds : ids ≠ [] := by
          intro noIds
          obtain rfl := none noIds
          have noRow : row'.map looseAsWhole = [] := by
            cases mapped : row'.map looseAsWhole with
            | nil => rfl
            | cons placed rest => rw [mapped] at same; cases same
          obtain rfl := empty (List.map_eq_nil_iff.mp noRow)
          have noSlots : reading.slots = [] := List.reverse_eq_nil_iff.mp slots.symm
          refine notEmpty ?_
          simp [Reading.isEmpty, noSlots, ← arranged.looses, ← arranged.lefts]
        have sorted : (row'.wholes ++ row''.wholes ++ reading.leftItems).Perm ids := by
          refine List.Perm.trans ?_ perm
          rw [← lefts'', ← arranged.lefts, ← lefts]
          refine List.Perm.trans ?_ (lefts'.symm.append_left _)
          rw [List.append_assoc]
          refine List.perm_append_comm_assoc _ _ _ |>.trans ?_
          exact List.Perm.refl _
        refine (grip.ends_createSeries filledIds sorted holding).bind ?_ fun _ _ never => never
        rintro series w ⟨holding, bare, _, steadySeries⟩
        refine ends_pure ⟨?_, Or.inr ⟨series, rfl, some, holding, Or.inr bare⟩⟩
        exact (((steady.trans steadyMore).trans steadySeries).cursor).trans cursor

end LoggingGrip

/-! All that is held -/

namespace Parse

variable {grammar : Grammar} {full : Prop} {base s : ParseState} {left : List Held} {b : Nat}

theorem ends_foldSlots {reading : Reading} {row : Arrangement Slot} {done : List Held}
    (arranged : reading.Arranged done row)
    (holding : Holding grammar full base s (left ++ row.held Slot.held) b) :
    Ends (foldSlots row.wholes) s
      (fun nodes t => ∃ row' : Arrangement ItemId, row'.wholes = nodes ∧ row'.looses = row.looses ∧
        row'.lefts = row.lefts ∧ Holding grammar full base t (left ++ row'.held fun id => [item id]) b ∧
        Steady s t ∧ (row' = [] → row = []) ∧ ∀ node, row' = [.whole node] →
          row.held Slot.held = [item node] ∧ t = s ∨ s.forest.size ≤ node ∧ t.forest.Bare node)
      (fun _ _ => False) :=
  (grip_holding grammar full base b).ends_foldSlots arranged holding

theorem ends_resolve {terms : List Term}
    (filled : ∀ written, .operators written ∈ terms → written.parts ≠ [])
    (holding : Holding grammar full base s (left ++ terms.flatMap Term.held) b)
    (inside : full → b ≤ base.cursor.text.size) :
    Ends (resolve terms) s
      (fun found t => t.cursor = s.cursor ∧
        (found = none ∧ terms = [] ∧ t.forest = s.forest ∧ Holding grammar full base t left b ∨
          ∃ root, found = some root ∧ Holding grammar full base t (left ++ [item root]) b ∧
            (terms = [.operand root] ∧ t.forest = s.forest ∨ t.forest.Bare root)))
      (fun _ _ => False) := by
  refine ((loggingGrip_holding grammar base inside).ends_resolve filled holding).imp ?_ fun _ _ never => never
  rintro found t ⟨cursor, none | ⟨root, isRoot, _, rest⟩⟩
  · exact ⟨cursor, Or.inl none⟩
  · exact ⟨cursor, Or.inr ⟨root, isRoot, rest⟩⟩

end Parse

end ExprLang
