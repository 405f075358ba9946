import ExprLang.Proofs.Precedence.Tree

/-!
The operators of a row are applied priority by priority, and that puts the trees together as
precedence and associativity want it: what is combined at one priority was combined at smaller ones
before, and from the left what is as tight is already in place.
-/

namespace ExprLang

variable {α : Type} [BEq α] [LawfulBEq α]

/-- In a sorted row equal values stand together, so each value once makes a row that ascends. -/
theorem pairwise_eraseDups {le : α → α → Prop} {row : List α} (sorted : row.Pairwise le) :
    row.eraseDups.Pairwise fun a b => le a b ∧ a ≠ b := by
  induction size : row.length using Nat.strongRecOn generalizing row with
  | ind n ih =>
      cases row with
      | nil => simp
      | cons first rest =>
          obtain ⟨ahead, later⟩ := List.pairwise_cons.mp sorted
          rw [List.eraseDups_cons]
          refine List.pairwise_cons.mpr ⟨fun other member => ?_, ?_⟩
          · rw [List.mem_eraseDups, List.mem_filter] at member
            exact ⟨ahead other member.1, fun same => by simp [same] at member⟩
          · refine ih _ ?_ (later.filter _) rfl
            have shorter := List.length_filter_le (fun other => !other == first) rest
            simp only [List.length_cons] at size
            omega

def Slot.tree (slot : Slot) : OperatorTree :=
  .tower slot.operand (unaryOrder slot.prefixes slot.postfixes)

namespace Run

def tree (run : Run OperatorTree) : OperatorTree :=
  Id.run (run.fold fun chosen left right => pure (.binary chosen left right))

def reading (run : Run OperatorTree) : List Piece :=
  run.first.reading ++ run.links.flatMap fun link => .operator link.1 :: link.2.reading

/-- A run whose trees are put together, with operators that all have a priority in `done`. -/
structure Obeys (done : Int → Prop) (run : Run OperatorTree) : Prop where
  first : run.first.Obeys
  rest : ∀ link ∈ run.links, link.1.operator.kind = .binary ∧ link.2.Obeys
  topFirst : ∀ priority ∈ run.first.binaryPriority?, done priority
  topRest : ∀ link ∈ run.links, ∀ priority ∈ link.2.binaryPriority?, done priority

variable {run : Run OperatorTree} {done more : Int → Prop} {first : OperatorTree}
  {links : List (Chosen × OperatorTree)}

theorem Obeys.imp (obeys : run.Obeys done) (further : ∀ priority, done priority → more priority) :
    run.Obeys more :=
  ⟨obeys.first, obeys.rest, fun priority isTop => further priority (obeys.topFirst priority isTop),
    fun link member priority isTop => further priority (obeys.topRest link member priority isTop)⟩

theorem obeys_cons {chosen : Chosen} {second : OperatorTree} :
    Obeys done ⟨first, (chosen, second) :: links⟩ ↔
      first.Obeys ∧ (∀ priority ∈ first.binaryPriority?, done priority) ∧
        chosen.operator.kind = .binary ∧ Obeys done ⟨second, links⟩ := by
  constructor
  · rintro ⟨obeys, rest, topFirst, topRest⟩
    obtain ⟨⟨kind, second⟩, rest⟩ := List.forall_mem_cons.mp rest
    obtain ⟨topSecond, topRest⟩ := List.forall_mem_cons.mp topRest
    exact ⟨obeys, topFirst, kind, second, rest, topSecond, topRest⟩
  · rintro ⟨obeys, topFirst, kind, second, rest, topSecond, topRest⟩
    exact ⟨obeys, List.forall_mem_cons.mpr ⟨⟨kind, second⟩, rest⟩, topFirst,
      List.forall_mem_cons.mpr ⟨topSecond, topRest⟩⟩

/-- One step: the operators of this priority take their neighbours, and nothing else moves. -/
theorem combineAt_spec {priority : Int} (obeysFirst : first.Obeys)
    (top : ∀ other ∈ first.binaryPriority?, other ≤ priority)
    (rest : ∀ link ∈ links, link.1.operator.kind = .binary ∧ link.2.Obeys ∧
      ∀ other ∈ link.2.binaryPriority?, other < priority) :
    ∃ run : Run OperatorTree,
      Id.run (combineAt (fun chosen left right => pure (.binary chosen left right)) priority first links) =
        run ∧ run.Obeys (· ≤ priority) ∧ run.reading = reading ⟨first, links⟩ ∧
      run.links.map (·.1) =
        (links.map (·.1)).filter fun chosen => chosen.operator.priority ≠ priority := by
  induction links generalizing first with
  | nil => exact ⟨⟨first, []⟩, rfl, ⟨obeysFirst, by simp, top, by simp⟩, rfl, rfl⟩
  | cons link links ih =>
      obtain ⟨chosen, second⟩ := link
      obtain ⟨⟨kind, obeys, less⟩, rest⟩ := List.forall_mem_cons.mp rest
      by_cases same : chosen.operator.priority = priority
      · have combined : (OperatorTree.binary chosen first second).Obeys :=
          OperatorTree.obeys_binary.mpr
            ⟨kind, fun other isTop => same ▸ top other isTop, fun other isTop => same ▸ less other isTop,
              obeysFirst, obeys⟩
        obtain ⟨run, isRun, obeys, reads, left⟩ := ih combined
          (fun other isTop => by cases isTop; exact Int.le_of_eq same) rest
        refine ⟨run, ?_, obeys, ?_, by simpa [same] using left⟩
        · simpa [combineAt, same] using isRun
        · simpa [reading, OperatorTree.reading] using reads
      · obtain ⟨run, isRun, obeysRun, reads, left⟩ := ih obeys
          (fun other isTop => Int.le_of_lt (less other isTop)) rest
        refine ⟨⟨first, (chosen, run.first) :: run.links⟩, ?_,
          obeys_cons.mpr ⟨obeysFirst, top, kind, obeysRun⟩, ?_, by simpa [same] using left⟩
        · simp [combineAt, same, isRun]
        · simpa [reading] using reads

/-- Operators that bind tighter have been applied before. -/
theorem foldAt_spec {priorities : List Int} (ascending : priorities.Pairwise (· < ·))
    (obeys : run.Obeys fun priority => ∀ later ∈ priorities, priority < later)
    (covered : ∀ link ∈ run.links, link.1.operator.priority ∈ priorities) :
    ∃ tree, Id.run (foldAt (fun chosen left right => pure (.binary chosen left right)) priorities run) =
      tree ∧ tree.Obeys ∧ tree.reading = run.reading := by
  induction priorities generalizing run with
  | nil =>
      have none : run.links = [] :=
        List.eq_nil_iff_forall_not_mem.mpr fun link member => by simpa using covered link member
      exact ⟨run.first, rfl, obeys.first, by simp [reading, none]⟩
  | cons priority rest ih =>
      obtain ⟨before, ascending⟩ := List.pairwise_cons.mp ascending
      obtain ⟨next, isNext, obeysNext, reads, left⟩ := combineAt_spec obeys.first
        (fun other isTop => Int.le_of_lt (obeys.topFirst other isTop priority List.mem_cons_self))
        (fun link member => ⟨(obeys.rest link member).1, (obeys.rest link member).2,
          fun other isTop => obeys.topRest link member other isTop priority List.mem_cons_self⟩)
      obtain ⟨tree, isTree, obeysTree, sameReading⟩ := ih ascending
        (obeysNext.imp fun other le later member => Int.lt_of_le_of_lt le (before later member))
        (fun link member => by
          have listed : link.1 ∈ next.links.map (·.1) := List.mem_map_of_mem member
          rw [left, List.mem_filter] at listed
          obtain ⟨old, inLinks, same⟩ := List.mem_map.mp listed.1
          have other : link.1.operator.priority ≠ priority := by simpa using listed.2
          rw [← same] at other ⊢
          exact (List.mem_cons.mp (covered old inLinks)).resolve_left other)
      refine ⟨tree, ?_, obeysTree, sameReading.trans reads⟩
      simp only [foldAt, Id.run_bind, isNext, isTree]

theorem pairwise_priorities (run : Run OperatorTree) : run.priorities.Pairwise (· < ·) := by
  have sorted : (sortBy (fun a b : Int => decide (a ≤ b))
      (run.links.map (·.1.operator.priority))).Pairwise (· ≤ ·) := by
    refine (pairwise_sortBy ?_ ?_ _).imp fun le => of_decide_eq_true le
    · intro a b
      simpa using Int.le_total a b
    · intro a b c
      simpa using Int.le_trans
  refine (pairwise_eraseDups sorted).imp fun ⟨le, different⟩ =>
    Int.lt_iff_le_and_ne.mpr ⟨le, different⟩

/-- Operands with unary operators only, and binary operators between them. -/
theorem tree_spec (run : Run OperatorTree) (obeysFirst : run.first.Obeys) (rest : ∀ link ∈ run.links,
      link.1.operator.kind = .binary ∧ link.2.Obeys)
    (unary : run.first.binaryPriority? = none) (unaryRest : ∀ link ∈ run.links,
      link.2.binaryPriority? = none) : run.tree.Obeys ∧ run.tree.reading = run.reading := by
  have start : run.Obeys fun priority => ∀ later ∈ run.priorities, priority < later :=
    ⟨obeysFirst, rest, by simp [unary], fun link member => by simp [unaryRest link member]⟩
  obtain ⟨tree, isTree, obeys, reads⟩ := foldAt_spec (pairwise_priorities run) start
    (fun link member => by
      rw [priorities, List.mem_eraseDups, sortBy_perm.mem_iff]
      exact List.mem_map_of_mem member)
  obtain rfl : run.tree = tree := isTree
  exact ⟨obeys, reads⟩

/-- Where every node is linked to the one before it there is just one run. -/
theorem split_linked {Node : Type} (node : Node) (rest : List (Option Chosen × Node))
    (linked : ∀ next ∈ rest, next.1.isSome) : ∃ links,
      split node rest = (⟨node, links⟩, []) ∧ rest = links.map fun link => (some link.1, link.2) := by
  induction rest generalizing node with
  | nil => exact ⟨[], rfl, rfl⟩
  | cons next rest ih =>
      obtain ⟨isLinked, linkedRest⟩ := List.forall_mem_cons.mp linked
      obtain ⟨link, second⟩ := next
      obtain ⟨chosen, rfl⟩ := Option.isSome_iff_exists.mp isLinked
      obtain ⟨links, parts, rfl⟩ := ih second linkedRest
      exact ⟨(chosen, second) :: links, by simp [split, parts], rfl⟩

end Run

/-! Rows of slots -/

namespace Slot

/-- The kinds of the operators are those of their places. -/
structure Fits (slot : Slot) : Prop where
  prefixes : ∀ chosen ∈ slot.prefixes, chosen.operator.kind = .prefixOp
  postfixes : ∀ chosen ∈ slot.postfixes, chosen.operator.kind = .postfixOp
  link : ∀ chosen ∈ slot.link, chosen.operator.kind = .binary

variable {slot : Slot} {slots : List Slot}

/-- The unary operators of a slot are mixed by priority and keep their sides. -/
theorem Fits.merges (fits : slot.Fits) :
    Merges slot.prefixes.reverse slot.postfixes (unaryOrder slot.prefixes slot.postfixes) := by
  refine merges_mergeBy (fun chosen member => ?_) (fun chosen member => ?_)
  · simp [Chosen.isPrefix, fits.prefixes chosen (List.mem_reverse.mp member)]
  · simp [Chosen.isPostfix, fits.postfixes chosen member]

theorem Fits.unary (fits : slot.Fits) : Unary (unaryOrder slot.prefixes slot.postfixes) := by
  intro chosen member
  rw [unaryOrder, (mergeBy_perm _ _).mem_iff, List.mem_append, List.mem_reverse] at member
  refine member.imp (fun inPrefixes => ?_) (fun inPostfixes => ?_)
  · simp [Chosen.isPrefix, fits.prefixes chosen inPrefixes]
  · simp [Chosen.isPostfix, fits.postfixes chosen inPostfixes]

theorem binaryPriority_tree (slot : Slot) : slot.tree.binaryPriority? = none :=
  OperatorTree.binaryPriority_tower

theorem Fits.obeys (fits : slot.Fits) : slot.tree.Obeys :=
  OperatorTree.obeys_tower fits.unary fits.merges.interleaved

theorem Fits.reading (fits : slot.Fits) :
    slot.link.toList.map .operator ++ slot.tree.reading = slot.pieces := by
  rw [tree, OperatorTree.reading_tower fits.unary, fits.merges.prefixes, fits.merges.postfixes]
  simp [pieces]

/-- The row is one run: a binary operator stands between each two slots, and none in front. -/
def Unbroken : List Slot → Prop
  | [] => False
  | first :: rest => first.link = none ∧ ∀ slot ∈ rest, slot.link.isSome

/-- One tree for each run of the slots. -/
def trees (slots : List Slot) : List OperatorTree :=
  match slots.map fun slot => (slot.link, slot.tree) with
  | [] => []
  | (_, first) :: rest =>
      let (run, runs) := Run.split first rest
      (run :: runs).map Run.tree

/-- The operators of an unbroken row make one tree, which takes all of them in their order and is put
together by precedence and associativity. -/
theorem trees_spec (fits : ∀ slot ∈ slots, slot.Fits) (unbroken : Unbroken slots) :
    ∃ tree, trees slots = [tree] ∧ tree.Obeys ∧ tree.reading = slots.flatMap pieces := by
  cases slots with
  | nil => cases unbroken
  | cons first rest =>
      obtain ⟨noLink, linked⟩ := unbroken
      obtain ⟨fitsFirst, fits⟩ := List.forall_mem_cons.mp fits
      obtain ⟨links, parts, mapped⟩ := Run.split_linked first.tree
        (rest.map fun slot => (slot.link, slot.tree)) (by simpa using linked)
      have ofLink : ∀ link ∈ links, ∃ slot ∈ rest, slot.link = some link.1 ∧ slot.tree = link.2 := by
        intro link member
        have listed := List.mem_map_of_mem (f := fun link => (some link.1, link.2)) member
        rw [← mapped] at listed
        obtain ⟨slot, inRest, same⟩ := List.mem_map.mp listed
        exact ⟨slot, inRest, congrArg Prod.fst same, congrArg Prod.snd same⟩
      obtain ⟨obeys, reads⟩ := Run.tree_spec ⟨first.tree, links⟩ fitsFirst.obeys
        (fun link member => by
          obtain ⟨slot, inRest, isLink, isTree⟩ := ofLink link member
          exact ⟨(fits slot inRest).link link.1 isLink, isTree ▸ (fits slot inRest).obeys⟩)
        first.binaryPriority_tree
        (fun link member => by
          obtain ⟨slot, _, _, isTree⟩ := ofLink link member
          exact isTree ▸ slot.binaryPriority_tree)
      refine ⟨_, ?_, obeys, reads.trans ?_⟩
      · simp [trees, parts]
      · have behind : rest.flatMap pieces =
            links.flatMap fun link => .operator link.1 :: link.2.reading := by
          calc rest.flatMap pieces
              = rest.flatMap fun slot => slot.link.toList.map .operator ++ slot.tree.reading :=
                List.flatMap_congr fun slot member => ((fits slot member).reading).symm
            _ = (rest.map fun slot => (slot.link, slot.tree)).flatMap fun node =>
                  node.1.toList.map .operator ++ node.2.reading := by rw [List.flatMap_map]
            _ = _ := by rw [mapped, List.flatMap_map]; rfl
        have front := fitsFirst.reading
        simp only [noLink, Option.toList_none, List.map_nil, List.nil_append] at front
        rw [List.flatMap_cons, behind, Run.reading, front]

end Slot

end ExprLang
