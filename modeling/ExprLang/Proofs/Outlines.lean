import ExprLang.Output.Outline
import ExprLang.Proofs.Fields.Agreement
import ExprLang.Proofs.Tandem.Mirror

/-!
Outlines and copies. An outline follows the fields of an item, which name its parts, so it never meets
an item twice on a way down, and the bound on its depth can be forgotten. A copy of some items, with
other numbers, in another forest has the outlines of the originals.
-/

namespace ExprLang

namespace ItemKind

/-- The same fields with other numbers. -/
def rename (f : ItemId → ItemId) : ItemKind → ItemKind
  | braces kind name opening closing parameters =>
      braces kind (name.map f) (f opening) (closing.map f) (parameters.map (·.map f))
  | codeBlock start stop statements => codeBlock (f start) (stop.map f) (statements.map f)
  | operator id kind priority info operand right =>
      operator id kind priority (f info) (f operand) (right.map f)
  | root statements separators => root (statements.map f) (separators.map f)
  | kind => kind

/-- The items that the fields name. -/
def fields : ItemKind → List ItemId
  | braces _ name opening closing parameters =>
      name.toList ++ opening :: (closing.toList ++ parameters.flatMap (·.toList))
  | codeBlock start stop statements => start :: (stop.toList ++ statements)
  | operator _ _ _ info operand right => info :: operand :: right.toList
  | root statements separators => statements ++ separators
  | _ => []

variable {tokenKind? : ItemId → Option TokenKind} {regular children : List ItemId} {kind : ItemKind}

/-- Nothing but parts is named. -/
theorem Agrees.fields_subset (agrees : kind.Agrees tokenKind? regular children)
    (among : children ⊆ regular) : kind.fields ⊆ regular := by
  cases kind with
  | braces kind name opening closing parameters =>
      obtain ⟨between, rfl, _, _, closed, last, rfl, _, _, rfl⟩ := agrees
      have inside : (if closed.flatMap (fun place => place.1.toList ++ [place.2]) ++ last.toList = []
          then [] else closed.map (·.1) ++ [last]).flatMap Option.toList ⊆
            closed.flatMap (fun place => place.1.toList ++ [place.2]) ++ last.toList := by
        split
        · exact List.nil_subset _
        · intro item member
          simp only [List.mem_flatMap, List.mem_append, List.mem_map, List.mem_singleton] at member ⊢
          obtain ⟨_, ⟨place, inClosed, rfl⟩ | rfl, isItem⟩ := member
          · exact Or.inl ⟨place, inClosed, Or.inl isItem⟩
          · exact Or.inr isItem
      intro item member
      simp only [fields, List.mem_append, List.mem_cons] at member ⊢
      rcases member with isName | rfl | isClosing | isParameter
      · exact Or.inl isName
      · exact Or.inr (Or.inl rfl)
      · exact Or.inr (Or.inr (Or.inr isClosing))
      · exact Or.inr (Or.inr (Or.inl (List.mem_append.mp (inside isParameter))))
  | codeBlock start stop statements =>
      obtain ⟨between, rfl, _, _, _, rfl⟩ := agrees
      intro item member
      simp only [fields, List.mem_append, List.mem_cons] at member
      rcases member with rfl | isStop | isStatement
      · exact List.mem_cons_self
      · exact List.mem_cons_of_mem _ (List.mem_append_right _ isStop)
      · exact among isStatement
  | root statements separators =>
      obtain ⟨rfl, rfl, _⟩ := agrees
      exact List.append_subset.mpr ⟨among, List.filter_subset_self _⟩
  | operator id kind priority info operand right =>
      cases kind with
      | prefixOp =>
          obtain ⟨rfl, rfl⟩ := agrees
          exact List.Subset.refl _
      | postfixOp =>
          obtain ⟨rfl, rfl⟩ := agrees
          simp [fields]
      | binary =>
          obtain ⟨other, rfl, rfl⟩ := agrees
          simp [fields]
  | token kind text => exact List.nil_subset _
  | literal name => exact List.nil_subset _
  | numeric value type kind => exact List.nil_subset _
  | constantText raw text quote closed => exact List.nil_subset _
  | operatorInfo id kind name => exact List.nil_subset _
  | custom category trigger name accepts => exact List.nil_subset _
  | series => exact List.nil_subset _

end ItemKind

namespace Forest

/-- The other forest has copies of the items that are known and of all that stands below them. -/
structure Copied (forest other : Forest) (f : ItemId → ItemId) (known : ItemId → Prop) : Prop where
  linked : forest.Linked
  inside : ∀ id, known id → id < forest.size
  kind : ∀ id, known id → other.kind? (f id) = (forest.kind? id).map (·.rename f)
  parts : ∀ id, known id → other.parts (f id) = (forest.parts id).map f
  agrees : ∀ id, known id → forest.Agrees id
  below : ∀ id part, known id → forest.Owns id part → known part

namespace Copied

variable {forest other : Forest} {f : ItemId → ItemId} {known : ItemId → Prop}
  (copied : Copied forest other f known) {id : ItemId}

include copied

theorem field_owned {kind : ItemKind} (here : known id) (isKind : forest.kind? id = some kind)
    {field : ItemId} (member : field ∈ kind.fields) : forest.Owns id field := by
  have regular := (copied.agrees id here kind isKind).fields_subset
    (copied.linked.children id).subset member
  simp only [Owns, Parts.all, List.mem_append]
  exact Or.inl (Or.inr regular)

/-! One step down -/

section Step

variable {steps more : Nat} (here : known id)
  (outlines : ∀ part, forest.Owns id part →
    other.outlineWithin more (f part) = forest.outlineWithin steps part)

include here outlines

omit copied here in
theorem map_outlines (list : List ItemId) (owned : ∀ part ∈ list, forest.Owns id part) :
    (list.map f).map (other.outlineWithin more) = list.map (forest.outlineWithin steps) := by
  rw [List.map_map]
  exact List.map_congr_left fun part member => outlines part (owned part member)

theorem outlineWithin_succ (core : other.coreWithin more (f id) = forest.coreWithin steps id) :
    other.outlineWithin (more + 1) (f id) = forest.outlineWithin (steps + 1) id := by
  have owned : ∀ list ⊆ (forest.parts id).all, ∀ part ∈ list, forest.Owns id part :=
    fun _ subset _ member => subset member
  have prefixes := map_outlines outlines _ (owned (forest.parts id).prefixes (by
    intro part member
    simp [Parts.all, member]))
  have keywords := map_outlines outlines _ (owned (forest.parts id).keywords (by
    intro part member
    simp [Parts.all, member]))
  have postfixes := map_outlines outlines _ (owned (forest.parts id).postfixes (by
    intro part member
    simp [Parts.all, member]))
  simp only [Forest.outlineWithin, copied.parts id here, Parts.map, core, prefixes, keywords, postfixes]

theorem coreWithin_succ (cores : ∀ part, forest.Owns id part →
      other.coreWithin more (f part) = forest.coreWithin steps part) :
    other.coreWithin (more + 1) (f id) = forest.coreWithin (steps + 1) id := by
  have children := map_outlines outlines (forest.parts id).children fun part member =>
    copied.linked.named_of_child (List.mem_append_right _ member)
  simp only [Forest.coreWithin, copied.kind id here, copied.parts id here, Parts.map]
  cases isKind : forest.kind? id with
  | none => rfl
  | some kind =>
      -- Whatever a field points to is owned, so its outline is known to be the same.
      have owned : ∀ field ∈ kind.fields, forest.Owns id field :=
        fun field member => copied.field_owned here isKind member
      rw [Option.map_some]
      cases kind with
      | braces kind name opening closing parameters =>
          have sameName : (name.map f).map (other.outlineWithin more) =
              name.map (forest.outlineWithin steps) := by
            cases name with
            | none => rfl
            | some name => exact congrArg some (outlines name (owned name (by simp [ItemKind.fields])))
          have sameParameters : (parameters.map (·.map f)).map
                (fun parameter => (parameter.map (other.outlineWithin more)).getD "_") =
              parameters.map fun parameter => (parameter.map (forest.outlineWithin steps)).getD "_" := by
            rw [List.map_map]
            refine List.map_congr_left fun parameter member => ?_
            cases parameter with
            | none => rfl
            | some item =>
                exact outlines item (owned item (by
                  simp only [ItemKind.fields, List.mem_append, List.mem_cons, List.mem_flatMap]
                  exact Or.inr (Or.inr (Or.inr ⟨some item, member, by simp⟩))))
          simp only [ItemKind.rename, sameName, sameParameters]
      | codeBlock start stop statements =>
          have sameStart := cores start (owned start (by simp [ItemKind.fields]))
          have sameStop : (stop.map f).map (other.coreWithin more) = stop.map (forest.coreWithin steps) := by
            cases stop with
            | none => rfl
            | some stop => exact congrArg some (cores stop (owned stop (by simp [ItemKind.fields])))
          have sameStatements := map_outlines outlines statements fun part member =>
            owned part (by simp [ItemKind.fields, member])
          simp only [ItemKind.rename, sameStart, sameStop, sameStatements]
      | operator id kind priority info operand right =>
          have sameInfo := cores info (owned info (by simp [ItemKind.fields]))
          have sameOperand := outlines operand (owned operand (by simp [ItemKind.fields]))
          cases right with
          | none => cases kind <;> simp only [ItemKind.rename, Option.map_none, sameInfo, sameOperand]
          | some right =>
              have sameRight := outlines right (owned right (by simp [ItemKind.fields]))
              cases kind <;>
                simp only [ItemKind.rename, Option.map_some, sameInfo, sameOperand, sameRight]
      | root statements separators =>
          have sameStatements := map_outlines outlines statements fun part member =>
            owned part (by simp [ItemKind.fields, member])
          simp only [ItemKind.rename, sameStatements]
      | custom category trigger name accepts => simp only [ItemKind.rename, List.isEmpty_map, children]
      | series => simp only [ItemKind.rename, children]
      | token kind text => rfl
      | literal name => rfl
      | numeric value type kind => rfl
      | constantText raw text quote closed => rfl
      | operatorInfo id kind name => rfl

end Step

/-- A step down is to a lighter item, or from the whole item to the item without its modifiers. -/
theorem outlineWithin {steps more : Nat} (here : known id) :
    (2 * forest.weight id ≤ steps → 2 * forest.weight id ≤ more →
      other.outlineWithin more (f id) = forest.outlineWithin steps id) ∧
    (2 * forest.weight id ≤ steps + 1 → 2 * forest.weight id ≤ more + 1 →
      other.coreWithin more (f id) = forest.coreWithin steps id) := by
  induction steps generalizing more id with
  | zero =>
      have := Forest.weight_pos (copied.inside id here)
      exact ⟨fun enough => by omega, fun enough => by omega⟩
  | succ steps ih =>
      have heavy := Forest.weight_pos (copied.inside id here)
      cases more with
      | zero => exact ⟨fun _ enough => by omega, fun _ enough => by omega⟩
      | succ more =>
          have below : 2 * forest.weight id ≤ steps + 2 → 2 * forest.weight id ≤ more + 2 →
              ∀ part, forest.Owns id part →
                other.outlineWithin more (f part) = forest.outlineWithin steps part ∧
                  other.coreWithin more (f part) = forest.coreWithin steps part := by
            intro enough enoughOther part owns
            have lighter := copied.linked.weight_lt owns
            obtain ⟨outline, core⟩ := @ih part more (copied.below id part here owns)
            exact ⟨outline (by omega) (by omega), core (by omega) (by omega)⟩
          constructor
          · intro enough enoughOther
            have below := below (by omega) (by omega)
            exact copied.outlineWithin_succ here (fun part owns => (below part owns).1)
              ((ih here).2 (by omega) (by omega))
          · intro enough enoughOther
            have below := below (by omega) (by omega)
            exact copied.coreWithin_succ here (fun part owns => (below part owns).1)
              fun part owns => (below part owns).2

theorem outline (smaller : forest.size ≤ other.size) (here : known id) :
    other.outline (f id) = forest.outline id := by
  have bound := @Forest.weight_le_size forest id
  exact (copied.outlineWithin here).1 (by omega) (by omega)

end Copied

end Forest

end ExprLang
