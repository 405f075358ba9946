import ExprLang.Parse.Reading
import ExprLang.Proofs.Order
import Mathlib.Data.List.Induction

/-!
Operator trees by themselves, without the items they are stored in. A tree is read from left to
right; precedence and associativity say which of the trees with one reading is meant, and there is
just one.

Around an operand the unary operators bind first. Two of them on the same side stand in text order,
so all that is left to say is how the two sides are mixed.
-/

namespace ExprLang

inductive OperatorTree where
  | operand (item : ItemId)
  | unary (chosen : Chosen) (inside : OperatorTree)
  | binary (chosen : Chosen) (left right : OperatorTree)
  deriving DecidableEq, Repr

/-- What a tree is made of. -/
inductive Piece where
  | operand (item : ItemId)
  | operator (chosen : Chosen)
  deriving DecidableEq, Repr

def Chosen.isPrefix (chosen : Chosen) : Bool := chosen.operator.kind == .prefixOp

def Chosen.isPostfix (chosen : Chosen) : Bool := chosen.operator.kind == .postfixOp

def Slot.pieces (slot : Slot) : List Piece :=
  slot.link.toList.map .operator ++ slot.prefixes.map .operator ++ [.operand slot.operand] ++
    slot.postfixes.map .operator

namespace OperatorTree

/-- The tree from left to right. -/
def reading : OperatorTree → List Piece
  | operand item => [.operand item]
  | unary chosen inside =>
      if chosen.isPrefix then .operator chosen :: inside.reading
      else inside.reading ++ [.operator chosen]
  | binary chosen left right => left.reading ++ .operator chosen :: right.reading

/-- Operators of one operand have one, binary operators have two. -/
def Fitting : OperatorTree → Prop
  | operand _ => True
  | unary chosen inside => (chosen.isPrefix ∨ chosen.isPostfix) ∧ inside.Fitting
  | binary chosen left right => chosen.operator.kind = .binary ∧ left.Fitting ∧ right.Fitting

/-- The priority of a binary operator at the top. -/
def binaryPriority? : OperatorTree → Option Int
  | binary chosen _ _ => some chosen.operator.priority
  | _ => none

/-- A binary operator takes what binds tighter, and on its left also what binds as tight. -/
def Leaning : OperatorTree → Prop
  | operand _ => True
  | unary _ inside => inside.Leaning
  | binary chosen left right =>
      (∀ priority ∈ left.binaryPriority?, priority ≤ chosen.operator.priority) ∧
        (∀ priority ∈ right.binaryPriority?, priority < chosen.operator.priority) ∧
        left.Leaning ∧ right.Leaning

def HasBinary : OperatorTree → Prop
  | operand _ => False
  | unary _ inside => inside.HasBinary
  | binary .. => True

/-- Below a unary operator there is no binary one. -/
def Close : OperatorTree → Prop
  | operand _ => True
  | unary _ inside => ¬ inside.HasBinary
  | binary _ left right => left.Close ∧ right.Close

/-- The unary operators at the top, from the inside out. -/
def nest : OperatorTree → List Chosen
  | unary chosen inside => inside.nest ++ [chosen]
  | _ => []

end OperatorTree

/-- Seen from any place among the operators around an operand, the next prefix one further out comes
before the next postfix one exactly if its priority number is smaller. -/
def Interleaved (nest : List Chosen) : Prop :=
  ∀ inner outer, nest = inner ++ outer → ∀ before behind,
    outer.find? (·.isPrefix) = some before → outer.find? (·.isPostfix) = some behind →
      (outer.head? = some before ↔ before.operator.priority < behind.operator.priority) ∧
        (outer.head? = some behind ↔ behind.operator.priority ≤ before.operator.priority)

namespace OperatorTree

/-- The operators around each operand are mixed by priority. -/
def Mixed : OperatorTree → Prop
  | operand _ => True
  | unary chosen inside => Interleaved (inside.nest ++ [chosen])
  | binary _ left right => left.Mixed ∧ right.Mixed

/-- A tree that is put together by precedence and associativity. -/
structure Obeys (tree : OperatorTree) : Prop where
  fitting : tree.Fitting
  leaning : tree.Leaning
  close : tree.Close
  mixed : tree.Mixed

end OperatorTree

/-! Unary operators -/

/-- Every operator of the row takes one operand. -/
def Unary (nest : List Chosen) : Prop := ∀ chosen ∈ nest, chosen.isPrefix ∨ chosen.isPostfix

namespace Chosen

theorem not_isPrefix {chosen : Chosen} (isPostfix : chosen.isPostfix = true) :
    chosen.isPrefix = false := by
  have kind : chosen.operator.kind = .postfixOp := eq_of_beq isPostfix
  simp [Chosen.isPrefix, kind]

theorem not_isPostfix {chosen : Chosen} (isPrefix : chosen.isPrefix = true) :
    chosen.isPostfix = false := by
  have kind : chosen.operator.kind = .prefixOp := eq_of_beq isPrefix
  simp [Chosen.isPostfix, kind]

theorem not_binary {chosen : Chosen} (unary : chosen.isPrefix ∨ chosen.isPostfix) :
    chosen.operator.kind ≠ .binary := by
  intro binary
  simp [Chosen.isPrefix, Chosen.isPostfix, binary] at unary

end Chosen

section Interleaving

variable {chosen : Chosen} {nest other : List Chosen}

theorem Interleaved.nil : Interleaved [] := by
  intro inner outer parts before behind isBefore
  obtain ⟨rfl, rfl⟩ := List.append_eq_nil_iff.mp parts.symm
  cases isBefore

theorem interleaved_cons : Interleaved (chosen :: nest) ↔
    (∀ before behind, (chosen :: nest).find? (·.isPrefix) = some before →
      (chosen :: nest).find? (·.isPostfix) = some behind →
        (chosen = before ↔ before.operator.priority < behind.operator.priority) ∧
          (chosen = behind ↔ behind.operator.priority ≤ before.operator.priority)) ∧
      Interleaved nest := by
  constructor
  · intro interleaved
    refine ⟨fun before behind isBefore isBehind => ?_, fun inner outer parts => ?_⟩
    · simpa using interleaved [] (chosen :: nest) rfl before behind isBefore isBehind
    · exact interleaved (chosen :: inner) outer (by rw [parts, List.cons_append])
  · rintro ⟨first, later⟩ inner outer parts before behind isBefore isBehind
    cases inner with
    | nil =>
        obtain rfl : chosen :: nest = outer := parts
        simpa using first before behind isBefore isBehind
    | cons _ inner =>
        exact later inner outer (List.cons.inj parts).2 before behind isBefore isBehind

theorem Unary.tail (unary : Unary (chosen :: nest)) : Unary nest :=
  fun other member => unary other (List.mem_cons_of_mem _ member)

/-- A row that begins with the prefix operator and one that begins with the postfix one do not both
keep to the priorities. -/
theorem head_agrees {first second : Chosen} (unary : Unary (first :: nest))
    (unaryOther : Unary (second :: other))
    (interleaved : Interleaved (first :: nest)) (interleavedOther : Interleaved (second :: other))
    (prefixes : (first :: nest).find? (·.isPrefix) = (second :: other).find? (·.isPrefix))
    (postfixes : (first :: nest).find? (·.isPostfix) = (second :: other).find? (·.isPostfix)) :
    first = second := by
  have agreed := (interleaved_cons.mp interleaved).1
  have agreedOther := (interleaved_cons.mp interleavedOther).1
  rcases unary first List.mem_cons_self with isPrefix | isPostfix <;>
    rcases unaryOther second List.mem_cons_self with isPrefix' | isPostfix'
  · simpa [isPrefix, isPrefix'] using prefixes
  · have before : (second :: other).find? (·.isPrefix) = some first := by simp [← prefixes, isPrefix]
    have behind : (first :: nest).find? (·.isPostfix) = some second := by simp [postfixes, isPostfix']
    have less := (agreed first second (by simp [isPrefix]) behind).1.mp rfl
    have atMost := (agreedOther first second before (by simp [isPostfix'])).2.mp rfl
    omega
  · have behind : (second :: other).find? (·.isPostfix) = some first := by
      simp [← postfixes, isPostfix]
    have before : (first :: nest).find? (·.isPrefix) = some second := by simp [prefixes, isPrefix']
    have atMost := (agreed second first before (by simp [isPostfix])).2.mp rfl
    have less := (agreedOther second first (by simp [isPrefix']) behind).1.mp rfl
    omega
  · simpa [isPostfix, isPostfix'] using postfixes

/-- The operators of each side, in their order, say how the two sides are mixed. -/
theorem Interleaved.unique (unary : Unary nest) (unaryOther : Unary other)
    (interleaved : Interleaved nest) (interleavedOther : Interleaved other)
    (prefixes : nest.filter (·.isPrefix) = other.filter (·.isPrefix))
    (postfixes : nest.filter (·.isPostfix) = other.filter (·.isPostfix)) : nest = other := by
  have empty : ∀ {row : List Chosen}, Unary row → row.filter (·.isPrefix) = [] →
      row.filter (·.isPostfix) = [] → row = [] := by
    intro row unary noPrefix noPostfix
    rw [List.filter_eq_nil_iff] at noPrefix noPostfix
    rw [List.eq_nil_iff_forall_not_mem]
    intro chosen member
    exact (unary chosen member).elim (noPrefix chosen member) (noPostfix chosen member)
  induction nest generalizing other with
  | nil => exact (empty unaryOther prefixes.symm postfixes.symm).symm
  | cons first nest ih =>
      cases other with
      | nil => exact empty unary prefixes postfixes
      | cons second other =>
          obtain rfl : first = second := by
            refine head_agrees unary unaryOther interleaved interleavedOther ?_ ?_
            · rw [← List.head?_filter, prefixes, List.head?_filter]
            · rw [← List.head?_filter, postfixes, List.head?_filter]
          congr 1
          refine ih unary.tail unaryOther.tail (interleaved_cons.mp interleaved).2
            (interleaved_cons.mp interleavedOther).2 ?_ ?_
          · simp only [List.filter_cons] at prefixes
            split at prefixes
            · exact (List.cons.inj prefixes).2
            · exact prefixes
          · simp only [List.filter_cons] at postfixes
            split at postfixes
            · exact (List.cons.inj postfixes).2
            · exact postfixes

/-- Prefix and postfix operators that are merged by priority, each from the inside out. -/
structure Merges (prefixes postfixes nest : List Chosen) : Prop where
  prefixes : nest.filter (·.isPrefix) = prefixes
  postfixes : nest.filter (·.isPostfix) = postfixes
  interleaved : Interleaved nest

theorem Merges.ofPrefixes {prefixes : List Chosen} (arePrefix : ∀ chosen ∈ prefixes, chosen.isPrefix) :
    Merges prefixes [] prefixes where
  prefixes := List.filter_eq_self.mpr arePrefix
  postfixes := List.filter_eq_nil_iff.mpr fun chosen member => by
    simp [Chosen.not_isPostfix (arePrefix chosen member)]
  interleaved := by
    rintro inner outer rfl before behind _ isBehind
    have member := List.mem_append_right inner (List.mem_of_find?_eq_some isBehind)
    have isPostfix := List.find?_some isBehind
    rw [Chosen.not_isPostfix (arePrefix behind member)] at isPostfix
    cases isPostfix

theorem Merges.ofPostfixes {postfixes : List Chosen}
    (arePostfix : ∀ chosen ∈ postfixes, chosen.isPostfix) : Merges [] postfixes postfixes where
  prefixes := List.filter_eq_nil_iff.mpr fun chosen member => by
    simp [Chosen.not_isPrefix (arePostfix chosen member)]
  postfixes := List.filter_eq_self.mpr arePostfix
  interleaved := by
    rintro inner outer rfl before behind isBefore _
    have member := List.mem_append_right inner (List.mem_of_find?_eq_some isBefore)
    have isPrefix := List.find?_some isBefore
    rw [Chosen.not_isPrefix (arePostfix before member)] at isPrefix
    cases isPrefix

variable {before behind : Chosen} {prefixes postfixes : List Chosen}

theorem Merges.consPrefix (merges : Merges prefixes (behind :: postfixes) nest)
    (isPrefix : before.isPrefix = true)
    (less : before.operator.priority < behind.operator.priority) :
    Merges (before :: prefixes) (behind :: postfixes) (before :: nest) where
  prefixes := by rw [List.filter_cons_of_pos isPrefix, merges.prefixes]
  postfixes := by
    rw [List.filter_cons_of_neg (by simp [Chosen.not_isPostfix isPrefix]), merges.postfixes]
  interleaved := by
    refine interleaved_cons.mpr ⟨fun first second isFirst isSecond => ?_, merges.interleaved⟩
    obtain rfl : before = first := by simpa [isPrefix] using isFirst
    obtain rfl : behind = second := by
      rw [← List.head?_filter, List.filter_cons_of_neg (by simp [Chosen.not_isPostfix isPrefix]),
        merges.postfixes] at isSecond
      exact Option.some.inj isSecond
    refine ⟨iff_of_true rfl less, iff_of_false ?_ (by omega)⟩
    rintro rfl
    omega

theorem Merges.consPostfix (merges : Merges (before :: prefixes) postfixes nest)
    (isPostfix : behind.isPostfix = true)
    (atMost : behind.operator.priority ≤ before.operator.priority) :
    Merges (before :: prefixes) (behind :: postfixes) (behind :: nest) where
  prefixes := by
    rw [List.filter_cons_of_neg (by simp [Chosen.not_isPrefix isPostfix]), merges.prefixes]
  postfixes := by rw [List.filter_cons_of_pos isPostfix, merges.postfixes]
  interleaved := by
    refine interleaved_cons.mpr ⟨fun first second isFirst isSecond => ?_, merges.interleaved⟩
    obtain rfl : behind = second := by simpa [isPostfix] using isSecond
    have notFirst : behind.isPrefix = false := Chosen.not_isPrefix isPostfix
    obtain rfl : before = first := by
      rw [← List.head?_filter, List.filter_cons_of_neg (by simp [notFirst]), merges.prefixes] at isFirst
      exact Option.some.inj isFirst
    refine ⟨iff_of_false ?_ (by omega), iff_of_true rfl atMost⟩
    rintro rfl
    have isPrefix := (List.mem_filter.mp (merges.prefixes ▸ List.mem_cons_self)).2
    rw [notFirst] at isPrefix
    cases isPrefix

end Interleaving

/-- The order in which unary operators are applied. -/
theorem merges_mergeBy {prefixes postfixes : List Chosen}
    (arePrefix : ∀ chosen ∈ prefixes, chosen.isPrefix)
    (arePostfix : ∀ chosen ∈ postfixes, chosen.isPostfix) :
    Merges prefixes postfixes
      (mergeBy (fun a b => a.operator.priority < b.operator.priority) prefixes postfixes) := by
  induction prefixes generalizing postfixes with
  | nil => exact .ofPostfixes arePostfix
  | cons before prefixes ih =>
      have arePrefixRest : ∀ chosen ∈ prefixes, chosen.isPrefix :=
        fun chosen member => arePrefix chosen (List.mem_cons_of_mem _ member)
      induction postfixes with
      | nil =>
          rw [mergeBy_nil]
          exact .ofPrefixes arePrefix
      | cons behind postfixes ihPostfixes =>
          rw [mergeBy_cons_cons]
          split
          · rename_i less
            exact (ih arePrefixRest arePostfix).consPrefix (arePrefix before List.mem_cons_self)
              (by simpa using less)
          · rename_i notLess
            refine (ihPostfixes fun chosen member =>
              arePostfix chosen (List.mem_cons_of_mem _ member)).consPostfix
                (arePostfix behind List.mem_cons_self) ?_
            simpa using notLess

/-! Towers: an operand with unary operators -/

namespace OperatorTree

/-- Unary operators around a tree, from the inside out. -/
def wrap (nest : List Chosen) (tree : OperatorTree) : OperatorTree :=
  nest.foldl (fun inside chosen => unary chosen inside) tree

def tower (item : ItemId) (nest : List Chosen) : OperatorTree := wrap nest (operand item)

variable {tree left right : OperatorTree} {chosen : Chosen} {nest : List Chosen} {item : ItemId}

theorem wrap_snoc : wrap (nest ++ [chosen]) tree = unary chosen (wrap nest tree) := by
  simp [wrap]

theorem reading_wrap (nest : List Chosen) (tree : OperatorTree) : (wrap nest tree).reading =
    ((nest.filter (·.isPrefix)).reverse.map .operator) ++ tree.reading ++
      (nest.filter (!·.isPrefix)).map .operator := by
  induction nest generalizing tree with
  | nil => simp [wrap]
  | cons chosen nest ih =>
      refine (ih (unary chosen tree)).trans ?_
      by_cases isPrefix : chosen.isPrefix <;> simp [reading, isPrefix]

theorem filter_not_isPrefix (unary : Unary nest) :
    nest.filter (!·.isPrefix) = nest.filter (·.isPostfix) := by
  refine List.filter_congr fun chosen member => ?_
  rcases unary chosen member with isPrefix | isPostfix
  · rw [isPrefix, Chosen.not_isPostfix isPrefix]
    rfl
  · rw [isPostfix, Chosen.not_isPrefix isPostfix]
    rfl

theorem reading_tower (unary : Unary nest) : (tower item nest).reading =
    ((nest.filter (·.isPrefix)).reverse.map .operator) ++ [.operand item] ++
      (nest.filter (·.isPostfix)).map .operator := by
  rw [tower, reading_wrap, filter_not_isPrefix unary, reading]

theorem nest_tower : (tower item nest).nest = nest := by
  induction nest using List.reverseRecOn with
  | nil => rfl
  | append_singleton nest chosen ih =>
      rw [tower, wrap_snoc, OperatorTree.nest]
      exact congrArg (· ++ [chosen]) ih

theorem not_hasBinary_tower : ¬ (tower item nest).HasBinary := by
  induction nest using List.reverseRecOn with
  | nil => exact id
  | append_singleton nest chosen ih =>
      rw [tower, wrap_snoc]
      exact ih

/-- Without a binary operator there is just an operand with unary operators. -/
theorem eq_tower (fitting : tree.Fitting) (noBinary : ¬ tree.HasBinary) :
    ∃ item, tree = tower item tree.nest ∧ Unary tree.nest := by
  induction tree with
  | operand item => exact ⟨item, rfl, by simp [Unary, OperatorTree.nest]⟩
  | unary chosen inside ih =>
      obtain ⟨item, isTower, unary⟩ := ih fitting.2 noBinary
      refine ⟨item, ?_, ?_⟩
      · rw [OperatorTree.nest, tower, wrap_snoc]
        exact congrArg (OperatorTree.unary chosen) isTower
      · intro other member
        rcases List.mem_append.mp member with inner | last
        · exact unary other inner
        · obtain rfl := List.mem_singleton.mp last
          exact fitting.1
  | binary => exact (noBinary trivial).elim

theorem binaryPriority_tower : (tower item nest).binaryPriority? = none := by
  rcases List.eq_nil_or_concat' nest with rfl | ⟨nest, chosen, rfl⟩
  · rfl
  · rw [tower, wrap_snoc]
    rfl

theorem fitting_tower (unary : Unary nest) : (tower item nest).Fitting := by
  induction nest using List.reverseRecOn with
  | nil => trivial
  | append_singleton nest chosen ih =>
      rw [tower, wrap_snoc]
      exact ⟨unary chosen (by simp), ih fun other member => unary other (List.mem_append_left _ member)⟩

theorem leaning_tower : (tower item nest).Leaning := by
  induction nest using List.reverseRecOn with
  | nil => trivial
  | append_singleton nest chosen ih =>
      rw [tower, wrap_snoc]
      exact ih

theorem close_tower : (tower item nest).Close := by
  rcases List.eq_nil_or_concat' nest with rfl | ⟨nest, chosen, rfl⟩
  · trivial
  · rw [tower, wrap_snoc]
    exact not_hasBinary_tower

theorem mixed_tower (interleaved : Interleaved nest) : (tower item nest).Mixed := by
  rcases List.eq_nil_or_concat' nest with rfl | ⟨nest, chosen, rfl⟩
  · trivial
  · have inner : (wrap nest (operand item)).nest = nest := nest_tower
    rw [tower, wrap_snoc, Mixed, inner]
    exact interleaved

theorem obeys_tower (unary : Unary nest) (interleaved : Interleaved nest) :
    (tower item nest).Obeys :=
  ⟨fitting_tower unary, leaning_tower, close_tower, mixed_tower interleaved⟩

/-- A tree that obeys has a binary operator at its top or is an operand with unary operators. -/
theorem Obeys.tower_or_binary (obeys : tree.Obeys) :
    (∃ item nest, tree = tower item nest ∧ Unary nest ∧ Interleaved nest) ∨
      ∃ top left right, tree = binary top left right := by
  cases tree with
  | operand item => exact Or.inl ⟨item, [], rfl, by simp [Unary], Interleaved.nil⟩
  | unary chosen inside =>
      have noBinary : ¬ (OperatorTree.unary chosen inside).HasBinary := obeys.close
      obtain ⟨item, isTower, unary⟩ := eq_tower obeys.fitting noBinary
      exact Or.inl ⟨item, _, isTower, unary, obeys.mixed⟩
  | binary top left right => exact Or.inr ⟨top, left, right, rfl⟩

/-! Binary operators -/

theorem obeys_binary : (binary chosen left right).Obeys ↔ chosen.operator.kind = .binary ∧
    (∀ priority ∈ left.binaryPriority?, priority ≤ chosen.operator.priority) ∧
    (∀ priority ∈ right.binaryPriority?, priority < chosen.operator.priority) ∧
    left.Obeys ∧ right.Obeys := by
  constructor
  · intro obeys
    obtain ⟨kind, fittingLeft, fittingRight⟩ := obeys.fitting
    obtain ⟨atMost, less, leaningLeft, leaningRight⟩ := obeys.leaning
    exact ⟨kind, atMost, less, ⟨fittingLeft, leaningLeft, obeys.close.1, obeys.mixed.1⟩,
      ⟨fittingRight, leaningRight, obeys.close.2, obeys.mixed.2⟩⟩
  · rintro ⟨kind, atMost, less, left, right⟩
    exact ⟨⟨kind, left.fitting, right.fitting⟩, ⟨atMost, less, left.leaning, right.leaning⟩,
      ⟨left.close, right.close⟩, ⟨left.mixed, right.mixed⟩⟩

/-- A tower holds no binary operator. -/
theorem kind_of_mem_tower (unary : Unary nest) (member : .operator chosen ∈ (tower item nest).reading) :
    chosen.operator.kind ≠ .binary := by
  rw [reading_tower unary] at member
  refine Chosen.not_binary (unary chosen ?_)
  simp only [List.mem_append, List.mem_map, List.mem_reverse, List.mem_filter, List.mem_singleton] at member
  grind

/-- No binary operator of a tree binds looser than the one at its top. -/
theorem Obeys.atMost (obeys : tree.Obeys) (member : .operator chosen ∈ tree.reading)
    (binary : chosen.operator.kind = .binary) :
    ∃ top ∈ tree.binaryPriority?, chosen.operator.priority ≤ top := by
  induction tree with
  | operand item => simp [reading] at member
  | unary outer inside _ =>
      obtain ⟨item, isTower, unary⟩ := eq_tower obeys.fitting obeys.close
      rw [isTower] at member
      exact (kind_of_mem_tower unary member binary).elim
  | binary top left right ihLeft ihRight =>
      obtain ⟨_, atMost, less, obeysLeft, obeysRight⟩ := obeys_binary.mp obeys
      refine ⟨top.operator.priority, rfl, ?_⟩
      rcases List.mem_append.mp member with inLeft | later
      · obtain ⟨priority, isTop, le⟩ := ihLeft obeysLeft inLeft
        exact Int.le_trans le (atMost priority isTop)
      · rcases List.mem_cons.mp later with isTop | inRight
        · obtain rfl : chosen = top := by injection isTop
          exact Int.le_refl _
        · obtain ⟨priority, isTop, le⟩ := ihRight obeysRight inRight
          exact Int.le_trans le (Int.le_of_lt (less priority isTop))

/-! One tree for each reading -/

/-- In front of an operand stand its prefix operators, behind it its postfix ones. -/
theorem tower_unique {item' : ItemId} {nest' : List Chosen} (unary : Unary nest) (unary' : Unary nest')
    (interleaved : Interleaved nest) (interleaved' : Interleaved nest')
    (same : (tower item nest).reading = (tower item' nest').reading) :
    tower item nest = tower item' nest' := by
  rw [reading_tower unary, reading_tower unary'] at same
  -- The operand is the only piece that is no operator.
  have split : ∀ {a b c d : List Chosen} {x y : ItemId},
      a.map Piece.operator ++ [.operand x] ++ b.map .operator =
        c.map .operator ++ [.operand y] ++ d.map .operator → a = c ∧ x = y ∧ b = d := by
    intro a
    induction a with
    | nil =>
        intro b c d x y same
        cases c with
        | nil =>
            simp only [List.map_nil, List.nil_append, List.singleton_append, List.cons.injEq,
              Piece.operand.injEq] at same
            exact ⟨rfl, same.1, List.map_injective_iff.mpr (fun _ _ => Piece.operator.inj) same.2⟩
        | cons first c => simp at same
    | cons first a ih =>
        intro b c d x y same
        cases c with
        | nil => simp at same
        | cons first' c =>
            simp only [List.map_cons, List.cons_append, List.cons.injEq, Piece.operator.injEq] at same
            obtain ⟨rfl, rest⟩ := same
            obtain ⟨rfl, rfl, rfl⟩ := ih (by simpa using rest)
            exact ⟨rfl, rfl, rfl⟩
  obtain ⟨prefixes, rfl, postfixes⟩ := split same
  rw [List.reverse_inj] at prefixes
  rw [interleaved.unique unary unary' interleaved' prefixes postfixes]

/-- Of two trees with one reading, neither has its top operator within the left part of the other. -/
theorem top_not_within {left' right' : OperatorTree} {top top' : Chosen} {between : List Piece}
    (obeys : (binary top left right).Obeys) (obeys' : (binary top' left' right').Obeys)
    (inLeft : left'.reading = left.reading ++ .operator top :: between)
    (inRight : right.reading = between ++ .operator top' :: right'.reading) : False := by
  obtain ⟨kind, _, less, _, obeysRight⟩ := obeys_binary.mp obeys
  obtain ⟨kind', atMost, _, obeysLeft, _⟩ := obeys_binary.mp obeys'
  have member : .operator top ∈ left'.reading := by simp [inLeft]
  have member' : .operator top' ∈ right.reading := by simp [inRight]
  obtain ⟨first, isFirst, le⟩ := obeysLeft.atMost member kind
  obtain ⟨second, isSecond, le'⟩ := obeysRight.atMost member' kind'
  have := atMost first isFirst
  have := less second isSecond
  omega

/-- Where a tower can be read there is no other tree. -/
theorem Obeys.eq_tower_of_reading (obeys : tree.Obeys) (unary : Unary nest)
    (interleaved : Interleaved nest) (same : tree.reading = (tower item nest).reading) :
    tree = tower item nest := by
  rcases obeys.tower_or_binary with ⟨item', nest', rfl, unary', interleaved'⟩ | ⟨top, left, right, rfl⟩
  · exact tower_unique unary' unary interleaved' interleaved same
  · have member : .operator top ∈ (tower item nest).reading := by simp [← same, reading]
    exact (kind_of_mem_tower unary member (obeys_binary.mp obeys).1).elim

/-- Precedence and associativity leave no choice. -/
theorem Obeys.unique {other : OperatorTree} (obeys : tree.Obeys) (obeysOther : other.Obeys)
    (same : tree.reading = other.reading) : tree = other := by
  induction tree generalizing other with
  | operand | unary =>
      obtain ⟨item, nest, isTower, unary, interleaved⟩ := obeys.tower_or_binary.resolve_right nofun
      rw [isTower] at same ⊢
      exact (obeysOther.eq_tower_of_reading unary interleaved same.symm).symm
  | binary top left right ihLeft ihRight =>
      rcases obeysOther.tower_or_binary with ⟨item, nest, rfl, unary, interleaved⟩ |
        ⟨top', left', right', rfl⟩
      · exact obeys.eq_tower_of_reading unary interleaved same
      · obtain ⟨_, _, _, obeysLeft, obeysRight⟩ := obeys_binary.mp obeys
        obtain ⟨_, _, _, obeysLeft', obeysRight'⟩ := obeys_binary.mp obeysOther
        rw [reading, reading] at same
        rcases List.append_eq_append_iff.mp same with ⟨between, inLeft, inRight⟩ |
          ⟨between, inLeft, inRight⟩
        · cases between with
          | nil =>
              obtain ⟨isTop, rights⟩ := List.cons.inj inRight
              obtain rfl : top = top' := Piece.operator.inj isTop
              rw [ihLeft obeysLeft obeysLeft' (by simpa using inLeft.symm),
                ihRight obeysRight obeysRight' rights]
          | cons first between =>
              rw [List.cons_append] at inRight
              obtain ⟨rfl, rights⟩ := List.cons.inj inRight
              exact (top_not_within obeys obeysOther inLeft rights).elim
        · cases between with
          | nil =>
              obtain ⟨isTop, rights⟩ := List.cons.inj inRight
              obtain rfl : top' = top := Piece.operator.inj isTop
              rw [ihLeft obeysLeft obeysLeft' (by simpa using inLeft),
                ihRight obeysRight obeysRight' rights.symm]
          | cons first between =>
              rw [List.cons_append] at inRight
              obtain ⟨rfl, rights⟩ := List.cons.inj inRight
              exact (top_not_within obeysOther obeys inLeft rights).elim

end OperatorTree

end ExprLang
