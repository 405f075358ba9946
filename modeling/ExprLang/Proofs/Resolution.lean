import ExprLang.Proofs.Parse.Balance
import ExprLang.Proofs.Precedence
import ExprLang.Proofs.Readings

/-!
What becomes of the terms of a segment. Where the terms have a reading, the segment is the operator
tree of the reading with the longest runs of postfix operators, and no fault is reported. Where they
have none, faults say why, and the pieces are kept in a series.
-/

namespace ExprLang

open Held (item)

open ParseState

/-- What has become of terms without stray items, with the faults that were added. -/
structure Resolved (terms : List Term) (s : ParseState) (added : Faults) (found : Option ItemId)
    (t : ParseState) : Prop where
  faults : t.faults = s.faults ++ added
  accepted : added = [] ↔ terms = [] ∨ ∃ slots, Slot.Reads terms slots
  nothing : terms = [] → found = none
  whole : added = [] → terms ≠ [] → ∃ slots tree node, Slot.ReadsLongest terms slots ∧
    (∀ other, Slot.ReadsLongest terms other → other = slots) ∧
    tree.Obeys ∧ tree.reading = slots.flatMap Slot.pieces ∧
    found = some node ∧ t.forest.Shows tree node
  series : added ≠ [] → ∃ node, found = some node ∧ t.forest.kind? node = some .series

namespace Parse

variable {s t : ParseState}

theorem ends_takesAll {node : Nat} {kind : ItemKind} {parts : Parts} {items : List Nat}
    (assembled : Assembled s node kind parts t) :
    Ends (items.forM (addChild node)) t
      (fun _ u => ∃ more, Assembled s node kind more u) (fun _ _ => True) := by
  induction items generalizing t parts with
  | nil => exact ends_pure ⟨parts, assembled⟩
  | cons first rest ih =>
      rw [List.forM]
      exact (ends_takes assembled first true).bind (fun _ _ assembled => ih assembled) fun _ _ _ => trivial

/-- Whatever the state, a series is what is made of the pieces. -/
theorem ends_seriesShown (s : ParseState) (items : List ItemId) :
    Ends (createSeries items) s
      (fun node t => Steady s t ∧ t.forest.kind? node = some .series) (fun _ _ => True) := by
  unfold createSeries
  simp only [ends_forest_bind, ends_create_bind]
  refine (ends_takesAll (assembled_create s rfl _)).bind ?_ fun _ _ _ => trivial
  rintro _ t ⟨_, assembled⟩
  exact ends_pure ⟨assembled.steady, assembled.kind⟩

theorem ends_infosShown (s : ParseState) (chosens : List Chosen) :
    Ends (chosens.mapM createInfo) s (fun _ t => Steady s t) (fun _ _ => True) := by
  have alike : List.Forall₂ (fun chosen other : Chosen => chosen = other) chosens chosens :=
    List.forall₂_same.mpr fun _ _ => rfl
  have shown := ends_mapMShown s createInfo (fun _ chosen other => chosen = other)
    (fun t chosen info => t.forest.ShowsInfo chosen info) (fun _ same => same)
    (fun steady shown => steady.showsInfo shown) (fun same => same ▸ ends_infoShown _) alike
  exact shown.imp (fun _ _ here => here.1) fun _ _ _ => trivial

section Reading

variable {terms : List Term} {startOf : ItemId → Nat}

/-- Without a fault everything has found its place. -/
theorem isWhole_of_faultless (plain : ∀ item, .stray item ∉ terms)
    (faultless : (Reading.ofTerms startOf terms).faults = []) :
    (Reading.ofTerms startOf terms).isWhole = true := by
  have shown := Reading.shown_ofTerms startOf terms
  have noOperators : (Reading.ofTerms startOf terms).leftOperators = [] := by
    by_contra left
    exact shown.left left faultless
  have noItems : (Reading.ofTerms startOf terms).leftItems = [] :=
    List.eq_nil_iff_forall_not_mem.mpr fun item member => plain item (shown.stray item member)
  simp [Reading.isWhole, noOperators, noItems, faultless]

/-- Only of an empty row is nothing made. -/
theorem eq_nil_of_isEmpty (plain : ∀ item, .stray item ∉ terms)
    (empty : (Reading.ofTerms startOf terms).isEmpty = true) :
    terms = [] ∧ (Reading.ofTerms startOf terms).faults = [] := by
  have shown := Reading.shown_ofTerms startOf terms
  simp only [Reading.isEmpty, Bool.and_eq_true, List.isEmpty_iff] at empty
  obtain ⟨⟨noSlots, noOperators⟩, _⟩ := empty
  have faultless : (Reading.ofTerms startOf terms).faults = [] := by
    by_contra faults
    rcases shown.filled faults with slots | operators
    · exact slots (by simp [Reading.links, noSlots])
    · exact operators noOperators
  refine ⟨?_, faultless⟩
  by_contra filled
  have reads := (Reading.longest_of_faultless startOf plain filled faultless).unbroken
  rw [noSlots] at reads
  exact reads

end Reading

/-- What is made of a row does not hang on the state. -/
theorem ends_resolved {terms : List Term} (plain : ∀ item, .stray item ∉ terms) (s : ParseState) :
    Ends (resolve terms) s (fun found t => ∃ added, Resolved terms s added found t)
      (fun _ _ => True) := by
  unfold resolve
  simp only [ends_forest_bind]
  have accepted := Reading.faultless_iff s.forest.start plain
  refine ends_addFaults_marks.bind ?_ fun _ _ _ => trivial
  rintro _ t ⟨_, faults⟩
  split
  · rename_i empty
    obtain ⟨none, faultless⟩ := eq_nil_of_isEmpty plain empty
    exact ends_pure ⟨_, faults, accepted, fun _ => rfl, fun _ filled => absurd none filled,
      fun some => absurd faultless some⟩
  · rename_i notEmpty
    have filled : terms ≠ [] := fun none => notEmpty (by rw [none]; rfl)
    refine (ends_foldSlotsShown t _).bind ?_ fun _ _ _ => trivial
    rintro nodes u ⟨steady, shown⟩
    have logged : u.faults = s.faults ++ (Reading.ofTerms s.forest.start terms).faults :=
      steady.faults.trans faults
    by_cases faultless : (Reading.ofTerms s.forest.start terms).faults = []
    · have longest := Reading.longest_of_faultless s.forest.start plain filled faultless
      obtain ⟨tree, isTree, obeys, reading⟩ := Slot.trees_spec
        (fun slot member => (longest.picks slot member).fits) longest.unbroken
      rw [isTree] at shown
      rcases shown with _ | ⟨here, rest⟩
      cases rest
      rw [isWhole_of_faultless plain faultless]
      exact ends_pure ⟨_, logged, accepted, fun none => absurd none filled, fun _ _ =>
        ⟨_, tree, _, longest, fun other isLongest => isLongest.unique longest, obeys, reading, rfl, here⟩,
        fun some => absurd faultless some⟩
    · have notWhole : (Reading.ofTerms s.forest.start terms).isWhole = false := by
        simp [Reading.isWhole, faultless]
      rw [notWhole]
      split
      · contradiction
      · refine (ends_infosShown u _).bind ?_ fun _ _ _ => trivial
        intro infos v steadyInfos
        refine (ends_seriesShown v _).bind ?_ fun _ _ _ => trivial
        rintro series w ⟨steadySeries, isSeries⟩
        refine ends_pure ⟨_, ?_, accepted, fun none => absurd none filled,
          fun none => absurd none faultless, fun _ => ⟨series, rfl, isSeries⟩⟩
        exact steadySeries.faults.trans (steadyInfos.faults.trans logged)

/-- The terms of a segment are accepted exactly if they have a reading: then no fault is reported, and
the segment is the operator tree of the one reading with the longest runs of postfix operators. Where
a fault is reported it is a series. From a state in which the parser holds the terms it always comes
to an end. -/
theorem resolve_accepts_its_grammar {terms : List Term} (plain : ∀ item, .stray item ∉ terms) :
    (∀ s, Ends (resolve terms) s (fun found t => ∃ added, Resolved terms s added found t)
      (fun _ _ => True)) ∧
      ∀ {grammar : Grammar} {full : Prop} {base s : ParseState} {left : List Held} {b : Nat},
        (∀ written, .operators written ∈ terms → written.parts ≠ []) →
        Holding grammar full base s (left ++ terms.flatMap Term.held) b →
        Ends (resolve terms) s (fun found t => ∃ added, Resolved terms s added found t)
          (fun _ _ => False) := by
  refine ⟨ends_resolved plain, fun filled holding => ?_⟩
  exact ((ends_resolved plain _).and (ends_resolve filled holding.loosen nofun)).imp (fun _ _ both => both.1)
    fun _ _ never => never.2

section Sample

/-- An operator of one word and two kinds. -/
def eitherAt (name : String) (first second : OperatorKind) (start : Nat) : OperatorMatch where
  parts := [(start, name)]
  first := { id := 0, nameParts := [name], kind := first, priority := 4 }
  others := [{ id := 1, nameParts := [name], kind := second, priority := 4 }]

/-- The terms of `x++-y`, where `++` can also stand before an operand, and `-` between two. -/
def sampleTerms : List Term :=
  [.operand 0, .operators (eitherAt "++" .prefixOp .postfixOp 1),
    .operators (eitherAt "-" .prefixOp .binary 3), .operand 1]

def sampleTermsStart : ParseState :=
  (Grammar.sampleGrammar []).blankState (Text.ofString "x++-y")

def sampleTermsState : ParseState :=
  let s := sampleTermsStart.withForest (sampleTermsStart.forest.createToken .name "x" 0).2
  s.withForest (s.forest.createToken .name "y" 4).2

theorem holding_sampleTerms : Holding (Grammar.sampleGrammar []) False sampleTermsStart
    sampleTermsState ([] ++ sampleTerms.flatMap Term.held) 5 := by
  have ready : sampleTermsStart.Ready (Grammar.sampleGrammar []) False := ready_blankState _
  have silent : ∀ place ∈ [1, 3], (Grammar.sampleGrammar []).comments.gapEnd
      (Text.ofString "x++-y") place = place ∧
      (Grammar.sampleGrammar []).comments.commentsFrom (Text.ofString "x++-y") place = [] := by
    decide +kernel
  obtain ⟨⟨gapPlus, nonePlus⟩, gapMinus, noneMinus⟩ := by simpa using silent
  have x : Holding _ False sampleTermsStart (sampleTermsStart.withForest
      (sampleTermsStart.forest.createToken .name "x" 0).2) [.item 0] 1 :=
    ready.holding.token .name (by decide) (by decide) nofun nofun
  have plus : Holding _ False sampleTermsStart _ [.item 0, .word 1 "++"] 3 :=
    x.spell gapPlus (by decide) (by decide +kernel) (fun comment member => by cases nonePlus ▸ member)
  have minus : Holding _ False sampleTermsStart _ [.item 0, .word 1 "++", .word 3 "-"] 4 :=
    plus.spell gapMinus (by decide) (by decide +kernel) (fun comment member => by cases noneMinus ▸ member)
  have y : Holding _ False sampleTermsStart sampleTermsState
      [.item 0, .word 1 "++", .word 3 "-", .item 1] 5 :=
    minus.token .name (by decide) (by decide) nofun nofun
  exact y

/-- Both operators could also be prefix ones, but then nothing is between the operands. -/
theorem plus_behind_minus_between : (∀ item, .stray item ∉ sampleTerms) ∧
    ∃ node t, resolve sampleTerms sampleTermsState = .ok (some node) t ∧ t.faults = [] ∧
      t.forest.Shows (.binary (.ofKind .binary (eitherAt "-" .prefixOp .binary 3))
        (.unary (.ofKind .postfixOp (eitherAt "++" .prefixOp .postfixOp 1)) (.operand 0))
        (.operand 1)) node := by
  have plain : ∀ item, .stray item ∉ sampleTerms := by simp [sampleTerms]
  have faultless : (Reading.ofTerms (fun _ => 0) sampleTerms).faults = [] := by decide
  have longest := Reading.longest_of_faultless (fun _ => 0) plain (by simp [sampleTerms]) faultless
  have ends := fun s (holding : Holding (Grammar.sampleGrammar []) False sampleTermsStart s
    ([] ++ sampleTerms.flatMap Term.held) 5) =>
      ((resolve_accepts_its_grammar plain).2 (by simp [sampleTerms, eitherAt]) holding).exists_ok
  obtain ⟨found, t, run, added, resolved⟩ := ends sampleTermsState holding_sampleTerms
  have noneAdded := resolved.accepted.mpr (Or.inr ⟨_, longest.toReads⟩)
  obtain ⟨slots, tree, node, _, unique, obeys, reading, rfl, shown⟩ :=
    resolved.whole noneAdded (by simp [sampleTerms])
  rw [← unique _ longest] at reading
  have inside : (OperatorTree.tower 0 [.ofKind .postfixOp (eitherAt "++" .prefixOp .postfixOp 1)]).Obeys :=
    OperatorTree.obeys_tower (by simp [Unary, Chosen.isPostfix, Chosen.ofKind, OperatorMatch.candidate?,
      OperatorMatch.candidates, eitherAt]) (Merges.ofPostfixes (by simp [Chosen.isPostfix, Chosen.ofKind,
      OperatorMatch.candidate?, OperatorMatch.candidates, eitherAt])).interleaved
  have expected : (OperatorTree.binary (.ofKind .binary (eitherAt "-" .prefixOp .binary 3))
      (.tower 0 [.ofKind .postfixOp (eitherAt "++" .prefixOp .postfixOp 1)]) (.tower 1 [])).Obeys :=
    OperatorTree.obeys_binary.mpr ⟨rfl, by rintro _ ⟨⟩, by rintro _ ⟨⟩, inside,
      OperatorTree.obeys_tower (by simp [Unary]) Interleaved.nil⟩
  obtain rfl := obeys.unique expected (reading.trans (by decide))
  exact ⟨plain, node, t, run, by rw [resolved.faults, noneAdded]; rfl, shown⟩

end Sample

end Parse

end ExprLang
