import ExprLang.Proofs.Keywords.Differing
import ExprLang.Proofs.Parse.Segments

/-!
Attaching keywords. Keywords are attached to an item that has none yet, and those that have been read one
behind another differ, so the keywords of the item differ as well. A custom expression takes over all but
the last of the keywords in front of it; if it is declined they are left as they were.
-/

namespace ExprLang

open Forest (Closed Varied Waiting Wordless LeavesKeywords)

variable {ε α β : Type} {holds other : Forest → Prop}

/-! Steps that spare keywords -/

/-- The property hangs on nothing but the keywords of items that are there. -/
class KeywordBound (holds : Forest → Prop) : Prop where
  closed : ∀ {forest : Forest}, holds forest → Closed forest
  later : ∀ {before after : Forest}, holds before → LeavesKeywords before after → holds after

instance : KeywordBound Closed := ⟨id, fun _ leaves => leaves.closed⟩

instance (keywords : List ItemId) : KeywordBound (Waiting keywords) := ⟨Waiting.closed, Waiting.later⟩

instance (item : ItemId) : KeywordBound (Wordless item) := ⟨Wordless.closed, Wordless.later⟩

instance [bound : KeywordBound holds] : Lasting holds where
  push before free bare _ := bound.later before (Forest.leavesKeywords_push (bound.closed before) free bare)
  changeKind before harmless :=
    bound.later before (Forest.leavesKeywords_changeKind (bound.closed before) harmless)
  link before ownerInside itemInside other :=
    bound.later before (Forest.leavesKeywords_link (bound.closed before) ownerInside itemInside other)

theorem Forest.Varied.push {forest : Forest} {item : Item} (varied : Varied forest)
    (free : item.parent = none) (bare : item.parts = {}) : Varied (forest.push item).2 := by
  refine varied.later (leavesKeywords_push varied.closed free bare) fun owner new => ?_
  rw [parts_push_old bare, parts_outside new]

instance : Lasting Varied where
  push varied free bare _ := varied.push free bare
  changeKind varied harmless := by
    refine varied.later (Forest.leavesKeywords_changeKind varied.closed harmless) fun owner new => ?_
    rw [Forest.parts_changeKind, Forest.parts_outside new]
  link varied ownerInside itemInside other := by
    refine varied.later (Forest.leavesKeywords_link varied.closed ownerInside itemInside other) ?_
    intro owner new
    rw [Forest.keywords_link ownerInside other, Forest.parts_outside new]

/-- What works above every floor works above all items that are there. -/
theorem preserves_of_contained [bound : KeywordBound holds] {P : Nat → α → Prop} {step : Parse α}
    (contained : ∀ floor, Contained floor (P floor) step) : Preserves holds step where
  ends s before := by
    have closed := bound.closed before
    have reached : ∀ {t : ParseState}, Above s.forest.size s t → holds t.forest := fun above =>
      bound.later before (above.untouched.leavesKeywords (above.closed closed) above.holds.size)
    exact (contained s.forest.size s closed.at_size).imp (fun _ _ ended => reached ended.2.1)
      fun _ _ ended => reached ended.1

namespace Parse

theorem InnerContained.preserves [KeywordBound holds] {inner : Inner} (inside : InnerContained inner)
    (context : Context) : Preserves holds (inner context) :=
  preserves_of_contained fun floor => inside floor context

end Parse

/-- The property tells that the keywords of every item differ. -/
class Guards (holds : Forest → Prop) : Prop where
  varied : ∀ {forest : Forest}, holds forest → Varied forest

instance : Guards Varied := ⟨id⟩

instance [guards : Guards holds] : Guards (fun forest => holds forest ∧ other forest) :=
  ⟨fun both => guards.varied both.1⟩

namespace Parse

/-! What steps lead to -/

/-- From a forest with the one property the step leads to one with the other, which may hang on its
value; and where it stops the keywords of every item differ. -/
def Attains (before : Forest → Prop) (after : α → Forest → Prop) (step : Parse α) : Prop :=
  ∀ s, before s.forest → Ends step s (fun value t => after value t.forest) fun _ t => Varied t.forest

section Rules

variable {before : Forest → Prop} {mid : α → Forest → Prop} {after : β → Forest → Prop}
  {step : Parse α} {next : α → Parse β}

theorem attains_bind (first : Attains before mid step)
    (rest : ∀ value, Attains (mid value) after (next value)) : Attains before after (step >>= next) := fun s holds =>
  (first s holds).bind (fun value t reached => rest value t reached) fun _ _ stopped => stopped

theorem attains_pure {value : β} (known : ∀ forest, before forest → after value forest) :
    Attains before after (pure value) := fun s holds => ends_pure (known s.forest holds)

theorem Attains.imp {weaker : α → Forest → Prop} {stronger : Forest → Prop}
    (attains : Attains before mid step) (enough : ∀ forest, stronger forest → before forest)
    (known : ∀ value forest, mid value forest → weaker value forest) : Attains stronger weaker step :=
  fun s holds => (attains s (enough _ holds)).imp (fun value t reached => known value t.forest reached)
    fun _ _ stopped => stopped

theorem Attains.given {stronger : Forest → Prop} (attains : Attains before mid step)
    (enough : ∀ forest, stronger forest → before forest) : Attains stronger mid step :=
  attains.imp enough fun _ _ reached => reached

/-- What is preserved anyway is kept beside. -/
theorem Attains.frame (attains : Attains before mid step) (preserves : Preserves holds step) :
    Attains (fun forest => before forest ∧ holds forest)
      (fun value forest => mid value forest ∧ holds forest) step := fun s both =>
  ((attains s both.1).and (preserves.ends s both.2)).imp (fun _ _ reached => reached)
    fun _ _ stopped => stopped.1

/-- It may tell what the step needs. -/
theorem Attains.keeping (attains : Attains (fun forest => Varied forest ∧ other forest) mid step)
    (preserves : Preserves holds step) (enough : ∀ forest, holds forest → other forest) :
    Attains (fun forest => Varied forest ∧ holds forest)
      (fun value forest => mid value forest ∧ holds forest) step :=
  (attains.frame preserves).given fun forest known => ⟨⟨known.1, enough forest known.2⟩, known.2⟩

/-- What is known of the size stays known. -/
theorem attains_size {P : Nat → Prop} {next : Nat → Parse β}
    (known : ∀ forest, before forest → P forest.size)
    (rest : ∀ count, P count → Attains before after (next count)) : Attains before after (size >>= next) :=
  fun s holds => by
    rw [ends_size_bind]
    exact rest s.forest.size (known s.forest holds) s holds

variable [guards : Guards before]

theorem attains_of_preserves (preserves : Preserves before step) :
    Attains before (fun _ forest => before forest) step := fun s holds =>
  (preserves.ends s holds).imp (fun _ _ reached => reached) fun _ _ stopped => guards.varied stopped

/-- A step that preserves what is known comes before. -/
theorem attains_behind [preserves : Preserves before step]
    (rest : ∀ value, Attains before after (next value)) : Attains before after (step >>= next) :=
  attains_bind (attains_of_preserves preserves) rest

theorem attains_stop {start length : Nat} {cause : Fault.Cause} :
    Attains before after (stop start length cause : Parse β) := fun _ holds =>
  ends_error rfl (guards.varied holds)

/-- Whoever stops gives no value. -/
theorem attains_throw {rest : α → Parse β} : Attains before after ((throw {} : Parse α) >>= rest) :=
  fun _ holds => ends_error rfl (guards.varied holds)

theorem attains_create {P : Forest → Prop} [bound : KeywordBound P] (kind : ItemKind) (start : Nat) :
    Attains (fun forest => Varied forest ∧ P forest)
      (fun item forest => (Varied forest ∧ P forest) ∧ Wordless item forest) (create kind start) := by
  rintro s ⟨varied, here⟩
  have leaves : LeavesKeywords s.forest (s.forest.create kind start).2 :=
    Forest.leavesKeywords_push varied.closed rfl rfl
  refine ends_ok rfl ⟨⟨varied.push rfl rfl, bound.later here leaves⟩, leaves.closed, ?_, ?_⟩
  · exact (Forest.size_push _).symm ▸ Nat.lt_succ_self _
  · exact congrArg Parts.keywords Forest.parts_push_new

end Rules

/-! Attaching -/

section Attach

variable {refused : AttachError → Parse Unit} {owner : ItemId}

/-- The first of some keywords that differ from those that the owner has and from one another. -/
theorem attains_addKeyword (stops : ∀ error, Attains Varied (fun _ _ => False) (refused error))
    (keyword : ItemId) (rest : List ItemId) :
    Attains
      (fun forest => Varied forest ∧ forest.Differ ((forest.parts owner).keywords ++ keyword :: rest))
      (fun _ forest => Varied forest ∧ forest.Differ ((forest.parts owner).keywords ++ rest))
      (attachOr refused (·.addKeyword owner keyword)) := by
  rintro s ⟨varied, differ⟩
  unfold attachOr
  simp only [ends_forest_bind]
  cases attached : s.forest.addKeyword owner keyword with
  | error error => exact (stops error s varied).imp (fun _ _ never => never.elim) fun _ _ here => here
  | ok next =>
      obtain ⟨rfl, ownerInside, keywordInside⟩ := Forest.attach_ok attached
      refine ends_ok rfl ⟨varied.linkKeyword ownerInside keywordInside (differ.sublist ?_), ?_⟩
      · simp
      · rw [Forest.differ_link, Forest.keywords_link_owner ownerInside, List.append_assoc]
        exact differ

theorem attains_addKeywords (stops : ∀ error, Attains Varied (fun _ _ => False) (refused error))
    (keywords : List ItemId) :
    Attains (fun forest => Varied forest ∧ forest.Differ ((forest.parts owner).keywords ++ keywords))
      (fun _ forest => Varied forest)
      (keywords.forM fun keyword => attachOr refused (·.addKeyword owner keyword)) := by
  induction keywords with
  | nil => exact attains_pure fun _ here => here.1
  | cons keyword rest ih => exact attains_bind (attains_addKeyword stops keyword rest) fun _ => ih

/-- To an item without keywords. -/
theorem attains_addWaiting (stops : ∀ error, Attains Varied (fun _ _ => False) (refused error))
    (keywords : List ItemId) :
    Attains (fun forest => (Varied forest ∧ Waiting keywords forest) ∧ Wordless owner forest)
      (fun _ forest => Varied forest)
      (keywords.forM fun keyword => attachOr refused (·.addKeyword owner keyword)) :=
  (attains_addKeywords stops keywords).given fun _ here =>
    ⟨here.1.1, by rw [here.2.none]; exact here.1.2.differ⟩

end Attach

theorem attains_attachModifiers (owner : ItemId) (modifiers : Modifiers) :
    Attains (fun forest => (Varied forest ∧ Waiting modifiers.keywords forest) ∧
        (modifiers.keywords = [] ∨ Wordless owner forest))
      (fun _ forest => Varied forest) (attachModifiers owner modifiers) := by
  have ifNone (none : modifiers.keywords = []) :
      Attains Varied (fun _ forest => Varied forest) (attachModifiers owner modifiers) := by
    unfold attachModifiers
    rw [none]
    exact attains_behind fun _ => attains_pure fun _ varied => varied
  have stops (error : AttachError) : Attains Varied (fun _ _ => False)
      (do stop (← position) 0 (.parserImplementation error.message) : Parse Unit) :=
    attains_behind fun _ => attains_stop
  have ifBare : Attains
      (fun forest => (Varied forest ∧ Waiting modifiers.keywords forest) ∧ Wordless owner forest)
      (fun _ forest => Varied forest) (attachModifiers owner modifiers) :=
    attains_behind fun _ => attains_addWaiting stops modifiers.keywords
  rintro s ⟨known, none | bare⟩
  · exact ifNone none s known.1
  · exact ifBare s ⟨known, bare⟩

/-- Modifiers without an operand. -/
theorem attains_misplaced (modifiers : Modifiers) :
    Attains (fun forest => Varied forest ∧ Waiting modifiers.keywords forest)
      (fun _ forest => Varied forest) (misplaced modifiers) := by
  unfold misplaced
  refine attains_behind fun _ => attains_behind fun _ => ?_
  refine attains_bind (attains_create .series _) fun series => ?_
  refine attains_bind ((attains_attachModifiers series modifiers).given
    fun _ here => ⟨here.1, Or.inr here.2⟩) fun _ => ?_
  exact attains_pure fun _ varied => varied

/-! Keywords one after another -/

variable {grammar : Grammar} {inner : Inner}

/-- A repeated keyword is dropped. -/
theorem attains_keywordRun (reportRepeats : Bool) (passes : Nat) : ∀ keywords,
    Attains (fun forest => Varied forest ∧ Waiting keywords forest)
      (fun read forest => Varied forest ∧ Waiting read forest)
      (keywordRun grammar reportRepeats passes keywords) := by
  induction passes with
  | zero => exact fun _ => attains_pure fun _ here => here
  | succ passes ih =>
      intro keywords
      unfold keywordRun
      refine attains_behind fun _ => attains_behind fun start => attains_behind fun text => ?_
      cases grammar.keywordAt? text start with
      | none => exact attains_pure fun _ here => here
      | some keyword =>
          refine attains_behind fun written => attains_behind fun _ => ?_
          intro s known
          simp only [ends_forest_bind]
          split
          · have returned : Attains (fun forest => Varied forest ∧ Waiting keywords forest)
                (fun read forest => Varied forest ∧ Waiting read forest) (pure keywords) :=
              attains_pure fun _ here => here
            cases reportRepeats with
            | true => exact attains_behind (fun _ => returned) s known
            | false => exact returned s known
          · rename_i fresh
            have others : ∀ token ∈ keywords, s.forest.tokenKind? token ≠ some (.keyword keyword.id) := by
              simpa using fresh
            simp only [ends_createToken_bind]
            exact ih _ _ ⟨known.1.push rfl rfl, known.2.snoc others⟩

/-! Custom expressions -/

section Custom

variable [∀ context, Preserves Varied (inner context)]

/-- A custom expression takes over the keywords in front of its trigger. -/
theorem attains_createCustom (extension : Extension) (trigger : Trigger) (parts : List CustomPart) :
    Attains (fun forest => Varied forest ∧ Waiting trigger.before forest) (fun _ forest => Varied forest)
      (createCustom extension trigger parts) := by
  unfold createCustom
  refine attains_behind fun forest => attains_bind (attains_create _ _) fun item => ?_
  refine attains_bind (attains_addWaiting (fun _ => attains_stop) trigger.before) fun _ => ?_
  refine attains_behind fun _ => ?_
  refine attains_bind (attains_of_preserves (preserves_forM fun part => ?_)) fun _ =>
    attains_pure fun _ varied => varied
  cases part <;> infer_instance

theorem attains_truncate {keywords : List ItemId} {count : Nat}
    (before : ∀ keyword ∈ keywords, keyword < count) :
    Attains (fun forest => Varied forest ∧ Waiting keywords forest)
      (fun _ forest => Varied forest ∧ Waiting keywords forest) (changeForest (·.truncate count)) :=
  fun _ known => ends_ok rfl ⟨known.1.truncate, known.2.truncate before⟩

theorem attains_tryExtensions (inside : InnerContained inner) (trigger : Trigger) (start : Nat)
    (extensions : List Extension) :
    Attains (fun forest => Varied forest ∧ Waiting trigger.before forest) (fun _ forest => Varied forest)
      (tryExtensions grammar inner trigger start extensions) := by
  have waits : ∀ context, Preserves (Waiting trigger.before) (inner context) := inside.preserves
  induction extensions with
  | nil => exact attains_pure fun _ known => known.1
  | cons extension rest ih =>
      unfold tryExtensions
      refine attains_behind fun critical => ?_
      refine attains_size (P := fun count => ∀ keyword ∈ trigger.before, keyword < count)
        (fun _ known => known.2.inside) fun count inside => ?_
      refine attains_behind fun outcome => attains_behind fun later => ?_
      cases outcome with
      | declined =>
          dsimp only
          split
          · exact attains_throw
          · refine attains_behind fun _ => ?_
            exact attains_bind (attains_truncate inside) fun _ => ih
      | finished parts =>
          refine attains_bind (attains_createCustom extension trigger parts) fun item => ?_
          dsimp only
          split
          · exact attains_throw
          · exact attains_pure fun _ varied => varied
      | failed error =>
          dsimp only
          split
          · exact attains_throw
          · exact attains_behind fun _ => attains_stop

theorem attains_custom (inside : InnerContained inner) (prefixes keywords : List ItemId) :
    Attains (fun forest => Varied forest ∧ Waiting keywords forest) (fun _ forest => Varied forest)
      (custom? grammar inner prefixes keywords) := by
  unfold custom?
  split
  · exact attains_pure fun _ known => known.1
  · refine attains_behind fun id => ?_
    split
    · exact attains_pure fun _ known => known.1
    · refine attains_behind fun place => ?_
      refine (attains_tryExtensions inside _ place _).given fun _ known => ⟨known.1, ?_⟩
      exact known.2.sublist (List.dropLast_sublist _)

/-! Postfixes -/

theorem attains_triggeredBehind (inside : InnerContained inner) :
    Attains Varied (fun _ forest => Varied forest) (triggeredBehind? grammar inner) := by
  unfold triggeredBehind?
  refine attains_behind fun left => ?_
  refine attains_bind ((attains_keywordRun false _ []).given
    fun _ varied => ⟨varied, .nil varied.closed⟩) fun keywords => ?_
  split
  · exact attains_pure fun _ known => known.1
  · refine attains_behind fun id => ?_
    split
    · exact attains_pure fun _ known => known.1
    · split
      · exact attains_pure fun _ known => known.1
      · exact attains_custom inside [] keywords

theorem preserves_customPostfix (inside : InnerContained inner) :
    Preserves Varied (customPostfix? grammar inner) := by
  have rolled (before : ParseState) : Preserves Varied (rollBack before) :=
    ⟨fun _ varied => ends_ok rfl varied.truncate⟩
  have triggered : Preserves Varied (triggeredBehind? grammar inner) := ⟨attains_triggeredBehind inside⟩
  unfold customPostfix?
  refine preserves_ite inferInstance (preserves_bind inferInstance fun before => ?_)
  refine preserves_bind inferInstance fun found => ?_
  cases found <;> infer_instance

end Custom

end Parse

end ExprLang
