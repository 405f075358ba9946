import ExprLang.Proofs.Modifiers.Steps
import ExprLang.Proofs.Resolution

/-!
The operator tree of a segment. Its operators are made one by one and are not modified meanwhile, so the
tree is routed if nothing modifies the operand in front; that the whole may be modified does not matter.
-/

namespace ExprLang

namespace Reading

variable {startOf : ItemId → Nat} {reading : Reading}

/-! Stray items -/

theorem leftItems_endRun : reading.endRun.leftItems = reading.leftItems := by
  unfold endRun
  dsimp only
  split <;> simp

theorem leftItems_add (startOf : ItemId → Nat) (reading : Reading) (term : Term) :
    (reading.add startOf term).leftItems = reading.leftItems ∨
      ∃ item, term = .stray item ∧ (reading.add startOf term).leftItems = reading.leftItems ++ [item] := by
  cases term with
  | operators written => exact Or.inl rfl
  | stray item => exact Or.inr ⟨item, rfl, congrArg (· ++ [item]) leftItems_endRun⟩
  | operand item =>
      left
      unfold add
      dsimp only
      split
      · unfold goOn
        split
        · split <;> simp [addSlot, leaveOver, report]
        · rfl
      · simp [startRun, addSlot]

/-- What is left over keeps a segment from being one expression. -/
theorem stray_mem_leftItems (startOf : ItemId → Nat) {terms : List Term} {item : ItemId} (member : .stray item ∈ terms) :
    item ∈ (ofTerms startOf terms).leftItems := by
  have folded : ∀ reading : Reading, item ∈ reading.leftItems ∨ .stray item ∈ terms →
      item ∈ (terms.foldl (add startOf) reading).leftItems := by
    clear member
    induction terms with
    | nil => exact fun reading either => either.resolve_right (by simp)
    | cons term rest ih =>
        refine fun reading either => ih _ ?_
        rcases either with isLeft | member
        · left
          rcases leftItems_add startOf reading term with same | ⟨_, _, added⟩
          · exact same ▸ isLeft
          · exact added ▸ List.mem_append_left _ isLeft
        · rcases List.mem_cons.mp member with rfl | later
          · left
            rw [add, leftItems_endRun]
            simp
          · exact Or.inr later
  rw [ofTerms, leftItems_endRun]
  exact folded _ (Or.inr member)

end Reading

namespace Forest

/-! Trees by their items -/

variable {forest : Forest} {low : Nat} {chosen : Chosen} {node operand : ItemId} {right : Option ItemId}

theorem ShowsInfo.isWords {info : ItemId} (shows : forest.ShowsInfo chosen info) : forest.IsWords info where
  kind := ⟨_, _, _, shows.kind⟩
  bare := by
    obtain ⟨tokens, parts, _⟩ := shows.words
    rw [modifiers, parts]
    rfl

/-- What has been found out about the items of a tree. -/
structure StoredFrom (forest : Forest) (low : Nat) (tree : OperatorTree) (node : ItemId)
    (stored : ItemTree) : Prop where
  root : stored.root = node
  stores : forest.Stores stored
  items : ∀ item ∈ stored.items, low ≤ item
  bare : ∀ item ∈ stored.operators, forest.modifiers item = []
  front : ∀ head ∈ stored.heads.head?,
    forest.IsWords head ∨ tree.reading.head? = some (.operand head)

section Stored

variable (floor : ∀ id < low, ∀ part ∈ (forest.parts id).regular, part < low)
  (later : ∀ id, low ≤ id → ∀ number kind priority words operand right,
    forest.kind? id = some (.operator number kind priority words operand right) → low ≤ words)

include floor later

/-- An item that names one from `low` on is such an item itself. -/
theorem ShowsOperator.operates (shows : forest.ShowsOperator chosen operand right node)
    (above : low ≤ operand) :
    ∃ words, forest.Operates node chosen.operator.kind words operand right ∧
      forest.modifiers node = [] ∧ low ≤ node ∧ low ≤ words := by
  obtain ⟨info, written, kind, parts⟩ := shows.shown
  have sections : (forest.parts node).prefixes = [] ∧ (forest.parts node).keywords = [] ∧
      (forest.parts node).postfixes = [] ∧ operand ∈ (forest.parts node).regular := by
    rw [parts, Chosen.parts]
    split <;> simp
  obtain ⟨noPrefix, noKeyword, noPostfix, isPart⟩ := sections
  have newer : low ≤ node := Nat.le_of_not_lt fun old =>
    absurd (floor node old operand isPart) (Nat.not_lt_of_le above)
  exact ⟨info, ⟨⟨_, _, kind⟩, noPostfix, written.isWords⟩, by simp [modifiers, noPrefix, noKeyword],
    newer, later node newer _ _ _ _ _ _ kind⟩

/-- The items that show a tree store it. -/
theorem Shows.stored {tree : OperatorTree} (fitting : tree.Fitting)
    (operands : ∀ item, Piece.operand item ∈ tree.reading → forest.IsOperand item ∧ low ≤ item)
    (shows : forest.Shows tree node) : ∃ stored, forest.StoredFrom low tree node stored := by
  induction tree generalizing node with
  | operand leaf =>
      obtain rfl : node = leaf := shows
      obtain ⟨isOperand, above⟩ := operands node (by simp [OperatorTree.reading])
      refine ⟨.operand node, rfl, isOperand, ?_, by rintro _ ⟨⟩, ?_⟩
      · simpa [ItemTree.items, ItemTree.operators, ItemTree.heads] using above
      · rintro head ⟨⟩
        exact Or.inr rfl
  -- A prefix stands before the words of its operand and a postfix behind them.
  | unary chosen inside ih =>
      obtain ⟨operand, top, below⟩ := shows
      obtain ⟨unary, fitting⟩ := fitting
      by_cases isPrefix : chosen.isPrefix = true
      · have reading : (OperatorTree.unary chosen inside).reading = .operator chosen :: inside.reading := by
          rw [OperatorTree.reading, if_pos isPrefix]
        rw [reading] at operands
        obtain ⟨stored, found⟩ := ih fitting
          (fun item member => operands item (List.mem_cons_of_mem _ member)) below
        obtain ⟨words, operates, bare, newNode, newWords⟩ := top.operates floor later
          (found.root ▸ found.items _ stored.root_mem_items)
        rw [eq_of_beq isPrefix, ← found.root] at operates
        refine ⟨.before node words stored, rfl, ⟨operates, found.stores⟩, ?_, ?_, ?_⟩
        · exact ItemTree.forall_items_before.mpr ⟨newNode, newWords, found.items⟩
        · exact List.forall_mem_cons.mpr ⟨bare, found.bare⟩
        · rintro head ⟨⟩
          exact Or.inl operates.words
      · have isPostfix := unary.resolve_left isPrefix
        have reading : (OperatorTree.unary chosen inside).reading =
            inside.reading ++ [.operator chosen] := by rw [OperatorTree.reading, if_neg isPrefix]
        rw [reading] at operands
        obtain ⟨stored, found⟩ := ih fitting
          (fun item member => operands item (List.mem_append_left _ member)) below
        obtain ⟨words, operates, bare, newNode, newWords⟩ := top.operates floor later
          (found.root ▸ found.items _ stored.root_mem_items)
        rw [eq_of_beq isPostfix, ← found.root] at operates
        refine ⟨.behind node words stored, rfl, ⟨operates, found.stores⟩, ?_, ?_, ?_⟩
        · exact ItemTree.forall_items_behind.mpr ⟨newNode, newWords, found.items⟩
        · exact List.forall_mem_cons.mpr ⟨bare, found.bare⟩
        · intro head isHead
          rw [ItemTree.heads, List.head?_append_of_ne_nil _ stored.heads_ne_nil] at isHead
          refine (found.front head isHead).imp_right fun first => ?_
          rw [reading, List.head?_append, first, Option.some_or]
  | binary chosen left right ihLeft ihRight =>
      obtain ⟨first, second, top, belowLeft, belowRight⟩ := shows
      obtain ⟨isBinary, fittingLeft, fittingRight⟩ := fitting
      rw [OperatorTree.reading] at operands
      obtain ⟨storedLeft, foundLeft⟩ := ihLeft fittingLeft
        (fun item member => operands item (List.mem_append_left _ member)) belowLeft
      obtain ⟨storedRight, foundRight⟩ := ihRight fittingRight
        (fun item member => operands item (List.mem_append_right _ (List.mem_cons_of_mem _ member))) belowRight
      obtain ⟨words, operates, bare, newNode, newWords⟩ := top.operates floor later
        (foundLeft.root ▸ foundLeft.items _ storedLeft.root_mem_items)
      rw [isBinary, ← foundLeft.root, ← foundRight.root] at operates
      refine ⟨.between node words storedLeft storedRight, rfl,
        ⟨operates, foundLeft.stores, foundRight.stores⟩, ?_, ?_, ?_⟩
      · exact ItemTree.forall_items_between.mpr ⟨newNode, newWords, foundLeft.items, foundRight.items⟩
      · refine List.forall_mem_cons.mpr ⟨bare, fun item member => ?_⟩
        exact (List.mem_append.mp member).elim (foundLeft.bare item) (foundRight.bare item)
      · intro head isHead
        rw [ItemTree.heads, List.head?_append_of_ne_nil _ storedLeft.heads_ne_nil] at isHead
        refine (foundLeft.front head isHead).imp_right fun isFirst => ?_
        rw [OperatorTree.reading, List.head?_append, isFirst, Option.some_or]

end Stored

/-! Items without segments -/

/-- Only items without segments have been made, and none of the others has another kind. What is made
and is not made of operands is made of tokens. -/
structure Raises (apart : List ItemId) (before after : Forest) : Prop where
  guided : Guided apart [] before after
  kinds : ∀ id < before.size, after.kind? id = before.kind? id
  plain : ∀ id, before.size ≤ id → ∀ item, ¬ after.IsSegment id item
  words : ∀ id, before.size ≤ id → ¬ after.IsJoint id → ∀ part ∈ (after.parts id).all, after.IsToken part

variable {before mid base after : Forest} {apart : List ItemId} {kind : ItemKind} {item owner part : ItemId}

/-- The owner gets tokens only. -/
structure Spells (owner : ItemId) (before after : Forest) : Prop where
  raises : Raises [owner] before after
  words : ∀ part ∈ (after.parts owner).all, part ∈ (before.parts owner).all ∨
    after.SetAside before.size [] part ∧ after.IsToken part

namespace Raises

theorem refl (neat : forest.Neat) (apart : List ItemId) : Raises apart forest forest where
  guided := .refl neat apart
  kinds _ _ := rfl
  plain _ new _ := by
    rintro ⟨kind, isKind, _⟩
    exact absurd (lt_size_of_kind isKind) (Nat.not_lt_of_le new)
  words _ new _ _ owns := absurd (owner_lt_size owns) (Nat.not_lt_of_le new)

theorem trans (first : Raises apart before mid) (old : ∀ id ∈ apart, id < before.size)
    (second : Raises apart mid after) : Raises apart before after where
  guided := first.guided.again second.guided old
  kinds id inside := (second.kinds id (Nat.lt_of_lt_of_le inside first.guided.size)).trans
    (first.kinds id inside)
  plain id new item := by
    by_cases inMid : id < mid.size
    · exact mt (isSegment_of_kind (second.kinds id inMid)).mp (first.plain id new item)
    · exact second.plain id (Nat.le_of_not_lt inMid) item
  words id new notJoint part owns := by
    by_cases inMid : id < mid.size
    · have same := second.guided.same id inMid fun isApart => absurd (old id isApart) (Nat.not_lt_of_le new)
      rw [same.parts] at owns
      have isToken := first.words id new (mt (isJoint_of_kind same.kind).mpr notJoint) part owns
      exact isToken.of_kind (second.kinds part isToken.lt_size)
    · exact second.words id (Nat.le_of_not_lt inMid) notJoint part owns

theorem next (first : Raises [] before mid) (second : Raises [] mid after) : Raises [] before after :=
  first.trans (by simp) second

theorem widen (raises : Raises [] before after) (apart : List ItemId) : Raises apart before after :=
  ⟨raises.guided.widen apart, raises.kinds, raises.plain, raises.words⟩

theorem link (neat : forest.Neat) (ownerInside : owner < forest.size) (partInside : part < forest.size)
    {isChild : Bool} (suits : forest.IsHead owner → ¬ forest.IsKeywordToken part) :
    Raises [owner] forest (forest.link owner part .regular isChild) where
  guided := guided_link neat ownerInside partInside suits
  kinds _ _ := kind_link
  plain _ new _ := by
    rintro ⟨kind, isKind, _⟩
    exact absurd (size_link ▸ lt_size_of_kind isKind) (Nat.not_lt_of_le new)
  words _ new _ _ owns := absurd (size_link ▸ owner_lt_size owns) (Nat.not_lt_of_le new)

/-- Where no construct is new, an item that is new is loose unless it is a token. -/
theorem loose (raises : Raises [] before after) {loose : List ItemId}
    (new : ∀ id ∈ loose, before.size ≤ id ∧ id < after.size) (complex : ∀ id ∈ loose, ¬ after.IsToken id) :
    Guided [] loose before after where
  size := raises.guided.size
  neat := raises.guided.neat
  new := new
  same := raises.guided.same
  minds id new := by
    have minds := raises.guided.minds id new
    refine ⟨minds.words, fun item isSegment => absurd isSegment (raises.plain id new item), ?_⟩
    intro notJoint part owns
    refine (minds.parts notJoint part owns).imp_right fun aside =>
      ⟨aside.above, aside.inside, fun isLoose => ?_, aside.bare⟩
    exact complex part isLoose (raises.words id new notJoint part owns)

/-- An item that has been made with its parts. -/
theorem made (first : Raises [] before mid) (begun : Begun kind mid base) (plain : kind.segments = [])
    (later : ∀ number kind' priority words operand right,
      kind = .operator number kind' priority words operand right → before.size ≤ words)
    (rest : Raises [mid.size] base after)
    (spells : kind.isJoint = true ∨ Spells mid.size base after) : Raises [] before after := by
  have isKind : after.kind? mid.size = some kind := (rest.kinds _ begun.inside).trans begun.kind_new
  have spelled : ¬ after.IsJoint mid.size → Spells mid.size base after := fun notJoint =>
    spells.resolve_left fun isJoint => notJoint ⟨kind, isKind, isJoint⟩
  have created := begun.guided first.guided plain later
  refine ⟨?_, fun id inside => ?_, fun id new item => ?_, fun id new notJoint part owns => ?_⟩
  · refine (created.trans rest.guided fun id isItem => ?_).fewer (List.nil_subset _)
    obtain rfl := List.mem_singleton.mp isItem
    refine Or.inr ⟨List.mem_append_right _ isItem, ?_⟩
    refine (created.minds _ (Nat.le_trans first.guided.size (Nat.le_refl _))).stays (Nat.le_refl _)
      rest.guided.size (rest.kinds _ begun.inside) (fun notJoint part owns => ?_)
      (fun other inside notItem _ => rest.guided.same other inside (by simpa using notItem))
      fun other isEither => Or.inl (by simpa using isEither)
    refine ((spelled notJoint).words part owns).imp_right fun word => ?_
    exact (word.1.beside begun first.guided.size).stays (Nat.le_refl _) (Nat.le_refl _) rfl
      fun _ isItem => Or.inl (by simpa using isItem)
  · have inMid := Nat.lt_of_lt_of_le inside first.guided.size
    exact (rest.kinds id (Nat.lt_trans inMid begun.inside)).trans
      ((begun.kind_old inMid).trans (first.kinds id inside))
  · by_cases inBase : id < base.size
    · rw [isSegment_of_kind (rest.kinds id inBase)]
      rcases begun.old_or_new inBase with inMid | rfl
      · exact mt (isSegment_of_kind (begun.kind_old inMid)).mp (first.plain id new item)
      · rintro ⟨other, isOther, member⟩
        obtain rfl := Option.some.inj (begun.kind_new.symm.trans isOther)
        rw [plain] at member
        cases member
    · exact rest.plain id (Nat.le_of_not_lt inBase) item
  · by_cases inBase : id < base.size
    · rcases begun.old_or_new inBase with inMid | rfl
      · have same := (begun.same inMid).trans
          (rest.guided.same id inBase (by simpa using Nat.ne_of_lt inMid))
        rw [same.parts] at owns
        have isToken := first.words id new (mt (isJoint_of_kind same.kind).mpr notJoint) part owns
        have inside := isToken.lt_size
        exact isToken.of_kind ((rest.kinds part (Nat.lt_trans inside begun.inside)).trans (begun.kind_old inside))
      · refine (((spelled notJoint).words part owns).resolve_left fun old => ?_).2
        rw [begun.noParts] at old
        cases old
    · exact rest.words id (Nat.le_of_not_lt inBase) notJoint part owns

end Raises

theorem Spells.refl (neat : forest.Neat) (owner : ItemId) : Spells owner forest forest :=
  ⟨.refl neat _, fun _ member => Or.inl member⟩

theorem Spells.trans (first : Spells owner before mid) (inside : owner < before.size)
    (second : Spells owner mid after) : Spells owner before after where
  raises := first.raises.trans (by simpa using inside) second.raises
  words part member := by
    rcases second.words part member with earlier | ⟨aside, isToken⟩
    · refine (first.words part earlier).imp_right fun ⟨aside, isToken⟩ => ?_
      have notOwner : part ≠ owner := fun same => absurd inside (Nat.not_lt_of_le (same ▸ aside.above))
      have same := second.raises.guided.same part aside.inside (by simpa using notOwner)
      exact ⟨aside.stays (Nat.le_refl _) second.raises.guided.size same.modifiers (by simp),
        isToken.of_kind same.kind⟩
    · exact Or.inr ⟨aside.stays first.raises.guided.size (Nat.le_refl _) rfl (by simp), isToken⟩

end Forest

open Forest

namespace Parse

variable {α β : Type} {s : ParseState} {low : Nat} {P : α → Prop} {Q : β → Prop}

/-- From a forest of `low` items or more on, the step makes only items without segments. -/
def Keeps (low : Nat) (P : α → Prop) (step : Parse α) : Prop :=
  ∀ s : ParseState, s.forest.Neat → low ≤ s.forest.size →
    Ends step s (fun value t => P value ∧ Raises [] s.forest t.forest) fun _ _ => True

theorem keeps_bind {step : Parse α} {next : α → Parse β} (first : Keeps low P step)
    (rest : ∀ value, P value → Keeps low Q (next value)) : Keeps low Q (step >>= next) := by
  intro s neat further
  refine (first s neat further).bind ?_ fun _ _ _ => trivial
  rintro value t ⟨holds, raises⟩
  refine (rest value holds t raises.guided.neat (Nat.le_trans further raises.guided.size)).imp ?_
    fun _ _ _ => trivial
  exact fun _ u reached => ⟨reached.1, raises.next reached.2⟩

theorem keeps_pure {value : α} (holds : P value) : Keeps low P (pure value : Parse α) :=
  fun _ neat _ => ends_pure ⟨holds, .refl neat []⟩

theorem keeps_mapM {good : β → Prop} {items : List β} {step : β → Parse α}
    (each : ∀ item, good item → Keeps low P (step item)) (all : ∀ item ∈ items, good item) :
    Keeps low (fun values => ∀ value ∈ values, P value) (items.mapM step) := by
  induction items with
  | nil => exact keeps_pure (by simp)
  | cons item rest ih =>
      obtain ⟨here, later⟩ := List.forall_mem_cons.mp all
      rw [List.mapM_cons]
      refine keeps_bind (each item here) fun value holds => keeps_bind (ih later) fun values more => ?_
      exact keeps_pure (List.forall_mem_cons.mpr ⟨holds, more⟩)

theorem keeps_forM {items : List β} {step : β → Parse Unit}
    (each : ∀ item, Keeps low (fun _ => True) (step item)) :
    Keeps low (fun _ => True) (items.forM step) := by
  induction items with
  | nil => exact keeps_pure trivial
  | cons item rest ih => exact keeps_bind (each item) fun _ _ => ih

theorem keeps_foldlM {items : List β} {step : α → β → Parse α}
    (each : ∀ value item, P value → Keeps low P (step value item)) {value : α} (start : P value) :
    Keeps low P (items.foldlM step value) := by
  induction items generalizing value with
  | nil => exact keeps_pure start
  | cons item rest ih =>
      rw [List.foldlM_cons]
      exact keeps_bind (each value item start) fun _ holds => ih holds

theorem keeps_addFault (fault : Fault) : Keeps low (fun _ => True) (addFault fault) :=
  fun _ neat _ => ends_ok rfl ⟨trivial, .refl neat []⟩

/-! Operators -/

section Attach

variable {owner part : ItemId} {isChild : Bool} {kind : ItemKind}

theorem ends_attach_raises (neat : s.forest.Neat)
    (suits : s.forest.IsHead owner → ¬ s.forest.IsKeywordToken part) :
    Ends (attach (·.attach owner part .regular isChild)) s
      (fun _ t => Raises [owner] s.forest t.forest ∧
        ∀ other, t.forest.Owns owner other → s.forest.Owns owner other ∨ other = part)
      fun _ _ => True := by
  unfold attach attachOr
  simp only [ends_forest_bind]
  cases attached : s.forest.attach owner part .regular isChild with
  | error error => exact ends_error rfl trivial
  | ok next =>
      obtain ⟨rfl, ownerInside, partInside⟩ := Forest.attach_ok attached
      exact ends_ok rfl ⟨.link neat ownerInside partInside suits, fun _ owns =>
        ((owns_link ownerInside).mp owns).imp_right And.right⟩

/-- What is no operand and no words of an operator may take any part. -/
structure Taking (owner : ItemId) (kind : ItemKind) (base forest : Forest) : Prop where
  raises : Raises [owner] base forest
  inside : owner < base.size
  isKind : forest.kind? owner = some kind
  noHead : kind.isHead = false

theorem ends_attach_taking {base : Forest} (taking : Taking owner kind base s.forest) :
    Ends (attach (·.attach owner part .regular isChild)) s
      (fun _ t => Taking owner kind base t.forest) fun _ _ => True := by
  refine (ends_attach_raises taking.raises.guided.neat ?_).imp ?_ fun _ _ _ => trivial
  · rintro ⟨other, isOther, isHead⟩
    obtain rfl := Option.some.inj (taking.isKind.symm.trans isOther)
    rw [taking.noHead] at isHead
    cases isHead
  · rintro _ t ⟨raises, _⟩
    exact ⟨taking.raises.trans (by simpa using taking.inside) raises, taking.inside,
      (raises.kinds owner (lt_size_of_kind taking.isKind)).trans taking.isKind, taking.noHead⟩

theorem ends_attachAll_taking {base : Forest} {parts : List ItemId} :
    ∀ {s : ParseState}, Taking owner kind base s.forest →
      Ends (parts.forM fun part => attach (·.attach owner part .regular isChild)) s
        (fun _ t => Taking owner kind base t.forest) fun _ _ => True := by
  induction parts with
  | nil => exact fun taking => ends_pure taking
  | cons part rest ih =>
      exact fun taking => (ends_attach_taking taking).bind (fun _ _ more => ih more) fun _ _ _ => trivial

/-- A word of an operator. -/
theorem ends_word_spells (neat : s.forest.Neat) (inside : owner < s.forest.size) (word : String)
    (start : Nat) :
    Ends (createToken .operatorNamePart word start >>= addRegular owner) s
      (fun _ t => Spells owner s.forest t.forest) fun _ _ => True := by
  rw [ends_createToken_bind]
  have begun : Begun (.token .operatorNamePart word) s.forest
      (s.forest.createToken .operatorNamePart word start).2 := ⟨start, rfl⟩
  have fresh := Spells.refl (begun.neat neat) s.forest.size
  have made : Raises [] s.forest (s.forest.createToken .operatorNamePart word start).2 :=
    (Raises.refl neat []).made begun rfl (by rintro _ _ _ _ _ _ ⟨⟩) fresh.raises (Or.inr fresh)
  refine (ends_attach_raises made.guided.neat fun _ =>
    not_keyword_of_token begun.kind_new (by rintro _ ⟨⟩)).imp ?_ fun _ _ _ => trivial
  rintro _ t ⟨raises, parts⟩
  refine ⟨(made.widen [owner]).trans (by simpa using inside) raises, fun part member => ?_⟩
  refine (parts part member).imp (fun old => (begun.same inside).parts ▸ old) ?_
  rintro rfl
  have same := raises.guided.same s.forest.size begun.inside (by simpa using Nat.ne_of_gt inside)
  exact ⟨⟨Nat.le_refl _, Nat.lt_of_lt_of_le begun.inside raises.guided.size, List.not_mem_nil,
    same.modifiers.trans begun.bare⟩, (isToken_of_kind (same.kind.trans begun.kind_new)).mpr rfl⟩

end Attach

theorem ends_createInfo_raises (chosen : Chosen) (neat : s.forest.Neat) :
    Ends (createInfo chosen) s
      (fun info t => Raises [] s.forest t.forest ∧ s.forest.size ≤ info) fun _ _ => True := by
  refine ends_create_begun fun t begun => ?_
  have words : ∀ (words : List (Nat × String)) {u : ParseState}, u.forest.Neat →
      s.forest.size < u.forest.size →
      Ends (words.forM fun word =>
          createToken .operatorNamePart word.2 word.1 >>= addRegular s.forest.size) u
        (fun _ v => Spells s.forest.size u.forest v.forest) fun _ _ => True := by
    intro words
    induction words with
    | nil => exact fun neat _ => ends_pure (.refl neat _)
    | cons word rest ih =>
        intro u neat inside
        refine (ends_word_spells neat inside word.2 word.1).bind ?_ fun _ _ _ => trivial
        intro _ v spells
        refine (ih spells.raises.guided.neat (Nat.lt_of_lt_of_le inside spells.raises.guided.size)).imp ?_
          fun _ _ _ => trivial
        exact fun _ w more => spells.trans inside more
  refine (words _ (begun.neat neat) begun.inside).bind ?_ fun _ _ _ => trivial
  intro _ u spells
  exact ends_pure ⟨(Raises.refl neat []).made begun rfl (by rintro _ _ _ _ _ _ ⟨⟩) spells.raises
    (Or.inr spells), Nat.le_refl _⟩

theorem keeps_createInfo (chosen : Chosen) : Keeps low (fun _ => True) (createInfo chosen) :=
  fun _ neat _ => (ends_createInfo_raises chosen neat).imp (fun _ _ reached => ⟨trivial, reached.1⟩)
    fun _ _ _ => trivial

theorem keeps_createOperator (chosen : Chosen) (operand : ItemId) (right : Option ItemId) :
    Keeps low (fun node => low ≤ node) (createOperator chosen operand right) := by
  intro s neat further
  refine (ends_createInfo_raises chosen neat).bind ?_ fun _ _ _ => trivial
  rintro info t ⟨raises, newInfo⟩
  refine ends_create_begun fun u begun => ?_
  have taking : Taking t.forest.size (chosen.itemKind info operand right) u.forest u.forest :=
    ⟨.refl (begun.neat raises.guided.neat) _, begun.inside, begun.kind_new, rfl⟩
  have finished : ∀ {v : ParseState},
      Taking t.forest.size (chosen.itemKind info operand right) u.forest v.forest →
        low ≤ t.forest.size ∧ Raises [] s.forest v.forest := fun taken =>
    ⟨Nat.le_trans further raises.guided.size,
      raises.made begun rfl (by rintro _ _ _ _ _ _ ⟨⟩; exact newInfo) taken.raises (Or.inl rfl)⟩
  dsimp only
  split
  · refine (ends_attach_taking taking).bind (fun _ v taking => ?_) fun _ _ _ => trivial
    refine (ends_attach_taking taking).bind (fun _ w taking => ?_) fun _ _ _ => trivial
    exact ends_pure (finished taking)
  · refine (ends_attach_taking taking).bind (fun _ v taking => ?_) fun _ _ _ => trivial
    refine (ends_attach_taking taking).bind (fun _ w taking => ?_) fun _ _ _ => trivial
    exact ends_pure (finished taking)
  · refine (ends_attach_taking taking).bind (fun _ v taking => ?_) fun _ _ _ => trivial
    refine (ends_attach_taking taking).bind (fun _ w taking => ?_) fun _ _ _ => trivial
    cases right with
    | none => exact ends_pure (finished taking)
    | some second =>
        refine (ends_attach_taking taking).bind (fun _ x taking => ?_) fun _ _ _ => trivial
        exact ends_pure (finished taking)

section Nodes

variable {known : List ItemId}

/-- A node is one of those that are known, or it is new. -/
def IsNode (low : Nat) (known : List ItemId) (node : ItemId) : Prop := node ∈ known ∨ low ≤ node

def IsNodeRun (low : Nat) (known : List ItemId) (run : Run ItemId) : Prop :=
  IsNode low known run.first ∧ ∀ link ∈ run.links, IsNode low known link.2

theorem keeps_operatorNode (chosen : Chosen) (operand : ItemId) (right : Option ItemId) :
    Keeps low (IsNode low known) (createOperator chosen operand right) := fun s neat further =>
  (keeps_createOperator chosen operand right s neat further).imp
    (fun _ _ reached => ⟨Or.inr reached.1, reached.2⟩) fun _ _ _ => trivial

theorem keeps_combineAt (priority : Int) {links : List (Chosen × ItemId)} :
    ∀ {left : ItemId}, IsNodeRun low known ⟨left, links⟩ →
      Keeps low (IsNodeRun low known) (Run.combineAt combine priority left links) := by
  induction links with
  | nil => exact fun nodes => keeps_pure nodes
  | cons link rest ih =>
      rintro left ⟨isNode, nodes⟩
      obtain ⟨isRight, nodesRest⟩ := List.forall_mem_cons.mp nodes
      unfold Run.combineAt
      split
      · exact keeps_bind (keeps_operatorNode _ _ _) fun node isNew => ih ⟨isNew, nodesRest⟩
      · refine keeps_bind (ih ⟨isRight, nodesRest⟩) fun run nodesRun => keeps_pure ⟨isNode, ?_⟩
        exact List.forall_mem_cons.mpr nodesRun

theorem keeps_fold (run : Run ItemId) (nodes : IsNodeRun low known run) :
    Keeps low (IsNode low known) (Run.fold combine run) := by
  unfold Run.fold
  induction run.priorities generalizing run with
  | nil => exact keeps_pure nodes.1
  | cons priority rest ih => exact keeps_bind (keeps_combineAt priority nodes) fun next more => ih next more

theorem isNodeRun_split {links : List (Option Chosen × ItemId)} :
    ∀ {node : ItemId}, IsNode low known node → (∀ link ∈ links, IsNode low known link.2) →
      ∀ run ∈ (Run.split node links).1 :: (Run.split node links).2, IsNodeRun low known run := by
  induction links with
  | nil => simp [Run.split, IsNodeRun]
  | cons link rest ih =>
      obtain ⟨chosen, next⟩ := link
      intro node isNode nodes
      obtain ⟨isNext, nodesRest⟩ := List.forall_mem_cons.mp nodes
      obtain ⟨first, later⟩ := List.forall_mem_cons.mp (ih isNext nodesRest)
      cases chosen with
      | none =>
          exact List.forall_mem_cons.mpr ⟨⟨isNode, by simp [Run.split]⟩,
            List.forall_mem_cons.mpr ⟨first, later⟩⟩
      | some chosen =>
          exact List.forall_mem_cons.mpr ⟨⟨isNode, List.forall_mem_cons.mpr first⟩, later⟩

theorem keeps_foldSlots {slots : List Slot} (operands : ∀ slot ∈ slots, slot.operand ∈ known) :
    Keeps low (fun nodes => ∀ node ∈ nodes, IsNode low known node) (foldSlots slots) := by
  refine keeps_bind (keeps_mapM (P := fun node => IsNode low known node.2) (fun slot isKnown => ?_)
    operands) fun nodes isNode => ?_
  · refine keeps_bind (keeps_foldlM (P := IsNode low known) (fun _ _ _ => keeps_operatorNode _ _ _)
      (Or.inl isKnown)) fun node isNode => keeps_pure isNode
  · split
    · exact keeps_pure (by simp)
    · obtain ⟨isFirst, isRest⟩ := List.forall_mem_cons.mp isNode
      exact keeps_mapM (fun run nodes => keeps_fold run nodes) (isNodeRun_split isFirst isRest)

end Nodes

theorem ends_createSeries_raises (items : List ItemId) (neat : s.forest.Neat) :
    Ends (createSeries items) s (fun series t => Raises [] s.forest t.forest ∧
      s.forest.size ≤ series ∧ t.forest.kind? series = some .series) fun _ _ => True := by
  unfold createSeries
  simp only [ends_forest_bind]
  refine ends_create_begun fun t begun => ?_
  have taking : Taking s.forest.size .series t.forest t.forest :=
    ⟨.refl (begun.neat neat) _, begun.inside, begun.kind_new, rfl⟩
  refine (ends_attachAll_taking taking).bind ?_ fun _ _ _ => trivial
  intro _ u taken
  exact ends_pure ⟨(Raises.refl neat []).made begun rfl (by rintro _ _ _ _ _ _ ⟨⟩) taken.raises (Or.inl rfl),
    Nat.le_refl _, taken.isKind⟩

/-! Segments -/

section Pieces

variable {slot : Slot} {slots : List Slot} {item : ItemId}

theorem operand_of_piece (member : Piece.operand item ∈ slot.pieces) : item = slot.operand := by
  simpa [Slot.pieces] using member

/-- What stands in front of a reading stands in front of its terms. -/
theorem head_of_pieces (first : (slots.flatMap Slot.pieces).head? = some (.operand item)) :
    (slots.flatMap Slot.terms).head? = some (.operand item) := by
  cases slots with
  | nil => cases first
  | cons slot rest =>
      rw [List.flatMap_cons] at first ⊢
      have pieces : slot.pieces = (slot.link.toList ++ slot.prefixes).map .operator ++
          (.operand slot.operand :: slot.postfixes.map .operator) := by simp [Slot.pieces]
      rw [pieces] at first
      rw [Slot.terms]
      cases front : slot.link.toList ++ slot.prefixes with
      | nil =>
          rw [front] at first
          obtain rfl : slot.operand = item := by simpa using first
          simp
      | cons chosen more =>
          rw [front] at first
          simp at first

end Pieces

/-- The tree of a reading is routed if nothing modifies an operand in front. -/
theorem routed_of_shown {terms : List Term} {slots : List Slot} {base after : Forest}
    {tree : OperatorTree} {node : ItemId} (neat : base.Neat) (guided : Guided [] [] base after)
    (spelled : slots.flatMap Slot.terms = terms) (fitting : tree.Fitting)
    (reading : tree.reading = slots.flatMap Slot.pieces)
    (operands : ∀ item, .operand item ∈ terms → after.IsOperand item ∧ base.size ≤ item)
    (first : ∀ item, terms.head? = some (.operand item) → after.modifiers item = [])
    (shows : after.Shows tree node) : after.RoutedFrom base.size [] node ∧ node < after.size := by
  have floor : ∀ id < base.size, ∀ part ∈ (after.parts id).regular, part < base.size := by
    intro id old part member
    rw [(guided.same id old List.not_mem_nil).parts] at member
    exact neat.closed.parts id part (by simp [Parts.named, Parts.all, member])
  obtain ⟨stored, found⟩ := shows.stored floor (fun id new => (guided.minds id new).words) fitting (by
    intro item member
    rw [reading] at member
    obtain ⟨slot, inSlots, isPiece⟩ := List.mem_flatMap.mp member
    refine operands item (spelled ▸ List.mem_flatMap.mpr ⟨slot, inSlots, ?_⟩)
    rw [operand_of_piece isPiece]
    simp [Slot.terms])
  refine ⟨⟨stored, found.root, ⟨found.stores, fun item member _ => found.bare item member, ?_⟩,
    fun id member => ⟨found.items id member, List.not_mem_nil⟩⟩, ?_⟩
  · intro head isHead _
    rcases found.front head isHead with isWords | isFirst
    · exact isWords.bare
    · rw [reading] at isFirst
      exact first head (spelled ▸ head_of_pieces isFirst)
  · exact found.root ▸ found.stores.lt_size _ stored.root_mem_items

/-- What is found is a routed tree of items that are newer than `base`. Its root has just been made, or was
loose, and it still is. -/
structure Resolves (base : Forest) (loose : List ItemId) (before after : Forest) (found : Option ItemId) :
    Prop where
  guided : Guided [] [] before after
  source : ∀ item ∈ found, item ∈ loose ∨ before.size ≤ item
  loose : ∀ item ∈ found, Guided [] [item] base after
  routed : ∀ item ∈ found, after.RoutedFrom base.size [] item

/-- The item of a segment is the root of a routed tree, and still loose. -/
theorem ends_resolve_routed {terms : List Term} {base : Forest} {loose : List ItemId} (neat : base.Neat)
    (guided : Guided [] loose base s.forest)
    (operands : ∀ item, .operand item ∈ terms → s.forest.IsOperand item ∧ item ∈ loose)
    (first : ∀ item, terms.head? = some (.operand item) → s.forest.modifiers item = []) :
    Ends (resolve terms) s (fun found t => Resolves base loose s.forest t.forest found) fun _ _ => True := by
  unfold resolve
  simp only [ends_forest_bind]
  have known : ∀ slot ∈ (Reading.ofTerms s.forest.start terms).slots.reverse, slot.operand ∈ loose := by
    intro slot member
    exact (operands _ (Reading.operand_mem_of_slot _ (List.mem_reverse.mp member))).2
  refine (keeps_forM keeps_addFault s guided.neat (Nat.le_refl _)).bind ?_ fun _ _ _ => trivial
  rintro _ t ⟨-, reported⟩
  split
  · exact ends_pure ⟨reported.guided, by rintro _ ⟨⟩, by rintro _ ⟨⟩, by rintro _ ⟨⟩⟩
  · rename_i notEmpty
    refine ((keeps_foldSlots known t reported.guided.neat reported.guided.size).and
      (ends_foldSlotsShown t _)).bind ?_ fun _ _ _ => trivial
    rintro nodes u ⟨⟨isNode, folded⟩, _, shown⟩
    have raises := reported.next folded
    -- Whatever has been made since the operands were is loose, and so are they.
    have newly : ∀ {v : ParseState}, Raises [] s.forest v.forest → ∀ item, ¬ v.forest.IsToken item →
        item ∈ loose ∨ s.forest.size ≤ item ∧ item < v.forest.size → Guided [] [item] base v.forest := by
      rintro v raises item complex (isLoose | new)
      · exact (guided.next raises.guided).fewer (by simpa using isLoose)
      · exact (guided.next (raises.loose (by simpa using new) (by simpa using complex))).fewer
          (List.subset_append_right _ _)
    split
    -- Everything is in one item, so no fault has been reported and the terms have a longest reading.
    · rename_i node whole
      simp only [Reading.isWhole, Bool.and_eq_true, List.isEmpty_iff] at whole
      obtain ⟨⟨_, noItems⟩, faultless⟩ := whole
      have plain : ∀ item, .stray item ∉ terms := fun item member => by
        have left := Reading.stray_mem_leftItems s.forest.start member
        rw [noItems] at left
        cases left
      have filled : terms ≠ [] := fun none => notEmpty (by rw [none]; rfl)
      have longest := Reading.longest_of_faultless s.forest.start plain filled faultless
      obtain ⟨tree, isTree, obeys, reading⟩ := Slot.trees_spec
        (fun slot member => (longest.picks slot member).fits) longest.unbroken
      rw [isTree] at shown
      rcases shown with _ | ⟨here, _⟩
      have operandsNow : ∀ item, .operand item ∈ terms → u.forest.IsOperand item ∧ base.size ≤ item :=
        fun item member => ⟨raises.guided.operand (operands item member).1 List.not_mem_nil,
          (guided.new item (operands item member).2).1⟩
      have firstNow : ∀ item, terms.head? = some (.operand item) → u.forest.modifiers item = [] := by
        intro item isFirst
        have inside := (operands item (List.mem_of_mem_head? isFirst)).1.lt_size
        exact (raises.guided.modifiers inside List.not_mem_nil).trans (first item isFirst)
      have after := (guided.next raises.guided).fewer (List.nil_subset _)
      obtain ⟨routed, inside⟩ := routed_of_shown neat after longest.spelled obeys.fitting reading
        operandsNow firstNow here
      have loose := newly raises node routed.not_token ((isNode node (by simp)).imp_right fun new => ⟨new, inside⟩)
      refine ends_pure ⟨raises.guided, ?_, ?_, ?_⟩ <;> rintro _ ⟨⟩
      · exact isNode node (by simp)
      · exact loose
      · exact routed
    -- What has no place in a tree goes into a series, and a series routes nothing.
    · refine (keeps_mapM (fun chosen (_ : True) => keeps_createInfo chosen) (fun _ _ => trivial) u
        folded.guided.neat raises.guided.size).bind ?_ fun _ _ _ => trivial
      rintro infos v ⟨-, named⟩
      refine (ends_createSeries_raises _ named.guided.neat).bind ?_ fun _ _ _ => trivial
      rintro series w ⟨made, new, isSeries⟩
      have raisesAll := (raises.next named).next made
      have isOperand : w.forest.IsOperand series := ⟨_, isSeries, rfl⟩
      have newSeries : s.forest.size ≤ series :=
        Nat.le_trans (raises.next named).guided.size new
      refine ends_pure ⟨raisesAll.guided, ?_, ?_, ?_⟩ <;> rintro _ ⟨⟩
      · exact Or.inr newSeries
      · exact newly raisesAll series isOperand.not_token (Or.inr ⟨newSeries, isOperand.lt_size⟩)
      · exact isOperand.routedFrom (Nat.le_trans guided.size newSeries)

end Parse

end ExprLang
