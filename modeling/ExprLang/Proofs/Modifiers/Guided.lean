import ExprLang.Proofs.Forest.Covering
import ExprLang.Proofs.Modifiers.Trees

/-!
What stays routed while a parse goes on. Whatever a step makes has its parts in the sections they belong
to, and every segment of a construct that it makes is a routed tree. The items of such a tree are newer
than the construct, so the construct can be finished without touching them. Its other parts are set
aside: nothing will modify them. An operand that may still be modified is loose, and neither part of a
tree nor set aside.
-/

namespace ExprLang

namespace ItemKind

/-- The kinds of operands, and that of the words of an operator. -/
def isHead : ItemKind → Bool
  | token .. | operator .. | root .. | series => false
  | _ => true

/-- What is made of operands, which may be modified. -/
def isJoint : ItemKind → Bool
  | operator .. | series => true
  | _ => false

/-- A construct while it is being made and afterwards. -/
def isStageOf : ItemKind → ItemKind → Bool
  | braces _ name .., braces _ other .. => name == other
  | codeBlock .., codeBlock .. | root .., root .. => true
  | _, _ => false

variable {kind other : ItemKind}

theorem isStageOf_cases (isStage : kind.isStageOf other = true) :
    kind.isHead = other.isHead ∧ kind.isToken = false ∧ other.isToken = false := by
  cases kind <;> cases other <;> first | exact ⟨rfl, rfl, rfl⟩ | cases isStage

/-- Braces keep their name, or have none. -/
theorem isStageOf_braces {brace : BraceKind} {name : Option ItemId} {opening : ItemId} {closing : Option ItemId}
    {parameters : List (Option ItemId)}
    (isStage : (braces brace name opening closing parameters).isStageOf other = true) :
    ∃ brace opening closing parameters, other = braces brace name opening closing parameters := by
  cases other with
  | braces brace' name' opening' closing' parameters' =>
      obtain rfl : name = name' := eq_of_beq isStage
      exact ⟨brace', opening', closing', parameters', rfl⟩
  | _ => cases isStage

end ItemKind

namespace Forest

def IsNameless (forest : Forest) (id : ItemId) : Prop :=
  ∃ kind opening closing parameters,
    forest.kind? id = some (.braces kind none opening closing parameters)

def IsKeywordToken (forest : Forest) (id : ItemId) : Prop :=
  ∃ keyword text, forest.kind? id = some (.token (.keyword keyword) text)

def IsHead (forest : Forest) (id : ItemId) : Prop :=
  ∃ kind, forest.kind? id = some kind ∧ kind.isHead = true

/-- Prefixes are braces without a name and keywords are keywords, and of operands and the words of
operators no other section has a keyword. -/
structure Filed (forest : Forest) (owner : ItemId) : Prop where
  prefixes : ∀ part ∈ (forest.parts owner).prefixes, forest.IsNameless part
  keywords : ∀ part ∈ (forest.parts owner).keywords, forest.IsKeywordToken part
  body : forest.IsHead owner → ∀ part ∈ forest.body owner, ¬ forest.IsKeywordToken part

structure Neat (forest : Forest) : Prop where
  closed : forest.Closed
  filed : ∀ owner, forest.Filed owner
  flat : forest.Flat

/-- What belongs into a section. -/
def Suits (forest : Forest) (owner part : ItemId) : Section → Prop
  | .prefixes => forest.IsNameless part
  | .keywords => forest.IsKeywordToken part
  | .regular | .postfixes => forest.IsHead owner → ¬ forest.IsKeywordToken part

/-- The item is the root of a routed tree of items from `low` on that are not loose. -/
def RoutedFrom (forest : Forest) (low : Nat) (loose : List ItemId) (item : ItemId) : Prop :=
  ∃ tree : ItemTree, tree.root = item ∧ forest.Routed tree ∧ ∀ id ∈ tree.items, low ≤ id ∧ id ∉ loose

def IsSegment (forest : Forest) (owner item : ItemId) : Prop :=
  ∃ kind, forest.kind? owner = some kind ∧ item ∈ kind.segments

def IsJoint (forest : Forest) (id : ItemId) : Prop :=
  ∃ kind, forest.kind? id = some kind ∧ kind.isJoint = true

/-- A part that is not modified, nor will it be: it is not older than `low`, and not loose. -/
structure SetAside (forest : Forest) (low : Nat) (loose : List ItemId) (part : ItemId) : Prop where
  above : low ≤ part
  inside : part < forest.size
  fixed : part ∉ loose
  bare : forest.modifiers part = []

/-- The segments of the item are routed trees of newer items, and the words of an operator are not
older than `low`. Other parts than segments are set aside, if the item is not made of operands. -/
structure Minds (forest : Forest) (low : Nat) (loose : List ItemId) (id : ItemId) : Prop where
  words : ∀ number kind priority words operand right,
    forest.kind? id = some (.operator number kind priority words operand right) → low ≤ words
  segments : ∀ item, forest.IsSegment id item → forest.RoutedFrom (id + 1) loose item
  parts : ¬ forest.IsJoint id → ∀ part ∈ (forest.parts id).all,
    forest.IsSegment id part ∨ forest.SetAside low loose part

/-- All that has been made since `before` minds its modifiers, and what was there is left as it is, but
for the items in `apart`. -/
structure Guided (apart loose : List ItemId) (before after : Forest) : Prop where
  size : before.size ≤ after.size
  neat : after.Neat
  new : ∀ id ∈ loose, before.size ≤ id ∧ id < after.size
  same : ∀ id < before.size, id ∉ apart → Same before after id
  minds : ∀ id, before.size ≤ id → after.Minds before.size loose id

variable {before mid after forest : Forest} {id owner part item : Nat}
  {apart loose more : List ItemId} {place : Section} {isChild : Bool} {low : Nat}

/-! Items that are left as they are -/

theorem isToken_of_kind {kind : ItemKind} (isKind : forest.kind? id = some kind) :
    forest.IsToken id ↔ kind.isToken = true := by
  obtain ⟨item, found, rfl⟩ := Option.map_eq_some_iff.mp isKind
  exact ⟨fun ⟨other, isOther, isToken⟩ => Option.some.inj (found.symm.trans isOther) ▸ isToken,
    fun isToken => ⟨item, found, isToken⟩⟩

theorem IsToken.of_kind (isToken : before.IsToken id) (kind : after.kind? id = before.kind? id) :
    after.IsToken id := by
  obtain ⟨item, found, isToken⟩ := isToken
  exact (isToken_of_kind (kind.trans (kind_of_get found))).mpr isToken

theorem IsToken.lt_size (isToken : forest.IsToken id) : id < forest.size :=
  get_lt_size isToken.choose_spec.1

theorem IsKeywordToken.isToken (isKeyword : forest.IsKeywordToken id) : forest.IsToken id := by
  obtain ⟨keyword, text, isKind⟩ := isKeyword
  exact (isToken_of_kind isKind).mpr rfl

theorem IsOperand.not_token (isOperand : forest.IsOperand id) : ¬ forest.IsToken id := by
  obtain ⟨kind, isKind, isOperand⟩ := isOperand
  rw [isToken_of_kind isKind]
  cases kind <;> first | exact Bool.false_ne_true | cases isOperand

theorem IsOperand.not_keyword (isOperand : forest.IsOperand id) : ¬ forest.IsKeywordToken id :=
  fun isKeyword => isOperand.not_token isKeyword.isToken

theorem IsOperand.lt_size (isOperand : forest.IsOperand id) : id < forest.size := by
  obtain ⟨kind, isKind, _⟩ := isOperand
  exact lt_size_of_kind isKind

theorem IsOperand.of_kind (isOperand : before.IsOperand id) (kind : after.kind? id = before.kind? id) :
    after.IsOperand id := by
  obtain ⟨kindHere, isKind, isOperand⟩ := isOperand
  exact ⟨kindHere, kind.trans isKind, isOperand⟩

/-- The item still suits the sections that it suited. -/
structure StillSuits (before after : Forest) (id : ItemId) : Prop where
  nameless : before.IsNameless id → after.IsNameless id
  keyword : after.IsKeywordToken id ↔ before.IsKeywordToken id

theorem stillSuits_of_kind (kind : after.kind? id = before.kind? id) : StillSuits before after id where
  nameless := by rw [IsNameless, IsNameless, kind]; exact fun nameless => nameless
  keyword := by rw [IsKeywordToken, IsKeywordToken, kind]

theorem isHead_of_kind (kind : after.kind? id = before.kind? id) :
    after.IsHead id ↔ before.IsHead id := by rw [IsHead, IsHead, kind]

theorem Filed.congr (filed : before.Filed owner) (closed : before.Closed)
    (parts : after.parts owner = before.parts owner) (head : after.IsHead owner → before.IsHead owner)
    (suits : ∀ id < before.size, StillSuits before after id) : after.Filed owner := by
  have inside : ∀ part ∈ (before.parts owner).all, part < before.size := fun part member =>
    closed.parts owner part (List.mem_append_left _ member)
  refine ⟨fun part member => ?_, fun part member => ?_, fun isHead part member => ?_⟩
  · rw [parts] at member
    exact (suits part (inside part (by simp [Parts.all, member]))).nameless
      (filed.prefixes part member)
  · rw [parts] at member
    exact (suits part (inside part (by simp [Parts.all, member]))).keyword.mpr
      (filed.keywords part member)
  · rw [Forest.body, parts] at member
    have owns : part ∈ (before.parts owner).all := by
      rcases List.mem_append.mp member with regular | behind <;> simp [Parts.all, *]
    rw [(suits part (inside part owns)).keyword]
    exact filed.body (head isHead) part member

theorem RoutedFrom.stays (routed : before.RoutedFrom low loose item)
    (same : ∀ id < before.size, low ≤ id → id ∉ loose → Same before after id) :
    after.RoutedFrom low loose item := by
  obtain ⟨tree, isRoot, routed, items⟩ := routed
  exact ⟨tree, isRoot, routed.same fun id member =>
    same id (routed.stores.lt_size id member) (items id member).1 (items id member).2, items⟩

/-- Other items are no items of the tree either if they are older than it, or newer than all. -/
theorem RoutedFrom.loosen {lower : Nat} (routed : forest.RoutedFrom low loose item) (further : lower ≤ low)
    (others : ∀ id ∈ more, id ∈ loose ∨ id < low ∨ forest.size ≤ id) :
    forest.RoutedFrom lower more item := by
  obtain ⟨tree, isRoot, routed, items⟩ := routed
  refine ⟨tree, isRoot, routed, fun id member => ?_⟩
  obtain ⟨above, notLoose⟩ := items id member
  refine ⟨Nat.le_trans further above, fun isMore => ?_⟩
  rcases others id isMore with isLoose | below | beyond
  · exact notLoose isLoose
  · exact absurd above (Nat.not_le_of_lt below)
  · exact absurd (routed.stores.lt_size id member) (Nat.not_lt_of_le beyond)

/-- Such a part stays set aside if it is not changed. -/
theorem SetAside.stays {lower : Nat} (aside : before.SetAside low loose part) (further : lower ≤ low)
    (size : before.size ≤ after.size) (same : after.modifiers part = before.modifiers part)
    (others : ∀ id ∈ more, id ∈ loose ∨ id < low ∨ before.size ≤ id) : after.SetAside lower more part where
  above := Nat.le_trans further aside.above
  inside := Nat.lt_of_lt_of_le aside.inside size
  fixed isMore := by
    rcases others part isMore with isLoose | below | beyond
    · exact aside.fixed isLoose
    · exact absurd aside.above (Nat.not_le_of_lt below)
    · exact absurd aside.inside (Nat.not_lt_of_le beyond)
  bare := same.trans aside.bare

theorem isSegment_of_kind (kind : after.kind? id = before.kind? id) :
    after.IsSegment id item ↔ before.IsSegment id item := by rw [IsSegment, IsSegment, kind]

theorem isJoint_of_kind (kind : after.kind? id = before.kind? id) :
    after.IsJoint id ↔ before.IsJoint id := by rw [IsJoint, IsJoint, kind]

/-- What is not there has nothing to mind. -/
theorem minds_of_size_le (outside : forest.size ≤ id) : forest.Minds low loose id := by
  have none : ∀ kind, forest.kind? id ≠ some kind := fun kind isKind =>
    absurd (lt_size_of_kind isKind) (Nat.not_lt_of_le outside)
  refine ⟨fun _ _ _ _ _ _ isKind => absurd isKind (none _), ?_, fun _ part owns => ?_⟩
  · rintro item ⟨kind, isKind, _⟩
    exact absurd isKind (none kind)
  · exact absurd (owner_lt_size owns) (Nat.not_lt_of_le outside)

/-- An item that keeps its kind, and gets no parts but such that are set aside, minds its modifiers as
long as the trees and the parts that it has are not changed. -/
theorem Minds.stays {lower : Nat} (minds : before.Minds low loose id) (further : lower ≤ low)
    (size : before.size ≤ after.size) (kind : after.kind? id = before.kind? id)
    (parts : ¬ after.IsJoint id → ∀ part ∈ (after.parts id).all,
      part ∈ (before.parts id).all ∨ after.SetAside lower more part)
    (same : ∀ other < before.size, other ∉ more → id < other ∨ low ≤ other → Same before after other)
    (others : ∀ other ∈ more, other ∈ loose ∨ other ≤ id ∧ other < low ∨ before.size ≤ other) :
    after.Minds lower more id where
  words number kind' priority words operand right isKind :=
    Nat.le_trans further (minds.words number kind' priority words operand right (kind.symm.trans isKind))
  segments item isSegment := by
    have routed := minds.segments item ((isSegment_of_kind kind).mp isSegment)
    refine (routed.loosen (Nat.le_refl _) fun other isMore => ?_).stays fun other inside newer notMore =>
      same other inside notMore (Or.inl newer)
    exact (others other isMore).imp_right (Or.imp_left fun older => Nat.lt_succ_of_le older.1)
  parts notJoint part owns := by
    rcases parts notJoint part owns with old | aside
    · refine (minds.parts (fun isJoint => notJoint ((isJoint_of_kind kind).mpr isJoint)) part old).imp
        (isSegment_of_kind kind).mpr fun aside => ?_
      have apart := fun other isMore => (others other isMore).imp_right (Or.imp_left And.right)
      have notMore := (aside.stays (Nat.le_refl _) (Nat.le_refl _) rfl apart).fixed
      exact aside.stays further size (same part aside.inside notMore (Or.inr aside.above)).modifiers apart
    · exact Or.inr aside

/-! The roots of such trees -/

theorem IsOperand.routedFrom (isOperand : forest.IsOperand item) (above : low ≤ item) :
    forest.RoutedFrom low [] item := by
  refine ⟨.operand item, rfl, isOperand.routed, fun id member => ?_⟩
  obtain rfl : id = item := by simpa [ItemTree.items, ItemTree.operators, ItemTree.heads] using member
  exact ⟨above, List.not_mem_nil⟩

/-- Newer items are not touched when something is done to an older one. -/
theorem RoutedFrom.beside (routed : before.RoutedFrom (owner + 1) [] item)
    (guided : Guided [owner] more before after) : after.RoutedFrom (owner + 1) [] item :=
  routed.stays fun id inside newer _ => guided.same id inside fun isOwner =>
    absurd newer (List.mem_singleton.mp isOwner ▸ Nat.not_succ_le_self owner)

theorem RoutedFrom.not_token (routed : forest.RoutedFrom low loose item) : ¬ forest.IsToken item := by
  obtain ⟨tree, rfl, routed, _⟩ := routed
  have never : ∀ {kind words operand right}, forest.Operates tree.root kind words operand right →
      ¬ forest.IsToken tree.root := by
    rintro kind words operand right ⟨⟨_, _, isOperator⟩, -, -⟩ isToken
    cases (isToken_of_kind isOperator).mp isToken
  have stores := routed.stores
  cases tree with
  | operand item => exact stores.not_token
  | before item words inside => exact never stores.1
  | behind item words inside => exact never stores.1
  | between item words left right => exact never stores.1

theorem RoutedFrom.not_keyword (routed : forest.RoutedFrom low loose item) :
    ¬ forest.IsKeywordToken item := fun isKeyword => routed.not_token isKeyword.isToken

theorem not_keyword_of_token {kind : TokenKind} {word : String}
    (isToken : forest.kind? id = some (.token kind word)) (other : ∀ keyword, kind ≠ .keyword keyword) :
    ¬ forest.IsKeywordToken id := by
  rintro ⟨keyword, text, isKeyword⟩
  cases isToken.symm.trans isKeyword
  exact other keyword rfl

/-! One step after the other -/

namespace Guided

theorem refl (neat : forest.Neat) (apart : List ItemId) : Guided apart [] forest forest where
  size := Nat.le_refl _
  neat := neat
  new _ member := nomatch member
  same _ _ _ := ⟨rfl, rfl⟩
  minds _ := minds_of_size_le

theorem fewer (guided : Guided apart loose before after) (subset : more ⊆ loose) :
    Guided apart more before after where
  size := guided.size
  neat := guided.neat
  new id member := guided.new id (subset member)
  same := guided.same
  minds id new := (guided.minds id new).stays (Nat.le_refl _) (Nat.le_refl _) rfl
    (fun _ _ owns => Or.inl owns) (fun _ _ _ _ => ⟨rfl, rfl⟩) fun _ isMore => Or.inl (subset isMore)

theorem widen (guided : Guided [] loose before after) (apart : List ItemId) :
    Guided apart loose before after :=
  ⟨guided.size, guided.neat, guided.new, fun id inside _ => guided.same id inside List.not_mem_nil,
    guided.minds⟩

/-- What is changed by the second step was there before the first one, or it is loose and minds its
modifiers in the end. -/
theorem trans {others : List ItemId} (first : Guided apart loose before mid)
    (second : Guided others more mid after)
    (changed : ∀ id ∈ others, id ∈ apart ∧ id < before.size ∨
      id ∈ loose ∧ after.Minds before.size (loose ++ more) id) :
    Guided apart (loose ++ more) before after where
  size := Nat.le_trans first.size second.size
  neat := second.neat
  new id member := by
    rcases List.mem_append.mp member with isLoose | isMore
    · obtain ⟨new, inside⟩ := first.new id isLoose
      exact ⟨new, Nat.lt_of_lt_of_le inside second.size⟩
    · obtain ⟨new, inside⟩ := second.new id isMore
      exact ⟨Nat.le_trans first.size new, inside⟩
  same id inside notApart := by
    refine (first.same id inside notApart).trans
      (second.same id (Nat.lt_of_lt_of_le inside first.size) fun isOther => ?_)
    rcases changed id isOther with ⟨isApart, _⟩ | ⟨isLoose, _⟩
    · exact notApart isApart
    · exact absurd inside (Nat.not_lt_of_le (first.new id isLoose).1)
  minds id new := by
    by_cases inMid : id < mid.size
    · by_cases isOther : id ∈ others
      · rcases changed id isOther with ⟨_, old⟩ | ⟨_, minds⟩
        · exact absurd old (Nat.not_lt_of_le new)
        · exact minds
      · -- The trees were there after the first step, and the second one did not touch them.
        have here := second.same id inMid isOther
        refine (first.minds id new).stays (Nat.le_refl _) second.size here.kind
          (fun _ _ owns => Or.inl (here.parts ▸ owns)) (fun other inside notLoose newer => ?_)
          fun other isEither => (List.mem_append.mp isEither).imp_right fun isMore =>
            Or.inr (second.new other isMore).1
        refine second.same other inside fun isOther => ?_
        rcases changed other isOther with ⟨_, old⟩ | ⟨isLoose, _⟩
        · have above : before.size ≤ other :=
            newer.elim (fun behind => Nat.le_trans new (Nat.le_of_lt behind)) fun above => above
          exact absurd old (Nat.not_lt_of_le above)
        · exact notLoose (List.mem_append_left _ isLoose)
    · refine (second.minds id (Nat.le_of_not_lt inMid)).stays first.size (Nat.le_refl _) rfl
        (fun _ _ owns => Or.inl owns) (fun _ _ _ _ => ⟨rfl, rfl⟩) fun other isEither => ?_
      rcases List.mem_append.mp isEither with isLoose | isMore
      · have below := (first.new other isLoose).2
        exact Or.inr (Or.inl ⟨Nat.le_of_lt (Nat.lt_of_lt_of_le below (Nat.le_of_not_lt inMid)), below⟩)
      · exact Or.inl isMore

/-- Where the second step changes nothing that was there. -/
theorem next (first : Guided apart loose before mid) (second : Guided [] more mid after) :
    Guided apart (loose ++ more) before after :=
  first.trans second (by simp)

/-- Both steps are about the same items. -/
theorem again (first : Guided apart loose before mid) (second : Guided apart more mid after)
    (old : ∀ id ∈ apart, id < before.size) : Guided apart (loose ++ more) before after :=
  first.trans second fun id isApart => Or.inl ⟨isApart, old id isApart⟩

/-- A loose item is changed. It keeps its kind, and gets no parts but such that are set aside. -/
theorem change (first : Guided apart loose before mid) (second : Guided [item] [] mid after)
    (isLoose : item ∈ loose) (kind : after.kind? item = mid.kind? item)
    (parts : ¬ after.IsJoint item → ∀ part ∈ (after.parts item).all,
      part ∈ (mid.parts item).all ∨ after.SetAside before.size loose part) :
    Guided apart loose before after := by
  have minds : after.Minds before.size loose item := by
    refine (first.minds item (first.new item isLoose).1).stays (Nat.le_refl _) second.size kind parts
      (fun other inside notLoose _ => second.same other inside ?_) fun _ isLoose => Or.inl isLoose
    exact fun isItem => notLoose (List.mem_singleton.mp isItem ▸ isLoose)
  have whole := first.trans second fun id isItem => by
    obtain rfl := List.mem_singleton.mp isItem
    rw [List.append_nil]
    exact Or.inr ⟨isLoose, minds⟩
  exact whole.fewer (List.subset_append_left _ _)

section Facts

variable (guided : Guided apart loose before after)

include guided

theorem operand (isOperand : before.IsOperand id) (notApart : id ∉ apart) : after.IsOperand id :=
  isOperand.of_kind (guided.same id isOperand.lt_size notApart).kind

theorem modifiers (inside : id < before.size) (notApart : id ∉ apart) :
    after.modifiers id = before.modifiers id := (guided.same id inside notApart).modifiers

theorem nameless (isNameless : before.IsNameless id) (notApart : id ∉ apart) : after.IsNameless id := by
  obtain ⟨_, _, _, _, isKind⟩ := isNameless
  exact ⟨_, _, _, _, (guided.same id (lt_size_of_kind isKind) notApart).kind.trans isKind⟩

theorem keyword (isKeyword : before.IsKeywordToken id) (notApart : id ∉ apart) :
    after.IsKeywordToken id := by
  obtain ⟨_, _, isKind⟩ := isKeyword
  exact ⟨_, _, (guided.same id (lt_size_of_kind isKind) notApart).kind.trans isKind⟩

end Facts

end Guided

end Forest

end ExprLang
