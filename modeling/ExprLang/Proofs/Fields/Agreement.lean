import ExprLang.Proofs.Forest.Floor

/-!
What the fields of an item tell of its parts. Braces, code blocks, the root and operators have fields
of their own that name some of their parts, next to the lists of parts that every item has. Fields and
lists are written by different steps, so an item need not agree with itself while it is being made;
what is made around and inside it meanwhile does.
-/

namespace ExprLang

/-! Fields and parts -/

namespace ItemKind

section

variable (tokenKind? : ItemId → Option TokenKind)

/-- What stands between braces: places with at most one item in each, which is no token, and a comma
behind each place but the last one. Without a comma and an item there is no parameter. -/
def Listed (between : List ItemId) (parameters : List (Option ItemId)) : Prop :=
  ∃ (closed : List (Option ItemId × ItemId)) (last : Option ItemId),
    between = closed.flatMap (fun place => place.1.toList ++ [place.2]) ++ last.toList ∧
    (∀ place ∈ closed, tokenKind? place.2 = some .comma) ∧
    (∀ place ∈ closed.map (·.1) ++ [last], ∀ item ∈ place, tokenKind? item = none) ∧
    parameters = if between = [] then [] else closed.map (·.1) ++ [last]

/-- The fields tell what the regular parts and the children are. -/
def Agrees (regular children : List ItemId) : ItemKind → Prop
  | braces kind name opening closing parameters => ∃ between,
      regular = name.toList ++ opening :: (between ++ closing.toList) ∧
      tokenKind? opening = some (.openingBrace kind) ∧
      (∀ token ∈ closing, tokenKind? token = some (.closingBrace kind)) ∧
      Listed tokenKind? between parameters
  | codeBlock start stop statements => ∃ between,
      regular = start :: (between ++ stop.toList) ∧
      tokenKind? start = some .codeBlockStart ∧
      (∀ token ∈ stop, tokenKind? token = some .codeBlockEnd) ∧
      (∀ part ∈ between, tokenKind? part = none ∨ tokenKind? part = some .separator) ∧
      statements = children
  | root statements separators =>
      statements = children ∧ separators = regular.filter (· ∉ children) ∧
      (∀ statement ∈ statements, tokenKind? statement = none) ∧
      ∀ separator ∈ separators, tokenKind? separator = some .separator
  | operator _ .prefixOp _ info operand right => right = none ∧ regular = [info, operand]
  | operator _ .postfixOp _ info operand right => right = none ∧ regular = [operand, info]
  | operator _ .binary _ info operand right => ∃ other,
      right = some other ∧ regular = [operand, info, other]
  | _ => True

end

/-- There is nothing in the fields about parts. -/
def Plain (kind : ItemKind) : Prop :=
  ∀ tokenKind? regular children, kind.Agrees tokenKind? regular children

variable {tokenKind? other : ItemId → Option TokenKind} {between regular children : List ItemId}
  {parameters : List (Option ItemId)} {kind : ItemKind}

theorem Listed.congr (listed : Listed tokenKind? between parameters)
    (same : ∀ id ∈ between, other id = tokenKind? id) : Listed other between parameters := by
  obtain ⟨closed, last, rfl, commas, items, rfl⟩ := listed
  have inClosed : ∀ place ∈ closed, ∀ id ∈ place.1.toList ++ [place.2],
      id ∈ closed.flatMap (fun place => place.1.toList ++ [place.2]) ++ last.toList :=
    fun place member id inPlace =>
      List.mem_append_left _ (List.mem_flatMap.mpr ⟨place, member, inPlace⟩)
  refine ⟨closed, last, rfl, fun place member => ?_, fun place member item inPlace => ?_, rfl⟩
  · exact (same _ (inClosed place member place.2 (by simp))).trans (commas place member)
  · refine (same item ?_).trans (items place member item inPlace)
    rcases List.mem_append.mp member with isClosed | isLast
    · obtain ⟨pair, inPairs, rfl⟩ := List.mem_map.mp isClosed
      exact inClosed pair inPairs item (List.mem_append_left _ (Option.mem_toList.mpr inPlace))
    · obtain rfl := List.mem_singleton.mp isLast
      exact List.mem_append_right _ (Option.mem_toList.mpr inPlace)

/-- Only the kinds of the tokens matter that the parts are. -/
theorem Agrees.congr (agrees : kind.Agrees tokenKind? regular children)
    (sameRegular : ∀ id ∈ regular, other id = tokenKind? id)
    (sameChildren : ∀ id ∈ children, other id = tokenKind? id) :
    kind.Agrees other regular children := by
  cases kind with
  | braces kind name opening closing parameters =>
      obtain ⟨between, rfl, isOpening, isClosing, listed⟩ := agrees
      refine ⟨between, rfl, ?_, fun token member => ?_, listed.congr fun id member => ?_⟩
      · exact (sameRegular opening (by simp)).trans isOpening
      · have isToken := isClosing token member
        exact (sameRegular token (by simp [Option.mem_def.mp member])).trans isToken
      · exact sameRegular id (by simp [member])
  | codeBlock start stop statements =>
      obtain ⟨between, rfl, isStart, isStop, others, rfl⟩ := agrees
      refine ⟨between, rfl, ?_, fun token member => ?_, fun part member => ?_, rfl⟩
      · exact (sameRegular start (by simp)).trans isStart
      · have isToken := isStop token member
        exact (sameRegular token (by simp [Option.mem_def.mp member])).trans isToken
      · rw [sameRegular part (by simp [member])]
        exact others part member
  | root statements separators =>
      obtain ⟨rfl, rfl, isStatement, isSeparator⟩ := agrees
      refine ⟨rfl, rfl, fun statement member => ?_, fun separator member => ?_⟩
      · exact (sameChildren statement member).trans (isStatement statement member)
      · exact (sameRegular separator (List.mem_filter.mp member).1).trans
          (isSeparator separator member)
  | operator id kind priority info operand right => cases kind <;> exact agrees
  | token kind text => trivial
  | literal name => trivial
  | numeric value type kind => trivial
  | constantText raw text quote closed => trivial
  | operatorInfo id kind name => trivial
  | custom category trigger name accepts => trivial
  | series => trivial

end ItemKind

namespace Forest

/-- The fields of the item tell what its parts are. -/
def Agrees (forest : Forest) (id : ItemId) : Prop :=
  ∀ kind, forest.kind? id = some kind →
    kind.Agrees forest.tokenKind? (forest.parts id).regular (forest.parts id).children

/-- An item that is no token. -/
structure IsComplex (forest : Forest) (id : ItemId) : Prop where
  inside : id < forest.size
  noToken : forest.tokenKind? id = none

/-- What the fields are compared with, and the fields themselves, are the same. -/
structure SameFields (before after : Forest) (id : ItemId) : Prop where
  kind : after.kind? id = before.kind? id
  regular : (after.parts id).regular = (before.parts id).regular
  children : (after.parts id).children = (before.parts id).children

/-- All items that have been made since `before` agree with themselves, and those of before, but for
the ones in `apart`, have the fields, the regular parts and the children that they had. -/
structure Filled (apart : List ItemId) (before after : Forest) : Prop where
  closed : after.Closed
  size : before.size ≤ after.size
  old : ∀ id ∈ apart, id < before.size
  kept : ∀ id < before.size, id ∉ apart → SameFields before after id
  tokens : ∀ id < before.size, after.tokenKind? id = before.tokenKind? id
  agree : ∀ id, before.size ≤ id → id < after.size → after.Agrees id

variable {forest before after last : Forest} {apart : List ItemId} {id owner item : Nat}
  {place : Section} {isChild : Bool}

theorem SameFields.trans (first : SameFields before after id) (second : SameFields after last id) :
    SameFields before last id :=
  ⟨second.kind.trans first.kind, second.regular.trans first.regular,
    second.children.trans first.children⟩

theorem sameFields_of_parts (parts : after.parts id = before.parts id)
    (kind : after.kind? id = before.kind? id) : SameFields before after id :=
  ⟨kind, congrArg Parts.regular parts, congrArg Parts.children parts⟩

/-- The parts of an item stay the tokens that they are, whatever else happens. -/
theorem agrees_of_tokens {kind : ItemKind} (closed : before.Closed)
    (tokens : ∀ id < before.size, after.tokenKind? id = before.tokenKind? id)
    (agrees : kind.Agrees before.tokenKind? (before.parts id).regular (before.parts id).children) :
    kind.Agrees after.tokenKind? (before.parts id).regular (before.parts id).children := by
  have inside : ∀ part ∈ (before.parts id).regular ++ (before.parts id).children,
      part < before.size := fun part member => closed.parts id part (by
    simp only [Parts.named, Parts.all, List.mem_append] at member ⊢
    exact member.imp_left fun regular => Or.inl (Or.inr regular))
  refine agrees.congr (fun part member => ?_) fun part member => ?_
  · exact tokens part (inside part (List.mem_append_left _ member))
  · exact tokens part (inside part (List.mem_append_right _ member))

theorem Agrees.stays (agrees : before.Agrees id) (closed : before.Closed)
    (same : SameFields before after id)
    (tokens : ∀ id < before.size, after.tokenKind? id = before.tokenKind? id) : after.Agrees id := by
  intro kind isKind
  rw [same.regular, same.children]
  exact agrees_of_tokens closed tokens (agrees kind (same.kind.symm.trans isKind))

theorem IsComplex.stays (complex : before.IsComplex id) (filled : Filled apart before after) :
    after.IsComplex id :=
  ⟨Nat.lt_of_lt_of_le complex.inside filled.size,
    (filled.tokens id complex.inside).trans complex.noToken⟩

theorem filled_refl (closed : forest.Closed) (old : ∀ id ∈ apart, id < forest.size) :
    Filled apart forest forest where
  closed := closed
  size := Nat.le_refl _
  old := old
  kept _ _ _ := ⟨rfl, rfl, rfl⟩
  tokens _ _ := rfl
  agree _ new inside := absurd inside (Nat.not_lt_of_le new)

theorem Filled.trans (first : Filled apart before after) (second : Filled apart after last) :
    Filled apart before last where
  closed := second.closed
  size := Nat.le_trans first.size second.size
  old := first.old
  kept id inside notApart :=
    (first.kept id inside notApart).trans
      (second.kept id (Nat.lt_of_lt_of_le inside first.size) notApart)
  tokens id inside :=
    (second.tokens id (Nat.lt_of_lt_of_le inside first.size)).trans (first.tokens id inside)
  agree id new inside := by
    by_cases already : id < after.size
    · have notApart : id ∉ apart := fun member =>
        absurd (first.old id member) (Nat.not_lt_of_le new)
      exact (first.agree id new already).stays first.closed (second.kept id already notApart)
        second.tokens
    · exact second.agree id (Nat.le_of_not_lt already) inside

/-- More items may be set apart. -/
theorem Filled.widen (filled : Filled [] before after) (old : ∀ id ∈ apart, id < before.size) :
    Filled apart before after where
  closed := filled.closed
  size := filled.size
  old := old
  kept id inside _ := filled.kept id inside List.not_mem_nil
  tokens := filled.tokens
  agree := filled.agree

/-! Changes -/

theorem tokenKind_of_kind {id other : Nat} (same : after.kind? id = before.kind? other) :
    after.tokenKind? id = before.tokenKind? other := by
  have read : ∀ (forest : Forest) (id : Nat), forest.tokenKind? id =
      (forest.kind? id).bind fun kind => Item.tokenKind? { start := 0, length := 0, kind } := by
    intro forest id
    rw [tokenKind?, kind?, Option.bind_map]
    rfl
  rw [read, read, same]

theorem tokenKind_of_complex {kind : ItemKind} (isKind : forest.kind? id = some kind)
    (complex : kind.isToken = false) : forest.tokenKind? id = none := by
  obtain ⟨item, found, rfl⟩ := Option.map_eq_some_iff.mp isKind
  simp only [tokenKind?, found, Option.bind_some, Item.tokenKind?]
  cases isKind : item.kind with
  | token kind text => rw [isKind] at complex; cases complex
  | _ => rfl

theorem tokenKind_createToken {kind : TokenKind} {word : String} {start : Nat} :
    (forest.createToken kind word start).2.tokenKind? forest.size = some kind := by
  rw [tokenKind?, createToken, get_push_new]
  rfl

theorem kind_push_new {new : Item} : (forest.push new).2.kind? forest.size = some new.kind := by
  rw [kind?, get_push_new, Option.map_some]

theorem sameFields_push {new : Item} (bare : new.parts = {}) (inside : id < forest.size) :
    SameFields forest (forest.push new).2 id :=
  sameFields_of_parts (parts_push_old bare) (kind_push_old inside)

theorem tokens_push {new : Item} (inside : id < forest.size) :
    (forest.push new).2.tokenKind? id = forest.tokenKind? id :=
  tokenKind_of_kind (kind_push_old inside)

/-- A new item agrees with itself if it can do without parts. -/
theorem filled_push {new : Item} (closed : forest.Closed) (bare : new.parts = {})
    (free : new.parent = none) (plain : new.kind.Plain) : Filled [] forest (forest.push new).2 where
  closed := closed_push bare free closed
  size := by rw [size_push]; exact Nat.le_succ _
  old := by simp
  kept id inside _ := sameFields_push bare inside
  tokens id inside := tokens_push inside
  agree id from_ inside := by
    have isNew : id = forest.size := by rw [size_push] at inside; omega
    subst isNew
    intro kind isKind
    obtain rfl : new.kind = kind := Option.some.inj (kind_push_new.symm.trans isKind)
    exact plain _ _ _

/-- What has been made in the meantime agrees with itself, and so does an item that was made first, as
soon as its fields tell what its parts are. -/
theorem Filled.of_made {new : Item} (bare : new.parts = {})
    (filled : Filled [before.size] (before.push new).2 after) (agrees : after.Agrees before.size) :
    Filled [] before after where
  closed := filled.closed
  size := by have := filled.size; rw [size_push] at this; omega
  old := by simp
  kept id inside _ := by
    refine (sameFields_push bare inside).trans (filled.kept id ?_ ?_)
    · rw [size_push]; omega
    · rw [List.mem_singleton]; omega
  tokens id inside := by
    rw [filled.tokens id (by rw [size_push]; omega), tokens_push inside]
  agree id new inside := by
    by_cases isNew : id = before.size
    · exact isNew ▸ agrees
    · exact filled.agree id (by rw [size_push]; omega) inside

theorem tokens_link : (forest.link owner item place isChild).tokenKind? id = forest.tokenKind? id :=
  tokenKind_of_kind kind_link

theorem filled_link (closed : forest.Closed) (ownerInside : owner < forest.size)
    (itemInside : item < forest.size) :
    Filled [owner] forest (forest.link owner item place isChild) where
  closed := closed_link ownerInside itemInside closed
  size := Nat.le_of_eq size_link.symm
  old := by simpa using ownerInside
  kept id _ notOwner :=
    sameFields_of_parts (parts_link_other (by simpa using notOwner)) kind_link
  tokens _ _ := tokens_link
  agree id new inside := absurd (size_link ▸ inside) (Nat.not_lt_of_le new)

/-- Parts in the other sections are no matter of the fields. -/
theorem filled_link_aside (closed : forest.Closed) (ownerInside : owner < forest.size)
    (itemInside : item < forest.size) (aside : place ≠ .regular) :
    Filled [] forest (forest.link owner item place false) where
  closed := closed_link ownerInside itemInside closed
  size := Nat.le_of_eq size_link.symm
  old := by simp
  kept id _ _ := by
    by_cases isOwner : id = owner
    · subst isOwner
      refine ⟨kind_link, ?_, ?_⟩ <;> rw [parts_link_owner ownerInside]
      · cases place <;> first | rfl | exact absurd rfl aside
      · simp
    · exact sameFields_of_parts (parts_link_other isOwner) kind_link
  tokens _ _ := tokens_link
  agree id new inside := absurd (size_link ▸ inside) (Nat.not_lt_of_le new)

theorem kind_changeKind {other : Nat} {change : ItemKind → ItemKind} :
    (forest.modify id fun item => { item with kind := change item.kind }).kind? other =
      if id = other then (forest.kind? other).map change else forest.kind? other := by
  simp only [kind?, get_modify]
  split <;> simp [Function.comp_def]

theorem tokens_changeKind {other : Nat} {change : ItemKind → ItemKind} {kind : ItemKind}
    (isKind : forest.kind? id = some kind) (complex : kind.isToken = false)
    (stays : (change kind).isToken = false) :
    (forest.modify id fun item => { item with kind := change item.kind }).tokenKind? other =
      forest.tokenKind? other := by
  by_cases changed : id = other
  · subst changed
    rw [tokenKind_of_complex isKind complex]
    exact tokenKind_of_complex (by rw [kind_changeKind, if_pos rfl, isKind, Option.map_some]) stays
  · exact tokenKind_of_kind (by rw [kind_changeKind, if_neg changed])

theorem filled_changeKind {change : ItemKind → ItemKind} {kind : ItemKind} (closed : forest.Closed)
    (isKind : forest.kind? id = some kind) (complex : kind.isToken = false)
    (stays : (change kind).isToken = false) :
    Filled [id] forest (forest.modify id fun item => { item with kind := change item.kind }) where
  closed := closed_changeKind closed
  size := Nat.le_of_eq (size_modify _).symm
  old := by simpa using lt_size_of_kind isKind
  kept other _ notChanged := by
    refine sameFields_of_parts parts_changeKind ?_
    rw [kind_changeKind, if_neg (by simpa [eq_comm] using notChanged)]
  tokens _ _ := tokens_changeKind isKind complex stays
  agree other new inside := absurd (by simpa using inside) (Nat.not_lt_of_le new)

end Forest

end ExprLang
