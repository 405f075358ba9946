import ExprLang.Proofs.Forest.Row

/-!
Sound forests, and how new items and new links keep them sound. Only a custom expression may own a
part that covers nothing, since only an extension makes one.
-/

namespace ExprLang

open Held (item hollow word ids)

/-- What the parser itself makes of several items. -/
def ItemKind.isPlain : ItemKind → Bool
  | token .. | custom .. => false
  | _ => true

namespace Forest

def IsCustom (forest : Forest) (id : Nat) : Prop :=
  ∃ category trigger name accepts,
    forest.kind? id = some (.custom category trigger name accepts)

/-- Links and spans are in order. Only the parts of a custom expression may be empty. -/
structure Sound (forest : Forest) : Prop where
  linked : forest.Linked
  laid : forest.Laid
  ordered : forest.ordered = true
  firm : ∀ owner part, forest.Owns owner part →
    forest.start part < forest.stop part ∨ forest.IsCustom owner

/-- Something that holds of each token, of its kind, its text, its start and its length. -/
def Tokens (forest : Forest) (holds : TokenKind → String → Nat → Nat → Prop) : Prop :=
  ∀ id item kind word, forest.get? id = some item → item.kind = .token kind word →
    holds kind word item.start item.length

/-- Every token is what stands at its span. -/
def Exact (forest : Forest) (text : Text) : Prop :=
  forest.Tokens fun _ word start length =>
    0 < word.length ∧ length = word.length ∧ word = text.slice start (start + word.length)

end Forest

/-- The span of a token. -/
def Item.tokenSpan? (item : Item) : Option (Nat × Nat) :=
  if item.isToken then some (item.start, item.start + item.length) else none

/-- The spans of the tokens, in the order in which they were made. -/
def Forest.tokenSpans (forest : Forest) : List (Nat × Nat) :=
  forest.items.toList.filterMap Item.tokenSpan?

namespace Forest

variable {forest : Forest}

/-! New items -/

theorem sound_push {new : Item} (sound : forest.Sound) (bare : new.parts = {})
    (free : new.parent = none) : (forest.push new).2.Sound where
  linked := linked_push bare free sound.linked
  laid := laid_push sound.linked bare free sound.laid
  ordered := sound.ordered
  firm owner part owns := by
    rw [Owns, parts_push_old bare] at owns
    have inside := sound.linked.part_lt_size owns
    have ownerInside : owner < forest.size := owner_lt_size owns
    rw [(spans_push_old sound.linked bare free inside).1,
      (spans_push_old sound.linked bare free inside).2]
    rcases sound.firm owner part owns with firm | ⟨category, trigger, name, accepts, custom⟩
    · exact Or.inl firm
    · exact Or.inr ⟨category, trigger, name, accepts, by rw [kind_push_old ownerInside, custom]⟩

theorem stands_push {new : Item} (linked : forest.Linked) (bare : new.parts = {})
    (free : new.parent = none) {held : Held} (inside : ∀ id, held.id? = some id → id < forest.size) :
    held.start (forest.push new).2 = held.start forest ∧
      held.stop (forest.push new).2 = held.stop forest ∧
      (held.Stands forest → held.Stands (forest.push new).2) := by
  cases held with
  | item id =>
      obtain ⟨starts, stops⟩ := spans_push_old linked bare free (inside id rfl)
      refine ⟨starts, stops, ?_⟩
      simp only [Held.Stands, starts, stops]
      exact fun stands => stands
  | hollow id =>
      obtain ⟨starts, stops⟩ := spans_push_old linked bare free (inside id rfl)
      refine ⟨starts, starts, ?_⟩
      simp only [Held.Stands, starts, stops, parts_push_old bare, get_push_old new (inside id rfl)]
      exact fun stands => stands
  | word start text => exact ⟨rfl, rfl, id⟩

theorem row_push {new : Item} (linked : forest.Linked) (bare : new.parts = {})
    (free : new.parent = none) {row : List Held} {a b : Nat} (placed : forest.Row a row b)
    (inside : ∀ id ∈ ids row, id < forest.size) : (forest.push new).2.Row a row b := by
  refine placed.congr fun held member => stands_push linked bare free ?_
  exact fun id isId => inside id (List.mem_filterMap.mpr ⟨held, member, isId⟩)

theorem tokenSpans_push (new : Item) :
    (forest.push new).2.tokenSpans = forest.tokenSpans ++ new.tokenSpan?.toList := by
  simp only [tokenSpans, push, Array.toList_push, List.filterMap_append]
  cases spans : new.tokenSpan? <;> simp [spans]

theorem Tokens.push {new : Item} {holds : TokenKind → String → Nat → Nat → Prop}
    (before : forest.Tokens holds)
    (token : ∀ kind word, new.kind = .token kind word → holds kind word new.start new.length) :
    (forest.push new).2.Tokens holds := by
  intro id found kind word foundHere isToken
  by_cases isNew : id = forest.size
  · rw [isNew, get_push_new] at foundHere
    cases foundHere
    exact token kind word isToken
  · rw [get_push, if_neg isNew] at foundHere
    exact before id found kind word foundHere isToken

theorem Tokens.push_complex {new : Item} {holds : TokenKind → String → Nat → Nat → Prop}
    (before : forest.Tokens holds) (complex : new.kind.isToken = false) :
    (forest.push new).2.Tokens holds := by
  refine before.push fun kind word isToken => ?_
  rw [isToken] at complex
  cases complex

theorem plain_push {new : Item} (plain : ∀ id, ¬ forest.IsCustom id)
    (other : ∀ category trigger name accepts, new.kind ≠ .custom category trigger name accepts)
    (id : Nat) : ¬ (forest.push new).2.IsCustom id := by
  rintro ⟨category, trigger, name, accepts, custom⟩
  by_cases isNew : id = forest.size
  · rw [isNew, kind?, get_push_new] at custom
    exact other category trigger name accepts (Option.some.inj custom)
  · rw [kind?, get_push, if_neg isNew] at custom
    exact plain id ⟨category, trigger, name, accepts, custom⟩

/-- An item without parts covers nothing. -/
theorem create_complex {kind : ItemKind} (complex : kind.isToken = false) (start : Nat) :
    forest.create kind start = forest.push { start, length := 0, kind } := by
  cases kind <;> first | rfl | cases complex

theorem tokenSpans_create {kind : ItemKind} (complex : kind.isToken = false) (start : Nat) :
    (forest.create kind start).2.tokenSpans = forest.tokenSpans := by
  rw [create_complex complex, tokenSpans_push]
  simp [Item.tokenSpan?, Item.isToken, complex]

theorem stands_create {kind : ItemKind} (linked : forest.Linked) (complex : kind.isToken = false)
    (start : Nat) : (forest.create kind start).2.start forest.size = start ∧
      (hollow forest.size).Stands (forest.create kind start).2 := by
  rw [create_complex complex]
  have starts : (forest.push { start, length := 0, kind }).2.start forest.size = start :=
    start_push_new linked rfl rfl
  have stops : (forest.push { start, length := 0, kind }).2.stop forest.size = start :=
    stop_push_new linked rfl rfl
  exact ⟨starts, parts_push_new, stops.trans starts.symm, _, get_push_new _, complex⟩

section Token

variable (kind : TokenKind) (text : String) (start : Nat)

theorem span_createToken (linked : forest.Linked) :
    (forest.createToken kind text start).2.start forest.size = start ∧
      (forest.createToken kind text start).2.stop forest.size = start + text.length :=
  ⟨start_push_new linked rfl rfl, stop_push_new linked rfl rfl⟩

variable {text start} in
theorem row_createToken (linked : forest.Linked) {a : Nat} (behind : a ≤ start)
    (filled : 0 < text.length) :
    (forest.createToken kind text start).2.Row a [item forest.size] (start + text.length) := by
  obtain ⟨starts, stops⟩ := span_createToken kind text start linked
  refine ⟨?_, ?_, ?_⟩
  · exact Nat.le_trans behind (Nat.le_of_eq starts.symm)
  · simp only [Held.Stands, starts, stops]
    omega
  · exact Nat.le_of_eq stops

end Token

/-! New links -/

theorem tokenSpans_congr {other : Forest} (size : other.size = forest.size)
    (same : ∀ id < forest.size,
      (other.get? id).bind Item.tokenSpan? = (forest.get? id).bind Item.tokenSpan?) :
    other.tokenSpans = forest.tokenSpans := by
  have spans : ∀ given : Forest, given.tokenSpans =
      (given.items.toList.map Item.tokenSpan?).filterMap id := by
    intro given
    rw [tokenSpans, List.filterMap_map]
    rfl
  rw [spans, spans]
  congr 1
  refine List.ext_getElem? fun id => ?_
  simp only [List.getElem?_map, Array.getElem?_toList]
  by_cases inside : id < forest.size
  · have here := same id inside
    obtain ⟨a, foundA⟩ := get_of_lt inside
    obtain ⟨b, foundB⟩ := get_of_lt (size.symm ▸ inside)
    rw [foundA, foundB] at here
    simp only [get?] at foundA foundB
    rw [foundA, foundB]
    exact congrArg some here
  · have outside := Nat.le_of_not_lt inside
    rw [Array.getElem?_eq_none outside, Array.getElem?_eq_none (size.le.trans outside)]

section Link

variable {owner item : Nat} {place : Section} {isChild : Bool}

/-- A link changes no kind and no span of its own. -/
theorem get_link (different : owner ≠ item) {id : Nat} {found : Item}
    (after : (forest.link owner item place isChild).get? id = some found) :
    ∃ old, forest.get? id = some old ∧ old.kind = found.kind ∧ old.start = found.start ∧
      old.length = found.length := by
  by_cases isOwner : id = owner
  · subst isOwner
    rw [get_link_owner different] at after
    obtain ⟨old, foundOld, rfl⟩ := Option.map_eq_some_iff.mp after
    exact ⟨old, foundOld, rfl, rfl, rfl⟩
  · by_cases isItem : id = item
    · subst isItem
      rw [get_link_item different] at after
      obtain ⟨old, foundOld, rfl⟩ := Option.map_eq_some_iff.mp after
      exact ⟨old, foundOld, rfl, rfl, rfl⟩
    · rw [get_link_other isItem isOwner] at after
      exact ⟨found, after, rfl, rfl, rfl⟩

theorem tokenSpans_link (different : owner ≠ item) :
    (forest.link owner item place isChild).tokenSpans = forest.tokenSpans := by
  refine tokenSpans_congr size_link fun id inside => ?_
  obtain ⟨found, after⟩ := get_of_lt
    (show id < (forest.link owner item place isChild).size by rwa [size_link])
  obtain ⟨old, before, kind, start, length⟩ := get_link different after
  have isToken : found.isToken = old.isToken := congrArg ItemKind.isToken kind.symm
  simp only [before, after, Option.bind_some, Item.tokenSpan?, isToken, start, length]

theorem Tokens.link {holds : TokenKind → String → Nat → Nat → Prop} (different : owner ≠ item)
    (before : forest.Tokens holds) : (forest.link owner item place isChild).Tokens holds := by
  intro id found kind word after isToken
  obtain ⟨old, foundOld, sameKind, start, length⟩ := get_link different after
  rw [← start, ← length]
  exact before id old kind word foundOld (sameKind.trans isToken)

theorem isCustom_link {id : Nat} :
    (forest.link owner item place isChild).IsCustom id ↔ forest.IsCustom id := by
  simp only [IsCustom, kind_link]

theorem sound_link (sound : forest.Sound) (attachable : forest.Attachable owner item)
    (regular : isChild = true → place = .regular) (fits : forest.Fits owner item place)
    (firm : forest.start item < forest.stop item ∨ forest.IsCustom owner) :
    (forest.link owner item place isChild).Sound where
  linked := attachable.linked sound.linked regular
  laid := laid_link sound.linked attachable regular sound.laid fits
  ordered := sound.ordered
  firm other part owns := by
    obtain ⟨owning, found, _⟩ := attachable.complex
    rw [isCustom_link]
    rcases (owns_link (get_lt_size found)).mp owns with old | ⟨rfl, rfl⟩
    · have notOwner : part ≠ owner := by
        rintro rfl
        exact sound.linked.not_owned attachable.freeOwner old
      rw [(spans_link_other sound.linked attachable regular notOwner).1,
        (spans_link_other sound.linked attachable regular notOwner).2]
      exact sound.firm other part old
    · have notOwner := Ne.symm attachable.different
      rw [(spans_link_other sound.linked attachable regular notOwner).1,
        (spans_link_other sound.linked attachable regular notOwner).2]
      exact firm

theorem row_link (linked : forest.Linked) (attachable : forest.Attachable owner item)
    (regular : isChild = true → place = .regular) {row : List Held} {a b : Nat}
    (placed : forest.Row a row b) (elsewhere : ∀ id ∈ ids row, id ≠ owner ∧ id ≠ item) :
    (forest.link owner item place isChild).Row a row b := by
  refine placed.congr fun held member => ?_
  have other : ∀ id, held.id? = some id → id ≠ owner ∧ id ≠ item := fun id isId =>
    elsewhere id (List.mem_filterMap.mpr ⟨held, member, isId⟩)
  cases held with
  | item id =>
      obtain ⟨starts, stops⟩ := spans_link_other linked attachable regular (other id rfl).1
      refine ⟨starts, stops, ?_⟩
      simp only [Held.Stands, starts, stops]
      exact fun stands => stands
  | hollow id =>
      obtain ⟨starts, stops⟩ := spans_link_other linked attachable regular (other id rfl).1
      refine ⟨starts, starts, ?_⟩
      simp only [Held.Stands, starts, stops, parts_link_other (other id rfl).1,
        get_link_other (other id rfl).2 (other id rfl).1]
      exact fun stands => stands
  | word start text => exact ⟨rfl, rfl, id⟩

end Link

/-! Owners that are being built -/

/-- An item that is no token and no custom expression, with nothing behind a section. -/
structure Open (forest : Forest) (place : Section) (id : Nat) : Prop where
  plain : ∃ found, forest.get? id = some found ∧ found.kind.isPlain = true
  last : (forest.parts id).beyond place = []

theorem Open.complex {place : Section} {id : Nat} (isOpen : forest.Open place id) :
    ∃ found, forest.get? id = some found ∧ found.isToken = false := by
  obtain ⟨found, here, plain⟩ := isOpen.plain
  refine ⟨found, here, ?_⟩
  unfold Item.isToken
  cases kind : found.kind <;> rw [kind] at plain <;> first | rfl | cases plain

theorem Open.not_custom {place : Section} {id : Nat} (isOpen : forest.Open place id) :
    ¬ forest.IsCustom id := by
  rintro ⟨category, trigger, name, accepts, custom⟩
  obtain ⟨found, here, plain⟩ := isOpen.plain
  rw [kind_of_get here] at custom
  rw [Option.some.inj custom] at plain
  cases plain

/-- An item with regular parts only. -/
structure Bare (forest : Forest) (id : Nat) : Prop extends forest.Open .regular id where
  noPrefixes : (forest.parts id).prefixes = []
  noKeywords : (forest.parts id).keywords = []

/-- An item is as it was in another forest that has the same item there. -/
theorem Bare.of_get {other : Forest} {id : Nat} (bare : forest.Bare id)
    (same : other.get? id = forest.get? id) : other.Bare id := by
  have parts : other.parts id = forest.parts id := by
    simp only [Forest.parts, same]
  refine ⟨⟨?_, ?_⟩, ?_, ?_⟩
  · rw [same]
    exact bare.plain
  · rw [parts]
    exact bare.last
  · rw [parts]
    exact bare.noPrefixes
  · rw [parts]
    exact bare.noKeywords

section Link

variable {owner item : Nat} {place : Section} {isChild : Bool}

theorem upTo_link (inside : owner < forest.size) :
    ((forest.link owner item place isChild).parts owner).upTo place =
      (forest.parts owner).upTo place ++ [item] := by
  rw [parts_link_owner inside]
  cases isChild <;> cases place <;> simp [Parts.upTo, Parts.push, Parts.pushChild, Parts.all]

theorem beyond_link (inside : owner < forest.size) :
    ((forest.link owner item place isChild).parts owner).beyond place =
      (forest.parts owner).beyond place := by
  rw [parts_link_owner inside]
  cases isChild <;> cases place <;> rfl

theorem get_link_of_ne (item : Nat) (isChild : Bool) (inside : owner < forest.size) {other : Section} (different : other ≠ place) :
    ((forest.link owner item place isChild).parts owner).get other =
      (forest.parts owner).get other := by
  rw [parts_link_owner inside]
  cases isChild with
  | false => exact Parts.get_push_other _ _ different
  | true => exact Parts.get_push_other (forest.parts owner) item different

theorem Open.link (isOpen : forest.Open place owner) (different : owner ≠ item) :
    (forest.link owner item place isChild).Open place owner where
  plain := by
    obtain ⟨found, here, plain⟩ := isOpen.plain
    rw [get_link_owner different, here]
    exact ⟨_, rfl, plain⟩
  last := by
    obtain ⟨found, here, _⟩ := isOpen.plain
    exact (beyond_link (get_lt_size here)).trans isOpen.last

theorem Bare.link (bare : forest.Bare owner) (item : Nat) (isChild : Bool) (different : owner ≠ item) :
    (forest.link owner item .regular isChild).Bare owner where
  toOpen := bare.toOpen.link different
  noPrefixes := by
    obtain ⟨found, here, _⟩ := bare.plain
    have same := get_link_of_ne item isChild (get_lt_size here)
      (show Section.prefixes ≠ .regular by nofun)
    exact same.trans bare.noPrefixes
  noKeywords := by
    obtain ⟨found, here, _⟩ := bare.plain
    have same := get_link_of_ne item isChild (get_lt_size here)
      (show Section.keywords ≠ .regular by nofun)
    exact same.trans bare.noKeywords

end Link

theorem parts_of_create {kind : ItemKind} (complex : kind.isToken = false) (start : Nat) :
    (forest.create kind start).2.parts forest.size = {} := by
  rw [create_complex complex]
  exact parts_push_new

theorem open_of_create (forest : Forest) {kind : ItemKind} (plain : kind.isPlain = true) (start : Nat)
    (place : Section) : (forest.create kind start).2.Open place forest.size := by
  have complex : kind.isToken = false := by
    cases kind <;> first | rfl | cases plain
  refine ⟨?_, ?_⟩
  · rw [create_complex complex]
    exact ⟨_, get_push_new _, plain⟩
  · rw [parts_of_create complex]
    cases place <;> rfl

theorem bare_of_create (forest : Forest) {kind : ItemKind} (plain : kind.isPlain = true)
    (start : Nat) :
    (forest.create kind start).2.Bare forest.size := by
  have complex : kind.isToken = false := by
    cases kind <;> first | rfl | cases plain
  have parts := forest.parts_of_create complex start
  exact ⟨forest.open_of_create plain start .regular, by rw [parts], by rw [parts]⟩

/-! New kinds -/

section ChangeKind

variable {id : Nat} {change : ItemKind → ItemKind}

/-- The kind of one item is changed to another one of the parser's own kinds. -/
def Recast (forest : Forest) (id : Nat) (change : ItemKind → ItemKind) : Prop :=
  ∀ found, forest.get? id = some found → found.kind.isPlain = true ∧ (change found.kind).isPlain = true

theorem isToken_of_isPlain {kind : ItemKind} (plain : kind.isPlain = true) : kind.isToken = false := by
  cases kind <;> first | rfl | cases plain

theorem Recast.tokens (recast : forest.Recast id change) (found : Item)
    (here : forest.get? id = some found) : (change found.kind).isToken = found.kind.isToken := by
  obtain ⟨before, after⟩ := recast found here
  rw [isToken_of_isPlain before, isToken_of_isPlain after]

theorem get_changeKind {other : Nat} {found : Item}
    (after : (forest.modify id fun item => { item with kind := change item.kind }).get? other =
      some found) :
    ∃ old, forest.get? other = some old ∧ old.start = found.start ∧ old.length = found.length ∧
      (old.kind = found.kind ∨ (other = id ∧ found.kind = change old.kind)) := by
  rw [get_modify] at after
  split at after
  · rename_i here
    obtain ⟨old, foundOld, rfl⟩ := Option.map_eq_some_iff.mp after
    exact ⟨old, foundOld, rfl, rfl, Or.inr ⟨here.symm, rfl⟩⟩
  · exact ⟨found, after, rfl, rfl, Or.inl rfl⟩

theorem Recast.isCustom (recast : forest.Recast id change) {other : Nat} :
    (forest.modify id fun item => { item with kind := change item.kind }).IsCustom other ↔
      forest.IsCustom other := by
  simp only [IsCustom, kind?, get_modify]
  by_cases here : id = other
  · subst here
    cases found : forest.get? id with
    | none => simp
    | some old =>
        obtain ⟨before, after⟩ := recast old found
        constructor
        · rintro ⟨category, trigger, name, accepts, custom⟩
          simp only [if_true, Option.map_some, Option.some.injEq] at custom
          rw [custom] at after
          cases after
        · rintro ⟨category, trigger, name, accepts, custom⟩
          simp only [Option.map_some, Option.some.injEq] at custom
          rw [custom] at before
          cases before
  · simp [here]

theorem Recast.sound (recast : forest.Recast id change) (sound : forest.Sound) :
    (forest.modify id fun item => { item with kind := change item.kind }).Sound where
  linked := linked_changeKind recast.tokens sound.linked
  laid := laid_changeKind sound.linked recast.tokens sound.laid
  ordered := sound.ordered
  firm owner part owns := by
    rw [Owns, parts_changeKind] at owns
    rw [recast.isCustom, (spans_changeKind sound.linked recast.tokens part).1,
      (spans_changeKind sound.linked recast.tokens part).2]
    exact sound.firm owner part owns

theorem Tokens.recast {holds : TokenKind → String → Nat → Nat → Prop}
    (recast : forest.Recast id change) (before : forest.Tokens holds) :
    (forest.modify id fun item => { item with kind := change item.kind }).Tokens holds := by
  intro other found kind word after isToken
  obtain ⟨old, foundOld, start, length, same | ⟨here, changed⟩⟩ := get_changeKind after
  · rw [← start, ← length]
    exact before other old kind word foundOld (same.trans isToken)
  · have plain := (recast old (here ▸ foundOld)).2
    rw [← changed, isToken] at plain
    cases plain

theorem Recast.tokenSpans (recast : forest.Recast id change) :
    (forest.modify id fun item => { item with kind := change item.kind }).tokenSpans =
      forest.tokenSpans := by
  refine tokenSpans_congr (size_modify _) fun other inside => ?_
  obtain ⟨found, after⟩ := get_of_lt (show other <
    (forest.modify id fun item => { item with kind := change item.kind }).size by rwa [size_modify])
  obtain ⟨old, before, start, length, kinds⟩ := get_changeKind after
  have isToken : found.isToken = old.isToken := by
    rcases kinds with same | ⟨here, changed⟩
    · exact congrArg ItemKind.isToken same.symm
    · rw [Item.isToken, changed]
      exact recast.tokens old (here ▸ before)
  simp only [before, after, Option.bind_some, Item.tokenSpan?, isToken, start, length]

theorem Recast.row (recast : forest.Recast id change) (sound : forest.Sound) {row : List Held}
    {a b : Nat} (placed : forest.Row a row b) :
    (forest.modify id fun item => { item with kind := change item.kind }).Row a row b := by
  refine placed.congr fun held _ => ?_
  cases held with
  | item other =>
      obtain ⟨starts, stops⟩ := spans_changeKind sound.linked recast.tokens other
      refine ⟨starts, stops, ?_⟩
      simp only [Held.Stands, starts, stops]
      exact fun stands => stands
  | hollow other =>
      obtain ⟨starts, stops⟩ := spans_changeKind sound.linked recast.tokens other
      refine ⟨starts, starts, ?_⟩
      rintro ⟨none, covers, found, here, complex⟩
      refine ⟨parts_changeKind.trans none, stops.trans (covers.trans starts.symm), ?_⟩
      rw [get_modify, here]
      split
      · rename_i same
        exact ⟨_, rfl, (recast.tokens found (same ▸ here)).trans complex⟩
      · exact ⟨found, rfl, complex⟩
  | word start text => exact ⟨rfl, rfl, fun filled => filled⟩

theorem Recast.open {place : Section} {other : Nat} (recast : forest.Recast id change)
    (isOpen : forest.Open place other) :
    (forest.modify id fun item => { item with kind := change item.kind }).Open place other where
  plain := by
    obtain ⟨found, here, plain⟩ := isOpen.plain
    rw [get_modify, here]
    split
    · rename_i same
      exact ⟨_, rfl, (recast found (same ▸ here)).2⟩
    · exact ⟨found, rfl, plain⟩
  last := by
    rw [parts_changeKind]
    exact isOpen.last

theorem Recast.bare {other : Nat} (recast : forest.Recast id change) (isBare : forest.Bare other) :
    (forest.modify id fun item => { item with kind := change item.kind }).Bare other where
  toOpen := recast.open isBare.toOpen
  noPrefixes := by
    rw [parts_changeKind]
    exact isBare.noPrefixes
  noKeywords := by
    rw [parts_changeKind]
    exact isBare.noKeywords

end ChangeKind

end Forest

end ExprLang
