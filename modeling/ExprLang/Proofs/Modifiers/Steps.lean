import ExprLang.Proofs.Fields.Agreement
import ExprLang.Proofs.Modifiers.Guided
import ExprLang.Proofs.Parse.Ends

/-!
The single changes of a forest leave routed trees behind. An item is begun without parts, takes parts
that have been made meanwhile, and is an operand to which modifiers can be given in the end.
-/

namespace ExprLang

namespace Forest

variable {before mid after forest : Forest} {id owner part item : Nat}
  {apart loose more : List ItemId} {place : Section} {isChild : Bool}

/-! Single changes -/

theorem Neat.push {new : Item} (neat : forest.Neat) (bare : new.parts = {}) (free : new.parent = none)
    (short : new.isToken = false → new.length = 0) : (forest.push new).2.Neat where
  closed := closed_push bare free neat.closed
  flat := neat.flat.push short
  filed owner := by
    by_cases isNew : owner = forest.size
    · have empty : (forest.push new).2.parts owner = {} := by rw [isNew, parts_push_new, bare]
      constructor <;> simp [empty, Forest.body]
    · refine (neat.filed owner).congr neat.closed (parts_push_old bare) (fun isHead => ?_)
        fun id inside => stillSuits_of_kind (kind_push_old inside)
      by_cases inside : owner < forest.size
      · exact (isHead_of_kind (kind_push_old inside)).mp isHead
      · obtain ⟨kind, isKind, _⟩ := isHead
        have below := lt_size_of_kind isKind
        rw [size_push] at below
        exact absurd (Nat.le_antisymm (Nat.le_of_lt_succ below) (Nat.le_of_not_lt inside)) isNew

/-- A new item that minds its modifiers, as long as nothing is attached to it. -/
theorem Guided.push {new : Item} (guided : Guided apart loose before after) (bare : new.parts = {})
    (free : new.parent = none) (short : new.isToken = false → new.length = 0) (plain : new.kind.segments = [])
    (later : ∀ number kind priority words operand right,
      new.kind = .operator number kind priority words operand right → before.size ≤ words) :
    Guided apart (loose ++ [after.size]) before (after.push new).2 where
  size := by rw [size_push]; exact Nat.le_succ_of_le guided.size
  neat := guided.neat.push bare free short
  new id member := by
    rw [size_push]
    rcases List.mem_append.mp member with isLoose | isNew
    · obtain ⟨new, inside⟩ := guided.new id isLoose
      exact ⟨new, Nat.lt_succ_of_lt inside⟩
    · obtain rfl := List.mem_singleton.mp isNew
      exact ⟨guided.size, Nat.lt_succ_self _⟩
  same id inside notApart := (guided.same id inside notApart).trans
    ⟨parts_push_old bare, kind_push_old (Nat.lt_of_lt_of_le inside guided.size)⟩
  minds id above := by
    by_cases inside : id < after.size
    · refine (guided.minds id above).stays (Nat.le_refl _) (by rw [size_push]; exact Nat.le_succ _)
        (kind_push_old inside) (fun _ _ owns => Or.inl (by rwa [parts_push_old bare] at owns))
        (fun _ inside _ _ => ⟨parts_push_old bare, kind_push_old inside⟩) fun other isEither => ?_
      exact (List.mem_append.mp isEither).imp_right fun isNew =>
        Or.inr (Nat.le_of_eq (List.mem_singleton.mp isNew).symm)
    · by_cases isNew : id = after.size
      · subst isNew
        refine ⟨fun number kind priority words operand right isKind => ?_, ?_, fun _ part owns => ?_⟩
        · exact later number kind priority words operand right
            (Option.some.inj (kind_push_new.symm.trans isKind))
        · rintro item ⟨kind, isKind, member⟩
          obtain rfl := Option.some.inj (kind_push_new.symm.trans isKind)
          rw [plain] at member
          cases member
        · rw [parts_push_new, bare] at owns
          cases owns
      · refine minds_of_size_le ?_
        rw [size_push]
        exact Nat.lt_of_le_of_ne (Nat.le_of_not_lt inside) (Ne.symm isNew)

/-- A part is attached where it belongs. -/
theorem Neat.link (neat : forest.Neat) (ownerInside : owner < forest.size) (partInside : part < forest.size)
    (suits : forest.Suits owner part place) : (forest.link owner part place isChild).Neat where
  closed := closed_link ownerInside partInside neat.closed
  flat := neat.flat.link
  filed id := by
    have still : ∀ id, StillSuits forest (forest.link owner part place isChild) id := fun id =>
      stillSuits_of_kind kind_link
    by_cases isOwner : id = owner
    · subst isOwner
      have filed := neat.filed id
      have sections : ∀ here, ∀ other ∈ ((forest.link id part place isChild).parts id).get here,
          other ∈ (forest.parts id).get here ∨ other = part ∧ place = here := by
        intro here other member
        rw [parts_link_owner ownerInside] at member
        cases isChild <;> cases place <;> cases here <;>
          simpa [Parts.get, Parts.push, Parts.pushChild] using member
      refine ⟨fun other member => ?_, fun other member => ?_, fun isHead other member => ?_⟩
      · rcases sections .prefixes other member with old | ⟨rfl, rfl⟩
        · exact (still other).nameless (filed.prefixes other old)
        · exact (still other).nameless suits
      · rcases sections .keywords other member with old | ⟨rfl, rfl⟩
        · exact (still other).keyword.mpr (filed.keywords other old)
        · exact (still other).keyword.mpr suits
      · rw [(still other).keyword]
        have wasHead := (isHead_of_kind kind_link).mp isHead
        rcases List.mem_append.mp member with regular | behind
        · rcases sections .regular other regular with old | ⟨rfl, rfl⟩
          · exact filed.body wasHead other (List.mem_append_left _ old)
          · exact suits wasHead
        · rcases sections .postfixes other behind with old | ⟨rfl, rfl⟩
          · exact filed.body wasHead other (List.mem_append_right _ old)
          · exact suits wasHead
    · exact (neat.filed id).congr neat.closed (parts_link_other isOwner)
        (isHead_of_kind kind_link).mp fun other _ => still other

/-- Only the owner is changed. -/
theorem guided_link (neat : forest.Neat) (ownerInside : owner < forest.size)
    (partInside : part < forest.size) (suits : forest.Suits owner part place) :
    Guided [owner] [] forest (forest.link owner part place isChild) where
  size := Nat.le_of_eq size_link.symm
  neat := neat.link ownerInside partInside suits
  new _ member := nomatch member
  same id _ notOwner := ⟨parts_link_other (by simpa using notOwner), kind_link⟩
  minds id new := minds_of_size_le (size_link.le.trans new)

theorem modifiers_link (ownerInside : owner < forest.size) (behind : place = .regular ∨ place = .postfixes) :
    (forest.link owner part place isChild).modifiers owner = forest.modifiers owner := by
  rw [Forest.modifiers, parts_link_owner ownerInside, Forest.modifiers]
  rcases behind with rfl | rfl <;> cases isChild <;> rfl

theorem modifiers_changeKind {other : Nat} {change : ItemKind → ItemKind} :
    (forest.modify id fun item => { item with kind := change item.kind }).modifiers other =
      forest.modifiers other := by rw [Forest.modifiers, parts_changeKind, Forest.modifiers]

/-- A construct goes on to its next stage. -/
theorem guided_changeKind {change : ItemKind → ItemKind} {kind : ItemKind} (neat : forest.Neat)
    (isKind : forest.kind? id = some kind) (isStage : kind.isStageOf (change kind) = true) :
    Guided [id] [] forest (forest.modify id fun item => { item with kind := change item.kind }) where
  size := Nat.le_of_eq (size_modify _).symm
  neat := by
    have kinds : ∀ other, other ≠ id →
        (forest.modify id fun item => { item with kind := change item.kind }).kind? other =
          forest.kind? other := fun other different => by
      rw [kind_changeKind, if_neg (Ne.symm different)]
    have changed : (forest.modify id fun item => { item with kind := change item.kind }).kind? id =
        some (change kind) := by rw [kind_changeKind, if_pos rfl, isKind, Option.map_some]
    refine ⟨closed_changeKind neat.closed, fun owner => (neat.filed owner).congr neat.closed
      parts_changeKind (fun isHead => ?_) fun other _ => ?_, neat.flat.modify fun item found => ?_⟩
    · by_cases isId : owner = id
      · subst isId
        obtain ⟨other, isOther, isHead⟩ := isHead
        cases changed.symm.trans isOther
        exact ⟨kind, isKind, (ItemKind.isStageOf_cases isStage).1.trans isHead⟩
      · exact (isHead_of_kind (kinds owner isId)).mp isHead
    · by_cases isId : other = id
      · subst isId
        obtain ⟨_, noToken, noTokenThen⟩ := ItemKind.isStageOf_cases isStage
        refine ⟨?_, iff_of_false ?_ ?_⟩
        · rintro ⟨brace, opening, closing, parameters, isNameless⟩
          obtain rfl := Option.some.inj (isKind.symm.trans isNameless)
          obtain ⟨_, _, _, _, isBraces⟩ := ItemKind.isStageOf_braces isStage
          exact ⟨_, _, _, _, changed.trans (congrArg some isBraces)⟩
        · rintro ⟨keyword, text, isToken⟩
          rw [Option.some.inj (changed.symm.trans isToken)] at noTokenThen
          cases noTokenThen
        · rintro ⟨keyword, text, isToken⟩
          rw [Option.some.inj (isKind.symm.trans isToken)] at noToken
          cases noToken
      · exact stillSuits_of_kind (kinds other isId)
    · obtain ⟨_, noToken, noTokenThen⟩ := ItemKind.isStageOf_cases isStage
      obtain rfl : item.kind = kind := Option.some.inj ((kind_of_get found).symm.trans isKind)
      exact ⟨noTokenThen.trans noToken.symm, rfl⟩
  new _ member := nomatch member
  same other _ different := by
    refine ⟨parts_changeKind, ?_⟩
    rw [kind_changeKind, if_neg (by simpa [eq_comm] using different)]
  minds other new := minds_of_size_le ((size_modify _).le.trans new)

section SetKind

variable {kind new : ItemKind}

theorem guided_setKind (neat : forest.Neat) (isKind : forest.kind? id = some kind)
    (isStage : kind.isStageOf new = true) : Guided [id] [] forest (forest.setKind id new) :=
  @guided_changeKind _ _ (fun _ => new) kind neat isKind isStage

theorem kind_setKind (inside : id < forest.size) : (forest.setKind id new).kind? id = some new := by
  obtain ⟨item, found⟩ := get_of_lt inside
  have changed := @kind_changeKind forest id id fun _ => new
  rw [if_pos rfl, kind_of_get found, Option.map_some] at changed
  exact changed

theorem parts_setKind {other : Nat} : (forest.setKind id new).parts other = forest.parts other :=
  @parts_changeKind forest id other fun _ => new

theorem modifiers_setKind {other : Nat} :
    (forest.setKind id new).modifiers other = forest.modifiers other :=
  @modifiers_changeKind forest id other fun _ => new

end SetKind

/-- A loose operand that is new and not modified. -/
structure Gives (before after : Forest) (item : ItemId) : Prop where
  guided : Guided [] [item] before after
  operand : after.IsOperand item
  bare : after.modifiers item = []

/-- The parts that the owner has got are set aside, but for those of which `P` holds. -/
def Grows (owner : ItemId) (P : ItemId → Prop) (before after : Forest) : Prop :=
  ∀ part ∈ (after.parts owner).all,
    part ∈ (before.parts owner).all ∨ P part ∨ after.SetAside before.size [] part

section Grows

variable {P Q : ItemId → Prop}

theorem grows_of_parts (same : after.parts owner = before.parts owner) : Grows owner P before after :=
  fun _ member => Or.inl (same ▸ member)

theorem Grows.imp (grows : Grows owner P before after)
    (more : ∀ part, P part → Q part ∨ after.SetAside before.size [] part) : Grows owner Q before after :=
  fun part member => (grows part member).imp_right fun either =>
    either.elim (more part) Or.inr

theorem Grows.trans (first : Grows owner P before mid) (size : before.size ≤ mid.size)
    (inside : owner < before.size) (guided : Guided [owner] loose mid after)
    (second : Grows owner P mid after) : Grows owner P before after := by
  intro part member
  rcases second part member with earlier | holds | aside
  · refine (first part earlier).imp_right (Or.imp_right fun aside => ?_)
    have notOwner : part ≠ owner := fun same => absurd inside (Nat.not_lt_of_le (same ▸ aside.above))
    exact aside.stays (Nat.le_refl _) guided.size
      (guided.modifiers aside.inside (by simpa using notOwner)) (by simp)
  · exact Or.inr (Or.inl holds)
  · exact Or.inr (Or.inr (aside.stays size (Nat.le_refl _) rfl (by simp)))

theorem grows_link (ownerInside : owner < forest.size) :
    Grows owner (· = part) forest (forest.link owner part place isChild) := by
  intro other member
  rcases (owns_link ownerInside).mp member with old | ⟨_, isPart⟩
  · exact Or.inl old
  · exact Or.inr (Or.inl isPart)

end Grows

/-- The item takes parts and stays what it is. -/
structure Receives (owner : ItemId) (P : ItemId → Prop) (before after : Forest) : Prop where
  guided : Guided [owner] [] before after
  kind : after.kind? owner = before.kind? owner
  modifiers : after.modifiers owner = before.modifiers owner
  grows : Grows owner P before after

section Receives

variable {P Q : ItemId → Prop}

theorem Receives.refl (neat : forest.Neat) (owner : ItemId) : Receives owner P forest forest :=
  ⟨Guided.refl neat _, rfl, rfl, grows_of_parts rfl⟩

theorem Receives.imp (receives : Receives owner P before after)
    (more : ∀ part, P part → Q part ∨ after.SetAside before.size [] part) : Receives owner Q before after :=
  ⟨receives.guided, receives.kind, receives.modifiers, receives.grows.imp more⟩

theorem Receives.trans (first : Receives owner P before mid) (inside : owner < before.size)
    (second : Receives owner P mid after) : Receives owner P before after where
  guided := first.guided.again second.guided (by simpa using inside)
  kind := second.kind.trans first.kind
  modifiers := second.modifiers.trans first.modifiers
  grows := first.grows.trans first.guided.size inside second.guided second.grows

/-- The owner is there already when the parts are made. -/
theorem Receives.of_guided (guided : Guided [] loose before after) (inside : owner < before.size) :
    Receives owner P before after where
  guided := (guided.widen [owner]).fewer (List.nil_subset _)
  kind := (guided.same owner inside List.not_mem_nil).kind
  modifiers := guided.modifiers inside List.not_mem_nil
  grows := grows_of_parts (guided.same owner inside List.not_mem_nil).parts

/-- A part that has just been made is taken. -/
theorem Receives.of_made (guided : Guided [] [part] before mid) (bare : mid.modifiers part = [])
    (inside : owner < before.size) (receives : Receives owner (· = part) mid after) :
    Receives owner P before after := by
  have both := (Receives.of_guided (P := (· = part)) guided inside).trans inside receives
  refine both.imp fun other isPart => Or.inr ?_
  subst isPart
  obtain ⟨above, below⟩ := guided.new other (List.mem_singleton_self other)
  have notOwner : other ≠ owner := fun same => absurd inside (Nat.not_lt_of_le (same ▸ above))
  exact ⟨above, Nat.lt_of_lt_of_le below receives.guided.size, List.not_mem_nil,
    (receives.guided.modifiers below (by simpa using notOwner)).trans bare⟩

theorem receives_link (neat : forest.Neat) (ownerInside : owner < forest.size) (partInside : part < forest.size)
    (behind : place = .regular ∨ place = .postfixes)
    (suits : forest.IsHead owner → ¬ forest.IsKeywordToken part) :
    Receives owner (· = part) forest (forest.link owner part place isChild) where
  guided := guided_link neat ownerInside partInside (by rcases behind with rfl | rfl <;> exact suits)
  kind := kind_link
  modifiers := modifiers_link ownerInside behind
  grows := grows_link ownerInside

end Receives

theorem exists_create (forest : Forest) (kind : ItemKind) (start : Nat) :
    ∃ new : Item, forest.create kind start = forest.push new ∧ new.kind = kind ∧ new.parts = {} ∧
      new.parent = none ∧ (new.isToken = false → new.length = 0) := by
  refine ⟨_, rfl, rfl, rfl, rfl, ?_⟩
  cases kind <;> first | exact fun _ => rfl | exact nofun

/-- An item of this kind has just been made. -/
def Begun (kind : ItemKind) (before after : Forest) : Prop := ∃ start, after = (before.create kind start).2

namespace Begun

variable {kind : ItemKind} (begun : Begun kind before after)

include begun

theorem neat (neat : before.Neat) : after.Neat := by
  obtain ⟨start, rfl⟩ := begun
  obtain ⟨new, made, _, bare, free, short⟩ := exists_create before kind start
  exact made ▸ neat.push bare free short

theorem inside : before.size < after.size := by
  obtain ⟨start, rfl⟩ := begun
  exact Nat.lt_of_lt_of_eq (Nat.lt_succ_self _) (size_push _).symm

theorem old_or_new (inside : id < after.size) : id < before.size ∨ id = before.size := by
  obtain ⟨start, rfl⟩ := begun
  exact Nat.lt_succ_iff_lt_or_eq.mp (Nat.lt_of_lt_of_eq inside (size_push _))

theorem kind_new : after.kind? before.size = some kind := by
  obtain ⟨start, rfl⟩ := begun
  exact kind_push_new

theorem noParts : after.parts before.size = {} := by
  obtain ⟨start, rfl⟩ := begun
  exact parts_push_new

theorem same (inside : id < before.size) : Same before after id := by
  obtain ⟨start, rfl⟩ := begun
  exact ⟨parts_push_old rfl, kind_push_old inside⟩

theorem kind_old (inside : id < before.size) : after.kind? id = before.kind? id :=
  (begun.same inside).kind

theorem bare : after.modifiers before.size = [] := by
  rw [Forest.modifiers, begun.noParts, List.append_nil]

theorem guided {first : Forest} (guided : Guided apart loose first before) (plain : kind.segments = [])
    (later : ∀ number kind' priority words operand right,
      kind = .operator number kind' priority words operand right → first.size ≤ words) :
    Guided apart (loose ++ [before.size]) first after := by
  obtain ⟨start, rfl⟩ := begun
  obtain ⟨new, made, rfl, bare, free, short⟩ := exists_create before kind start
  exact made ▸ guided.push bare free short plain later

end Begun

/-- An item that has been made with its parts, while other items were made inside it. -/
theorem Guided.made {kind : ItemKind} {base : Forest} (guided : Guided [] loose before mid)
    (begun : Begun kind mid base) (plain : kind.segments = []) (isOperand : kind.isOperand = true)
    (rest : Guided [mid.size] more base after) (operand : after.IsOperand mid.size)
    (segments : ∀ item, after.IsSegment mid.size item → after.RoutedFrom (mid.size + 1) [] item)
    (parts : ∀ part ∈ (after.parts mid.size).all,
      after.IsSegment mid.size part ∨ after.SetAside before.size [mid.size] part) :
    Guided [] [mid.size] before after := by
  have created : Guided [] [mid.size] before base :=
    (begun.guided guided plain fun _ _ _ _ _ _ isOperator => by
      rw [isOperator] at isOperand
      cases isOperand).fewer (List.subset_append_right _ _)
  have rest := rest.fewer (List.nil_subset _)
  refine (created.trans rest fun id isId => ?_).fewer (List.subset_append_left _ _)
  obtain rfl := List.mem_singleton.mp isId
  refine Or.inr ⟨List.mem_singleton_self _, fun _ _ _ _ _ _ isOperator => ?_, fun item isSegment => ?_,
    fun _ => parts⟩
  · obtain ⟨kind, isKind, isOperand⟩ := operand
    cases isKind.symm.trans isOperator
    cases isOperand
  · refine (segments item isSegment).loosen (Nat.le_refl _) fun id isLoose => ?_
    rw [List.append_nil] at isLoose
    exact Or.inr (Or.inl (List.mem_singleton.mp isLoose ▸ Nat.lt_succ_self _))

/-- What has been made since the item was begun is set aside from it, too. -/
theorem SetAside.beside {kind : ItemKind} {base : Forest} (begun : Begun kind mid base)
    (aside : after.SetAside base.size [] part) (size : before.size ≤ mid.size) :
    after.SetAside before.size [mid.size] part :=
  aside.stays (Nat.le_trans size (Nat.le_of_lt begun.inside)) (Nat.le_refl _) rfl fun _ isItem =>
    Or.inr (Or.inl (List.mem_singleton.mp isItem ▸ begun.inside))

/-- An item that is being made stays an operand without modifiers as long as it takes parts. -/
theorem Receives.gives {kind : ItemKind} {base : Forest} (guided : Guided [] loose before mid)
    (begun : Begun kind mid base) (plain : kind.segments = []) (isOperand : kind.isOperand = true)
    (takes : Receives mid.size (fun _ => False) base after) : Gives before after mid.size := by
  have isKind : after.kind? mid.size = some kind := takes.kind.trans begun.kind_new
  have operand : after.IsOperand mid.size := ⟨kind, isKind, isOperand⟩
  refine ⟨guided.made begun plain isOperand takes.guided operand ?_ fun part member => ?_, operand,
    takes.modifiers.trans begun.bare⟩
  · rintro item ⟨other, isOther, member⟩
    obtain rfl : kind = other := Option.some.inj (isKind.symm.trans isOther)
    rw [plain] at member
    cases member
  · rcases takes.grows part member with old | never | aside
    · rw [begun.noParts] at old
      cases old
    · exact never.elim
    · exact Or.inr (aside.beside begun guided.size)

end Forest

open Forest

namespace Parse

variable {s : ParseState} {owner part : ItemId} {place : Section} {isChild : Bool}

theorem ends_create_begun {β : Type} {kind : ItemKind} {start : Nat} {next : ItemId → Parse β}
    {ok : β → ParseState → Prop} {stopped : Stopped → ParseState → Prop}
    (rest : ∀ t, Begun kind s.forest t.forest → Ends (next s.forest.size) t ok stopped) :
    Ends (create kind start >>= next) s ok stopped := by
  rw [ends_create_bind]
  exact rest _ ⟨start, rfl⟩

theorem ends_createToken_guided {kind : TokenKind} {word : String} {start : Nat} (neat : s.forest.Neat) :
    Ends (createToken kind word start) s
      (fun token t => Guided [] [token] s.forest t.forest ∧
        t.forest.kind? token = some (.token kind word) ∧ t.forest.modifiers token = [])
      fun _ _ => True := by
  have begun : Begun (.token kind word) s.forest (s.forest.createToken kind word start).2 := ⟨start, rfl⟩
  exact ends_ok rfl ⟨begun.guided (.refl neat []) rfl (by rintro _ _ _ _ _ _ ⟨⟩), begun.kind_new,
    begun.bare⟩

theorem ends_attach_receives (neat : s.forest.Neat) (behind : place = .regular ∨ place = .postfixes)
    (suits : s.forest.IsHead owner → ¬ s.forest.IsKeywordToken part) :
    Ends (attach (·.attach owner part place isChild)) s
      (fun _ t => Receives owner (· = part) s.forest t.forest) fun _ _ => True := by
  unfold attach attachOr
  simp only [ends_forest_bind]
  cases attached : s.forest.attach owner part place isChild with
  | error error => exact ends_error rfl trivial
  | ok next =>
      obtain ⟨rfl, ownerInside, partInside⟩ := Forest.attach_ok attached
      exact ends_ok rfl (receives_link neat ownerInside partInside behind suits)

section Token

variable {kind : TokenKind} {word : String} {start : Nat} {P : ItemId → Prop} (neat : s.forest.Neat)
  (inside : owner < s.forest.size) (other : ∀ keyword, kind ≠ .keyword keyword)

include neat inside other

/-- An item takes a token that is made for it. -/
theorem ends_takesToken_bind {β : Type} {next : ItemId → Parse β} {ok : β → ParseState → Prop}
    (rest : ∀ token t, Receives owner P s.forest t.forest → Ends (next token) t ok fun _ _ => True) :
    Ends (createToken kind word start >>= fun token => addRegular owner token >>= fun _ => next token) s
      ok fun _ _ => True := by
  refine (ends_createToken_guided neat).bind ?_ fun _ _ _ => trivial
  rintro token t ⟨guided, isToken, bare⟩
  refine (ends_attach_receives guided.neat (Or.inl rfl) fun _ => not_keyword_of_token isToken other).bind ?_
    fun _ _ _ => trivial
  exact fun _ u takes => rest token u (.of_made guided bare inside takes)

end Token

end Parse

end ExprLang
