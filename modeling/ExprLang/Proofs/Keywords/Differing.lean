import ExprLang.Proofs.Fields.Agreement
import ExprLang.Proofs.Parse.Preserving
import Mathlib.Data.List.Pairwise

/-!
Keywords that differ. No two keywords of an item are tokens of the same keyword. All that can break this
is a link of a keyword: any other change leaves the keywords of an item alone, makes no token a keyword
that it was not, and an item that it makes has no keywords.
-/

namespace ExprLang.Forest

variable {forest before mid after : Forest} {keywords more : List ItemId} {item owner keyword : ItemId}

/-- Both are tokens of one keyword. -/
def SameKeyword (forest : Forest) (a b : ItemId) : Prop :=
  ∃ id, forest.tokenKind? a = some (.keyword id) ∧ forest.tokenKind? b = some (.keyword id)

/-- Each is a token of a keyword of its own. -/
def Differ (forest : Forest) (keywords : List ItemId) : Prop :=
  keywords.Pairwise fun a b => ¬ forest.SameKeyword a b

/-- The keywords of every item differ. -/
structure Varied (forest : Forest) : Prop where
  closed : Closed forest
  keywords : ∀ owner, forest.Differ (forest.parts owner).keywords

/-- Keywords that are kept for an item differ. -/
structure Waiting (keywords : List ItemId) (forest : Forest) : Prop where
  closed : Closed forest
  inside : ∀ keyword ∈ keywords, keyword < forest.size
  differ : forest.Differ keywords

/-- The item has no keywords yet. -/
structure Wordless (item : ItemId) (forest : Forest) : Prop where
  closed : Closed forest
  inside : item < forest.size
  none : (forest.parts item).keywords = []

/-! What leaves keywords alone -/

/-- The keywords of items that are there stay, and no token has become a keyword. -/
structure LeavesKeywords (before after : Forest) : Prop where
  closed : Closed after
  size : before.size ≤ after.size
  keywords : ∀ owner < before.size, (after.parts owner).keywords = (before.parts owner).keywords
  tokens : ∀ token < before.size, ∀ id, after.tokenKind? token = some (.keyword id) →
    before.tokenKind? token = some (.keyword id)

theorem Differ.mono (differ : before.Differ keywords)
    (tokens : ∀ token ∈ keywords, ∀ id, after.tokenKind? token = some (.keyword id) →
      before.tokenKind? token = some (.keyword id)) : after.Differ keywords := by
  refine List.Pairwise.imp_of_mem ?_ differ
  rintro a b inA inB apart ⟨id, isA, isB⟩
  exact apart ⟨id, tokens a inA id isA, tokens b inB id isB⟩

theorem parts_outside (outside : forest.size ≤ item) : forest.parts item = {} := by
  have absent : forest.get? item = none := Array.getElem?_eq_none outside
  rw [parts, absent]
  rfl

theorem leavesKeywords_push {new : Item} (closed : Closed forest) (free : new.parent = none)
    (bare : new.parts = {}) : LeavesKeywords forest (forest.push new).2 where
  closed := closed_push bare free closed
  size := by rw [size_push]; exact Nat.le_succ _
  keywords _ _ := by rw [parts_push_old bare]
  tokens _ inside _ isKeyword := by rwa [tokens_push inside] at isKeyword

theorem leavesKeywords_changeKind {change : ItemKind → ItemKind} (closed : Closed forest)
    (harmless : Harmless change) :
    LeavesKeywords forest (forest.modify item fun item => { item with kind := change item.kind }) where
  closed := closed_changeKind closed
  size := Nat.le_of_eq (size_modify _).symm
  keywords _ _ := by rw [parts_changeKind]
  tokens token inside id isKeyword := by
    obtain ⟨here, found⟩ := get_of_lt inside
    have kind := kind_of_get found
    by_cases isItem : item = token
    · have changed := @kind_changeKind forest item token change
      rw [if_pos isItem, kind, Option.map_some] at changed
      rcases harmless here.kind with same | ⟨complex, _⟩
      · rw [same, ← kind] at changed
        rwa [tokenKind_of_kind changed] at isKeyword
      · rw [tokenKind_of_complex changed complex] at isKeyword
        cases isKeyword
    · have changed := @kind_changeKind forest item token change
      rw [if_neg isItem] at changed
      rwa [tokenKind_of_kind changed] at isKeyword

theorem keywords_link {place : Section} {isChild : Bool} (ownerInside : owner < forest.size)
    (other : place ≠ .keywords) (id : ItemId) :
    ((forest.link owner item place isChild).parts id).keywords = (forest.parts id).keywords := by
  by_cases isOwner : id = owner
  · subst isOwner
    rw [parts_link_owner ownerInside]
    cases place <;> cases isChild <;> first | rfl | exact absurd rfl other
  · rw [parts_link_other isOwner]

theorem leavesKeywords_link {place : Section} {isChild : Bool} (closed : Closed forest)
    (ownerInside : owner < forest.size) (itemInside : item < forest.size) (other : place ≠ .keywords) :
    LeavesKeywords forest (forest.link owner item place isChild) where
  closed := closed_link ownerInside itemInside closed
  size := Nat.le_of_eq size_link.symm
  keywords id _ := keywords_link ownerInside other id
  tokens _ _ _ isKeyword := by rwa [tokens_link] at isKeyword

/-- Whatever works above all items that are there leaves their keywords alone. -/
theorem Untouched.leavesKeywords (untouched : Untouched before.size before after) (closed : Closed after)
    (size : before.size ≤ after.size) : LeavesKeywords before after where
  closed := closed
  size := size
  keywords owner inside := by rw [(untouched.same inside).1]
  tokens token inside id isKeyword := by
    rwa [tokenKind_of_kind (untouched.same inside).2] at isKeyword

theorem Waiting.later (waiting : Waiting keywords before) (leaves : LeavesKeywords before after) :
    Waiting keywords after where
  closed := leaves.closed
  inside keyword member := Nat.lt_of_lt_of_le (waiting.inside keyword member) leaves.size
  differ := waiting.differ.mono fun token member => leaves.tokens token (waiting.inside token member)

theorem Wordless.later (bare : Wordless item before) (leaves : LeavesKeywords before after) :
    Wordless item after where
  closed := leaves.closed
  inside := Nat.lt_of_lt_of_le bare.inside leaves.size
  none := (leaves.keywords item bare.inside).trans bare.none

theorem Varied.waiting (varied : Varied forest) (owner : ItemId) :
    Waiting (forest.parts owner).keywords forest where
  closed := varied.closed
  inside keyword member := varied.closed.parts owner keyword (by simp [Parts.named, Parts.all, member])
  differ := varied.keywords owner

theorem Varied.later (varied : Varied before) (leaves : LeavesKeywords before after)
    (new : ∀ owner, before.size ≤ owner → (after.parts owner).keywords = []) : Varied after where
  closed := leaves.closed
  keywords owner := by
    by_cases inside : owner < before.size
    · rw [leaves.keywords owner inside]
      exact ((varied.waiting owner).later leaves).differ
    · rw [new owner (Nat.le_of_not_lt inside)]
      exact .nil

theorem Waiting.nil (closed : Closed forest) : Waiting [] forest := ⟨closed, nofun, List.Pairwise.nil⟩

theorem Waiting.sublist (waiting : Waiting keywords forest) (fewer : more.Sublist keywords) :
    Waiting more forest where
  closed := waiting.closed
  inside keyword member := waiting.inside keyword (fewer.subset member)
  differ := waiting.differ.sublist fewer

/-- A new token of another keyword can be kept as well. -/
theorem Waiting.snoc {id : KeywordId} {word : String} {start : Nat} (waiting : Waiting keywords forest)
    (fresh : ∀ keyword ∈ keywords, forest.tokenKind? keyword ≠ some (.keyword id)) :
    Waiting (keywords ++ [forest.size]) (forest.createToken (.keyword id) word start).2 := by
  have leaves : LeavesKeywords forest (forest.createToken (.keyword id) word start).2 :=
    leavesKeywords_push waiting.closed rfl rfl
  have later := waiting.later leaves
  refine ⟨later.closed, ?_, ?_⟩
  · refine List.forall_mem_append.mpr ⟨later.inside, List.forall_mem_singleton.mpr ?_⟩
    rw [createToken, size_push]
    exact Nat.lt_succ_self _
  · refine List.pairwise_append.mpr ⟨later.differ, List.pairwise_singleton _ _, ?_⟩
    rintro keyword member _ last ⟨other, isOld, isNew⟩
    rw [List.mem_singleton.mp last, tokenKind_createToken] at isNew
    cases isNew
    exact fresh keyword member (leaves.tokens keyword (waiting.inside keyword member) id isOld)

/-! Links of keywords -/

theorem keywords_link_owner {isChild : Bool} (ownerInside : owner < forest.size) :
    ((forest.link owner keyword .keywords isChild).parts owner).keywords =
      (forest.parts owner).keywords ++ [keyword] := by
  rw [parts_link_owner ownerInside]
  cases isChild <;> rfl

theorem differ_link {place : Section} {isChild : Bool} :
    (forest.link owner item place isChild).Differ keywords ↔ forest.Differ keywords := by
  simp only [Differ, SameKeyword, tokens_link]

theorem Waiting.link {place : Section} {isChild : Bool} (waiting : Waiting keywords forest)
    (ownerInside : owner < forest.size) (itemInside : item < forest.size) :
    Waiting keywords (forest.link owner item place isChild) where
  closed := closed_link ownerInside itemInside waiting.closed
  inside keyword member := by
    rw [size_link]
    exact waiting.inside keyword member
  differ := differ_link.mpr waiting.differ

/-- A keyword that differs from those that its owner has. -/
theorem Varied.linkKeyword {isChild : Bool} (varied : Varied forest) (ownerInside : owner < forest.size)
    (keywordInside : keyword < forest.size)
    (differ : forest.Differ ((forest.parts owner).keywords ++ [keyword])) :
    Varied (forest.link owner keyword .keywords isChild) where
  closed := closed_link ownerInside keywordInside varied.closed
  keywords id := by
    rw [differ_link]
    by_cases isOwner : id = owner
    · rw [isOwner, keywords_link_owner ownerInside]
      exact differ
    · rw [parts_link_other isOwner]
      exact varied.keywords id

/-! Cuts -/

theorem tokens_truncate {count token : Nat} {kind : TokenKind}
    (isKind : (forest.truncate count).tokenKind? token = some kind) :
    forest.tokenKind? token = some kind := by
  by_cases cut : count < forest.size
  · by_cases inside : token < count
    · rw [tokenKind?, get_truncate inside cut] at isKind
      rw [tokenKind?]
      cases found : forest.get? token with
      | none => simp [found] at isKind
      | some here => simpa [found, Item.tokenKind?] using isKind
    · rw [tokenKind?, get_truncate_outside inside cut] at isKind
      cases isKind
  · rwa [truncate_of_le (Nat.le_of_not_lt cut)] at isKind

theorem Varied.truncate {count : Nat} (varied : Varied forest) : Varied (forest.truncate count) := by
  refine ⟨closed_truncate varied.closed, fun owner => ?_⟩
  by_cases cut : count < forest.size
  · have fewer : ((forest.truncate count).parts owner).keywords.Sublist (forest.parts owner).keywords := by
      by_cases inside : owner < count
      · rw [parts_truncate inside cut]
        exact List.filter_sublist
      · rw [parts_outside (by rw [size_truncate (Nat.le_of_lt cut)]; exact Nat.le_of_not_lt inside)]
        exact List.nil_sublist _
    exact Differ.mono ((varied.keywords owner).sublist fewer) fun _ _ _ => tokens_truncate
  · rw [truncate_of_le (Nat.le_of_not_lt cut)]
    exact varied.keywords owner

/-- Keywords from before the cut are not lost. -/
theorem Waiting.truncate {count : Nat} (waiting : Waiting keywords forest)
    (before : ∀ keyword ∈ keywords, keyword < count) : Waiting keywords (forest.truncate count) := by
  refine ⟨closed_truncate waiting.closed, fun keyword member => ?_,
    waiting.differ.mono fun _ _ _ => tokens_truncate⟩
  by_cases cut : count < forest.size
  · rw [size_truncate (Nat.le_of_lt cut)]
    exact before keyword member
  · rw [truncate_of_le (Nat.le_of_not_lt cut)]
    exact waiting.inside keyword member

end ExprLang.Forest
