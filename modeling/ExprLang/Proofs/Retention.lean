import ExprLang.Proofs.Forest.Leaves
import ExprLang.Proofs.Resolution

/-!
Nothing is lost where the terms of a segment are put together. Whatever the mixture of operands,
operators and items without a place, nothing that is attached is refused, and the walk from the item
that is made of the terms comes to each given item and to one token for each word of an operator, in
the order of the terms and with their spans.
-/

namespace ExprLang

open Held (item hollow word ids)

open Parse ParseState

/-- The leaves at or below what is held. A word is going to be one. -/
def Held.leaves (forest : Forest) (ends : List ItemId) : Held → List Leaf
  | item id | hollow id => forest.leaves ends id
  | word start text => [.token .operatorNamePart text start (start + text.length)]

/-- What the walk has to come to for a term: the item that was given, or a token for each word. -/
def Term.leaves (forest : Forest) : Term → List Leaf
  | .operand id | .stray id => [.item id (forest.start id) (forest.stop id)]
  | .operators written => written.parts.map fun part =>
      .token .operatorNamePart part.2 part.1 (part.1 + part.2.length)

/-- The items that were given, where the walk is to stop. -/
def Term.given (terms : List Term) : List ItemId := ids (terms.flatMap Term.held)

/-- A row above the items that were given, which has the leaves that are wanted. What a new item owns
covers something. -/
structure Carrying (floor : Nat) (given : List ItemId) (wanted : List Leaf) (a b : Nat)
    (forest : Forest) (row : List Held) : Prop where
  lined : forest.LinedUp a row b
  room : floor ≤ forest.size
  old : ∀ id ∈ given, id < floor
  firm : ∀ owner part, floor ≤ owner → forest.Owns owner part → forest.start part < forest.stop part
  leaves : row.flatMap (Held.leaves forest given) = wanted

namespace Forest

variable {forest : Forest} {row : List Held} {floor : Nat}

/-! New items -/

section Push

variable (new : Item) (linked : forest.Linked) (bare : new.parts = {}) (free : new.parent = none)

include linked bare free

theorem firm_push (firm : ∀ owner part, floor ≤ owner → forest.Owns owner part →
      forest.start part < forest.stop part) :
    ∀ owner part, floor ≤ owner → (forest.push new).2.Owns owner part →
      (forest.push new).2.start part < (forest.push new).2.stop part := by
  intro owner part above owns
  rw [Owns, parts_push_old bare] at owns
  obtain ⟨starts, stops⟩ := spans_push_old linked bare free (linked.part_lt_size owns)
  rw [starts, stops]
  exact firm owner part above owns

theorem leaves_row_push (ends : List ItemId) (known : ∀ id ∈ ids row, id < forest.size) :
    row.flatMap (Held.leaves (forest.push new).2 ends) = row.flatMap (Held.leaves forest ends) := by
  refine List.flatMap_congr fun held member => ?_
  have inside : ∀ id, held.id? = some id → id < forest.size := fun id isId =>
    known id (List.mem_filterMap.mpr ⟨held, member, isId⟩)
  cases held with
  | item id => exact leaves_push_old linked bare free (inside id rfl)
  | hollow id => exact leaves_push_old linked bare free (inside id rfl)
  | word start text => rfl

end Push

/-! New links -/

section Link

variable {owner part : Nat} {place : Section} {isChild : Bool} (linked : forest.Linked)
  (attachable : forest.Attachable owner part) (regular : isChild = true → place = .regular)

include linked attachable regular

theorem firm_link (filled : forest.start part < forest.stop part)
    (firm : ∀ owner part, floor ≤ owner → forest.Owns owner part →
      forest.start part < forest.stop part) :
    ∀ other below, floor ≤ other → (forest.link owner part place isChild).Owns other below →
      (forest.link owner part place isChild).start below <
        (forest.link owner part place isChild).stop below := by
  intro other below above owns
  obtain ⟨owning, found, _⟩ := attachable.complex
  have notOwner : below ≠ owner := by
    rintro rfl
    rcases (owns_link (get_lt_size found)).mp owns with old | ⟨_, same⟩
    · exact linked.not_owned attachable.freeOwner old
    · exact attachable.different same
  obtain ⟨starts, stops⟩ := spans_link_other linked attachable regular notOwner
  rw [starts, stops]
  rcases (owns_link (get_lt_size found)).mp owns with old | ⟨_, rfl⟩
  · exact firm other below above old
  · exact filled

theorem leaves_row_link (ends : List ItemId)
    (elsewhere : ∀ id ∈ ids row, id ≠ owner ∧ id < forest.size) :
    row.flatMap (Held.leaves (forest.link owner part place isChild) ends) =
      row.flatMap (Held.leaves forest ends) := by
  refine List.flatMap_congr fun held member => ?_
  have other : ∀ id, held.id? = some id → id ≠ owner ∧ id < forest.size := fun id isId =>
    elsewhere id (List.mem_filterMap.mpr ⟨held, member, isId⟩)
  cases held with
  | item id => exact leaves_link_other linked attachable regular (other id rfl).1 (other id rfl).2
  | hollow id => exact leaves_link_other linked attachable regular (other id rfl).1 (other id rfl).2
  | word start text => rfl

end Link

/-- An item without parts has no leaves. -/
theorem leaves_hollow {ends : List ItemId} {id : Nat} (linked : forest.Linked) (notEnd : id ∉ ends)
    (stands : (hollow id).Stands forest) : forest.leaves ends id = [] := by
  obtain ⟨none, _, found, here, complex⟩ := stands
  rw [linked.leaves_complex notEnd (kind_of_get here) complex, none]
  rfl

theorem leaves_of_id {ends : List ItemId} {held : Held} {id : Nat} (isId : held.id? = some id) :
    held.leaves forest ends = forest.leaves ends id := by
  cases held <;> cases isId <;> rfl

end Forest

namespace Carrying

variable {floor a b : Nat} {given : List ItemId} {wanted : List Leaf} {forest : Forest}
  {row left right : List Held} {held : Held}

theorem not_end (carrying : Carrying floor given wanted a b forest row) {id : Nat}
    (above : floor ≤ id) : id ∉ given :=
  fun isEnd => Nat.not_lt_of_le above (carrying.old id isEnd)

theorem hollowed {kind : ItemKind} (plain : kind.isPlain = true)
    (carrying : Carrying floor given wanted a b forest (left ++ held :: right)) :
    Carrying floor given wanted a b (forest.create kind (held.start forest)).2
      (left ++ hollow forest.size :: held :: right) := by
  have lined := carrying.lined
  have complex := Forest.isToken_of_isPlain plain
  obtain ⟨m, ahead, further, stands, behind⟩ := Forest.row_append.mp lined.placed
  have after := lined.hollowed complex (ahead.weaken (Nat.le_refl _) further)
    ⟨Nat.le_refl _, stands, behind⟩
  have isHollow := (Forest.stands_create lined.linked complex (held.start forest)).2
  have none := Forest.leaves_hollow after.linked (carrying.not_end carrying.room) isHollow
  rw [Forest.create_complex complex] at after none ⊢
  have same := Forest.leaves_row_push { start := held.start forest, length := 0, kind } lined.linked rfl rfl given lined.known
  refine ⟨after, ?_, carrying.old, Forest.firm_push _ lined.linked rfl rfl carrying.firm, ?_⟩
  · rw [Forest.size_push]
    exact Nat.le_succ_of_le carrying.room
  · rw [← carrying.leaves, ← same]
    simp [Held.leaves, none]

/-- A word gets the token that it counts as. -/
theorem named {start : Nat} {text : String}
    (carrying : Carrying floor given wanted a b forest (left ++ word start text :: right)) :
    Carrying floor given wanted a b (forest.createToken .operatorNamePart text start).2
      (left ++ item forest.size :: right) := by
  have lined := carrying.lined
  have isToken : (forest.createToken .operatorNamePart text start).2.kind? forest.size =
      some (.token .operatorNamePart text) := Forest.kind_of_get (Forest.get_push_new _)
  obtain ⟨starts, stops⟩ := Forest.span_createToken .operatorNamePart text start lined.linked
  have token := Forest.leaves_token (carrying.not_end carrying.room) isToken
  rw [starts, stops] at token
  have after := lined.named .operatorNamePart
  rw [Forest.createToken] at after token ⊢
  have same := Forest.leaves_row_push { start, length := text.length, kind := .token .operatorNamePart text }
    lined.linked rfl rfl given lined.known
  refine ⟨after, ?_, carrying.old, Forest.firm_push _ lined.linked rfl rfl carrying.firm, ?_⟩
  · rw [Forest.size_push]
    exact Nat.le_succ_of_le carrying.room
  · rw [← carrying.leaves, ← same]
    simp [Held.leaves, token]

section Link

variable {owner part : Nat} {place : Section} {isChild : Bool}

/-- An owner has taken one of its neighbours: the others have the leaves that they had. -/
theorem linked {block : List Held} (carrying : Carrying floor given wanted a b forest (left ++ block ++ right))
    (above : floor ≤ owner) (attachable : forest.Attachable owner part)
    (regular : isChild = true → place = .regular) (isLast : (forest.parts owner).beyond place = [])
    (filled : forest.start part < forest.stop part)
    (lined : (forest.link owner part place isChild).LinedUp a (left ++ item owner :: right) b)
    (leaves : block.flatMap (Held.leaves forest given) =
      forest.leaves given owner ++ forest.leaves given part) :
    Carrying floor given wanted a b (forest.link owner part place isChild)
      (left ++ item owner :: right) := by
  have before := carrying.lined
  have elsewhere : ∀ id ∈ ids left ++ ids right, id ≠ owner ∧ id < forest.size := by
    intro id member
    have once := lined.once
    simp only [Held.ids_append, Held.ids_item] at once
    refine ⟨?_, before.known id ?_⟩
    · rintro rfl
      exact (List.nodup_cons.mp (List.perm_middle.nodup_iff.mp once)).1 member
    · simp only [Held.ids_append, List.mem_append] at member ⊢
      exact member.imp_left Or.inl
  have onLeft := Forest.leaves_row_link before.linked attachable regular given fun id member =>
    elsewhere id (List.mem_append_left _ member)
  have onRight := Forest.leaves_row_link before.linked attachable regular given fun id member =>
    elsewhere id (List.mem_append_right _ member)
  have ofOwner := Forest.leaves_link_last before.linked attachable regular (carrying.not_end above) isLast
  refine ⟨lined, ?_, carrying.old,
    Forest.firm_link before.linked attachable regular filled carrying.firm, ?_⟩
  · rw [Forest.size_link]
    exact carrying.room
  · rw [← carrying.leaves]
    simp only [List.flatMap_append, List.flatMap_cons, onLeft, onRight, leaves, List.append_assoc]
    rw [Held.leaves, ofOwner, List.append_assoc]

/-- An item takes what stands behind it. -/
theorem behind (carrying : Carrying floor given wanted a b forest (left ++ [held, item part] ++ right))
    (above : floor ≤ owner) (isOwner : held.id? = some owner) (isOpen : forest.Open place owner)
    (regular : isChild = true → place = .regular) :
    forest.attach owner part place isChild = .ok (forest.link owner part place isChild) ∧
      Carrying floor given wanted a b (forest.link owner part place isChild)
        (left ++ item owner :: right) := by
  have lined := carrying.lined
  have attachable := lined.attachable_behind isOwner isOpen.complex
  obtain ⟨apart, filled⟩ := lined.part_behind isOwner
  have fits := Forest.fits_behind lined.linked isOpen.last
    (fun last owns => carrying.firm owner last above owns) apart
  refine ⟨Forest.attach_of_fits _ attachable fits, carrying.linked above attachable regular
    isOpen.last filled (lined.link_behind isOwner attachable isOpen.last regular) ?_⟩
  have ofOwner : held.leaves forest given = forest.leaves given owner := Forest.leaves_of_id isOwner
  rw [List.flatMap_cons, ofOwner, List.flatMap_singleton, Held.leaves]

/-- An item without parts takes what stands in front of it. -/
theorem front (carrying : Carrying floor given wanted a b forest (left ++ [item part, hollow owner] ++ right))
    (above : floor ≤ owner) (regular : isChild = true → place = .regular) :
    forest.attach owner part place isChild = .ok (forest.link owner part place isChild) ∧
      Carrying floor given wanted a b (forest.link owner part place isChild)
        (left ++ item owner :: right) := by
  have lined := carrying.lined
  have attachable := lined.attachable_front
  have isHollow := lined.hollow_stands
  have isLast : (forest.parts owner).beyond place = [] := by
    rw [isHollow.1]
    cases place <;> rfl
  have inRow : item part ∈ left ++ [item part, hollow owner] ++ right := by simp
  have none := Forest.leaves_hollow lined.linked (carrying.not_end above) isHollow
  refine ⟨Forest.attach_of_fits _ attachable (Forest.fits_hollow isHollow.1 part place),
    carrying.linked above attachable regular isLast (lined.placed.inside inRow).2.1
      (lined.link_front regular) ?_⟩
  simp [Held.leaves, none]

end Link

theorem grip (floor : Nat) (given : List ItemId) (wanted : List Leaf) (a b : Nat) :
    LoggingGrip floor fun s row => Carrying floor given wanted a b s.forest row where
  lined carrying := ⟨a, b, carrying.lined⟩
  room carrying := carrying.room
  hollowed _ _ plain carrying := carrying.hollowed plain
  named _ _ carrying := carrying.named
  behind _ _ _ above carrying isOwner isOpen regular := carrying.behind above isOwner isOpen regular
  front _ _ _ above carrying regular := carrying.front above regular
  noted _ _ _ _ carrying := carrying

/-- At first the parser carries what it was given. -/
theorem ofTerms {terms : List Term} (lined : forest.LinedUp a (terms.flatMap Term.held) b)
    (fresh : ∀ owner part, forest.size ≤ owner → ¬ forest.Owns owner part) :
    Carrying forest.size (Term.given terms) (terms.flatMap (Term.leaves forest)) a b forest
      (terms.flatMap Term.held) where
  lined := lined
  room := Nat.le_refl _
  old := lined.known
  firm owner part above owns := absurd owns (fresh owner part above)
  leaves := by
    rw [List.flatMap_assoc]
    refine List.flatMap_congr fun term member => ?_
    have stop : ∀ id, item id ∈ term.held → forest.leaves (Term.given terms) id =
        [.item id (forest.start id) (forest.stop id)] := by
      intro id inTerm
      have isGiven : id ∈ Term.given terms :=
        List.mem_filterMap.mpr ⟨item id, List.mem_flatMap.mpr ⟨term, member, inTerm⟩, rfl⟩
      exact Forest.leaves_end (lined.known id isGiven) isGiven
    cases term with
    | operand id => simpa [Term.held, Term.leaves, Held.leaves] using stop id (by simp [Term.held])
    | stray id => simpa [Term.held, Term.leaves, Held.leaves] using stop id (by simp [Term.held])
    | operators written =>
        simp only [Term.held, OperatorMatch.held, Term.leaves, List.flatMap_map, Held.leaves]
        exact List.map_eq_flatMap.symm

end Carrying

namespace Parse

/-- Terms in text order, whatever they are, are all kept. Nothing is refused, there is an item unless
there are no terms, and the walk from that item comes to each given item and to one token for each
word of an operator, in the order of the terms and with the spans they had. -/
theorem resolve_keeps_every_term {terms : List Term} {s : ParseState} {a b : Nat}
    (filled : ∀ written, .operators written ∈ terms → written.parts ≠ [])
    (lined : s.forest.LinedUp a (terms.flatMap Term.held) b) :
    Ends (resolve terms) s
      (fun found t => (found = none ↔ terms = []) ∧ ∀ root ∈ found,
        t.forest.leaves (Term.given terms) root = terms.flatMap (Term.leaves s.forest))
      (fun _ _ => False) := by
  have fresh : ∀ owner part, s.forest.size ≤ owner → ¬ s.forest.Owns owner part :=
    fun owner part above owns => Nat.not_lt_of_le above (Forest.owner_lt_size owns)
  have carrying := Carrying.ofTerms lined fresh
  have grip := Carrying.grip s.forest.size (Term.given terms) (terms.flatMap (Term.leaves s.forest)) a b
  have alone : Carrying s.forest.size (Term.given terms) (terms.flatMap (Term.leaves s.forest)) a b
      s.forest ([] ++ terms.flatMap Term.held) := carrying
  have resolved := grip.ends_resolve filled alone
  refine resolved.imp ?_ fun _ _ never => never
  rintro found t ⟨_, ⟨rfl, none, _⟩ | ⟨root, rfl, some, carrying, _⟩⟩
  · exact ⟨by simp [none], by simp⟩
  · refine ⟨by simp [some], fun other isRoot => ?_⟩
    cases isRoot
    simpa [Held.leaves] using carrying.leaves

section Sample

/-- The terms of `x++-y`, with an item at the end that is no operand. -/
def strayTerms : List Term :=
  [.operand 0, .operators (eitherAt "++" .prefixOp .postfixOp 1),
    .operators (eitherAt "-" .prefixOp .binary 3), .stray 1]

/-- Two operators that find no place and an item without one are all in the series. -/
theorem stray_terms_in_series :
    (∀ written, .operators written ∈ strayTerms → written.parts ≠ []) ∧
      (∃ a b, sampleTermsState.forest.LinedUp a (strayTerms.flatMap Term.held) b) ∧
      ∃ root t, resolve strayTerms sampleTermsState = .ok (some root) t ∧
        t.forest.leaves [0, 1] root = [.item 0 0 1, .token .operatorNamePart "++" 1 3,
          .token .operatorNamePart "-" 3 4, .item 1 4 5] := by
  have filled : ∀ written, .operators written ∈ strayTerms → written.parts ≠ [] := by
    simp [strayTerms, eitherAt]
  have lined := holding_sampleTerms.lined
  have ends := fun (s : ParseState) (lined : s.forest.LinedUp 0 (strayTerms.flatMap Term.held) 5) =>
    (resolve_keeps_every_term filled lined).exists_ok
  obtain ⟨found, t, run, nothing, kept⟩ := ends sampleTermsState lined
  obtain ⟨root, rfl⟩ := Option.ne_none_iff_exists'.mp (mt nothing.mp (by simp [strayTerms]))
  exact ⟨filled, ⟨_, _, lined⟩, root, t, run, (kept root rfl).trans (by decide +kernel)⟩

end Sample

end Parse

end ExprLang
