import ExprLang.Proofs.Forest.Lined
import ExprLang.Proofs.Parse.Holding

/-!
What new items and new links do to the row. A token takes its place in the row, an item without
parts is put in where its parts stand, and attaching makes one item of two neighbours.
-/

namespace ExprLang

open Held (item hollow word ids)

namespace ParseState

variable {grammar : Grammar} {full : Prop} {base s t : ParseState} {row left right : List Held}
  {a b c : Nat}

/-- The state with another forest. -/
def withForest (s : ParseState) (forest : Forest) : ParseState := { s with forest }

/-- A link takes its part out of what is held. -/
theorem Keeping.linked {row' : List Held} {owner part : Nat} {place : Section} {isChild : Bool}
    (keeping : Keeping grammar full base s row b) (attachable : s.forest.Attachable owner part)
    (regular : isChild = true → place = .regular) (fits : s.forest.Fits owner part place)
    (firm : s.forest.start part < s.forest.stop part ∨ s.forest.IsCustom owner)
    (split : (ids row).Perm (part :: ids row')) (ownerMember : owner ∈ ids row')
    (sameSpans : Held.wordSpans row' = Held.wordSpans row)
    (sameWords : ∀ start text, word start text ∈ row' → word start text ∈ row) :
    Keeping grammar full base (s.withForest (s.forest.link owner part place isChild)) row' b := by
  have once := (split.nodup_iff).mp keeping.once
  have member : ∀ id, id ∈ ids row' ↔ id ∈ ids row ∧ id ≠ part := by
    intro id
    rw [split.mem_iff, List.mem_cons]
    have absent := (List.nodup_cons.mp once).1
    grind
  have partMember : part ∈ ids row := split.mem_iff.mpr List.mem_cons_self
  have newOwner := ((keeping.held owner).mp ((member owner).mp ownerMember).1).1
  have newPart := ((keeping.held part).mp partMember).1
  have sound := Forest.sound_link keeping.sound attachable regular fits firm
  refine ⟨⟨keeping.text, keeping.markers, sound, ?_, ?_, keeping.logged, keeping.heard⟩, keeping.ready,
    ?_, ?_, ?_, ?_, ?_⟩
  · simpa only [withForest, Forest.size_link] using keeping.size
  · intro id inside
    refine (Forest.get_link_other ?_ ?_).trans (keeping.old id inside) <;> omega
  · intro id
    rw [member, keeping.held]
    simp only [withForest, Forest.size_link]
    by_cases isPart : id = part
    · subst isPart
      simp [Forest.parent_link_item attachable.inside]
    · rw [Forest.parent_link_other isPart]
      simp [isPart]
  · exact (List.nodup_cons.mp once).2
  · intro strict
    have before := keeping.strict strict
    refine ⟨before.exact.link attachable.different, before.named.link attachable.different, ?_,
      before.mild, before.located⟩
    exact fun id custom => before.plain id (Forest.isCustom_link.mp custom)
  · exact fun strict start text isWord => keeping.spelled strict start text (sameWords start text isWord)
  · intro strict
    obtain ⟨pieces, tally⟩ := keeping.tally strict
    refine ⟨pieces, tally.of_perm (List.Perm.of_eq ?_) rfl rfl⟩
    simp [ParseState.pieces, withForest, Forest.tokenSpans_link attachable.different, sameSpans]

namespace Holding

theorem lined (holding : Holding grammar full base s row b) :
    s.forest.LinedUp base.cursor.position row b where
  linked := holding.sound.linked
  known id member := ((holding.held id).mp member).2.1
  free id member := ((holding.held id).mp member).2.2
  once := holding.once
  placed := holding.placed

/-- A new item gets a place in the row. -/
theorem pushed {new : Item} {row' : List Held} (holding : Holding grammar full base s row b)
    (bare : new.parts = {}) (free : new.parent = none)
    (idsNew : (ids row').Perm (s.forest.size :: ids row))
    (placed : (s.forest.push new).2.Row base.cursor.position row' c)
    (strict : full → (s.withForest (s.forest.push new).2).Strict grammar)
    (spelled : full → ∀ start text, word start text ∈ row' →
      text = base.cursor.text.slice start (start + text.length))
    (tally : full → ∃ pieces,
      Tally grammar base (s.withForest (s.forest.push new).2) row' pieces c) :
    Holding grammar full base (s.withForest (s.forest.push new).2) row' c where
  text := holding.text
  markers := holding.markers
  sound := Forest.sound_push holding.sound bare free
  size := by
    have size := holding.size
    simp only [withForest, Forest.size_push]
    omega
  old id inside := by
    have size := holding.size
    exact (Forest.get_push_old new (by omega)).trans (holding.old id inside)
  logged := holding.logged
  heard := holding.heard
  ready := holding.ready
  held id := by
    have size := holding.size
    simp only [withForest, Forest.size_push, Forest.parent_push free]
    rw [idsNew.mem_iff, List.mem_cons, holding.held]
    constructor
    · rintro (rfl | ⟨new, inside, detached⟩)
      · refine ⟨size, Nat.lt_succ_self _, ?_⟩
        simp [Forest.parent?, Forest.get?, Forest.size]
      · exact ⟨new, Nat.lt_succ_of_lt inside, detached⟩
    · rintro ⟨new, inside, detached⟩
      by_cases isNew : id = s.forest.size
      · exact Or.inl isNew
      · exact Or.inr ⟨new, by omega, detached⟩
  once := by
    rw [idsNew.nodup_iff]
    refine List.nodup_cons.mpr ⟨?_, holding.once⟩
    intro member
    exact Nat.lt_irrefl _ ((holding.held _).mp member).2.1
  placed := placed
  strict := strict
  spelled := spelled
  tally := tally

variable {kind : TokenKind} {text : String} {start : Nat}

theorem strict_token (strict : s.Strict grammar) (filled : 0 < text.length)
    (same : text = s.cursor.text.slice start (start + text.length))
    (nameable : kind = .name → grammar.Nameable s.cursor.text s.faults start) :
    (s.withForest (s.forest.createToken kind text start).2).Strict grammar where
  exact := by
    refine strict.exact.push ?_
    intro otherKind word isToken
    cases isToken
    exact ⟨filled, rfl, same⟩
  named := by
    refine strict.named.push ?_
    intro otherKind word isToken
    cases isToken
    exact nameable
  plain := Forest.plain_push strict.plain (by simp)
  mild := strict.mild
  located := strict.located

/-- A token behind all that is held. -/
theorem token (kind : TokenKind) (holding : Holding grammar full base s row b) (behind : b ≤ start)
    (filled : 0 < text.length)
    (here : full → b = start ∧ grammar.comments.gapEnd base.cursor.text b = b ∧
      text = base.cursor.text.slice start (start + text.length))
    (nameable : full → kind = .name → grammar.Nameable base.cursor.text s.faults start) :
    Holding grammar full base (s.withForest (s.forest.createToken kind text start).2)
      (row ++ [item s.forest.size]) (start + text.length) := by
  have sound := holding.sound
  refine holding.pushed rfl rfl ?_ ?_ ?_ ?_ ?_
  · rw [Held.ids_append]
    exact List.perm_append_comm
  · refine Forest.row_append.mpr ⟨b, Forest.row_push sound.linked rfl rfl holding.placed ?_, ?_⟩
    · exact fun id member => holding.size_pos_of_mem member
    · exact Forest.row_createToken kind sound.linked behind filled
  · intro strict
    rw [← holding.text] at here nameable
    exact strict_token (holding.strict strict) filled (here strict).2.2 (nameable strict)
  · intro strict other word member
    rcases List.mem_append.mp member with old | new
    · exact holding.spelled strict other word old
    · simp at new
  · intro strict
    obtain ⟨pieces, tally⟩ := holding.tally strict
    obtain ⟨rfl, settled, same⟩ := here strict
    refine ⟨_, tally.snoc settled (Nat.lt_add_of_pos_right filled) (Text.inside_of_slice filled same)
      (by simp [CommentMarkers.commentsFrom_of_settled settled]) ?_ rfl rfl⟩
    simp only [ParseState.pieces, withForest, Forest.tokenSpans_push, Item.tokenSpan?, Item.isToken,
      ItemKind.isToken, if_true, Option.toList_some, Held.wordSpans_append, Held.wordSpans_item,
      Held.wordSpans_nil, List.append_nil, List.append_assoc]
    refine List.Perm.append_left _ ?_
    rw [← List.append_assoc s.faults.pieces]
    exact List.perm_append_comm

/-- A word of the row gets its token. -/
theorem wordToken (kind : TokenKind) (holding : Holding grammar full base s (left ++ word start text :: right) b)
    (other : kind ≠ .name) :
    Holding grammar full base (s.withForest (s.forest.createToken kind text start).2)
      (left ++ item s.forest.size :: right) b := by
  obtain ⟨_, _, _, filled, _⟩ := Forest.row_append.mp holding.placed
  refine holding.pushed rfl rfl ?_ (holding.lined.named kind).placed ?_ ?_ ?_
  · simp only [Held.ids_append, Held.ids_item, Held.ids_word]
    exact List.perm_middle
  · intro strict
    refine strict_token (holding.strict strict) filled ?_ fun isName => absurd isName other
    rw [holding.text]
    exact holding.spelled strict start text (by simp)
  · intro strict other word member
    refine holding.spelled strict other word ?_
    rcases List.mem_append.mp member with inLeft | inRight
    · exact List.mem_append_left _ inLeft
    · rcases List.mem_cons.mp inRight with isItem | later
      · cases isItem
      · exact List.mem_append_right _ (List.mem_cons_of_mem _ later)
  · intro strict
    obtain ⟨pieces, tally⟩ := holding.tally strict
    refine ⟨pieces, tally.of_perm ?_ rfl rfl⟩
    simp only [ParseState.pieces, withForest, Forest.tokenSpans_push, Item.tokenSpan?, Item.isToken,
      ItemKind.isToken, if_true, Option.toList_some, Held.wordSpans_append, Held.wordSpans_item,
      Held.wordSpans_word, List.append_assoc]
    refine List.Perm.append_left _ ?_
    rw [← List.append_assoc s.faults.pieces, ← List.append_assoc s.faults.pieces, List.singleton_append]
    exact List.perm_middle.symm

/-- A new item without parts is put in between. -/
theorem hollowed (left right : List Held) (kind : ItemKind) (start : Nat)
    (holding : Holding grammar full base s (left ++ right) b)
    (complex : kind.isToken = false)
    (other : full → ∀ category trigger name accepts, kind ≠ .custom category trigger name accepts)
    (ahead : s.forest.Row base.cursor.position left start) (behind : s.forest.Row start right b) :
    Holding grammar full base (s.withForest (s.forest.create kind start).2)
      (left ++ .hollow s.forest.size :: right) b := by
  have placed := (holding.lined.hollowed complex ahead behind).placed
  have spans : (s.forest.create kind start).2.tokenSpans = s.forest.tokenSpans :=
    Forest.tokenSpans_create complex start
  rw [Forest.create_complex complex] at placed spans ⊢
  refine holding.pushed rfl rfl ?_ placed ?_ ?_ ?_
  · simp only [Held.ids_append, Held.ids_hollow]
    exact List.perm_middle
  · intro strict
    have before := holding.strict strict
    exact ⟨before.exact.push_complex complex, before.named.push_complex complex,
      Forest.plain_push before.plain (other strict), before.mild, before.located⟩
  · intro strict other word member
    refine holding.spelled strict other word ?_
    rcases List.mem_append.mp member with inLeft | inRight
    · exact List.mem_append_left _ inLeft
    · rcases List.mem_cons.mp inRight with isHollow | later
      · cases isHollow
      · exact List.mem_append_right _ later
  · intro strict
    obtain ⟨pieces, tally⟩ := holding.tally strict
    refine ⟨pieces, tally.of_perm (List.Perm.of_eq ?_) rfl rfl⟩
    simp [ParseState.pieces, withForest, spans]

/-- A word that has no token yet, behind all that is held. -/
theorem spell (holding : Holding grammar full base s row b)
    (here : grammar.comments.gapEnd base.cursor.text b = start) (filled : 0 < text.length)
    (same : text = base.cursor.text.slice start (start + text.length))
    (silent : ∀ comment ∈ grammar.comments.commentsFrom base.cursor.text b,
      grammar.BetweenWords base.cursor.text comment) :
    Holding grammar full base s (row ++ [word start text]) (start + text.length) where
  toKept := holding.toKept
  ready := holding.ready
  held id := by
    simpa using holding.held id
  once := by simpa using holding.once
  strict := holding.strict
  spelled strict other word member := by
    rcases List.mem_append.mp member with old | new
    · exact holding.spelled strict other word old
    · cases List.mem_singleton.mp new
      exact same
  tally strict := by
    obtain ⟨pieces, tally⟩ := holding.tally strict
    refine ⟨_, tally.snoc here (Nat.lt_add_of_pos_right filled) (Text.inside_of_slice filled same)
      silent (List.Perm.of_eq ?_) rfl rfl⟩
    simp [ParseState.pieces]
  placed := by
    refine Forest.row_append.mpr ⟨b, holding.placed, ?_, filled, Nat.le_refl _⟩
    rw [← here]
    exact CommentMarkers.le_gapEnd

/-- The words of an operator, one behind the other. -/
theorem spellAll {words : List (Nat × String)} (holding : Holding grammar full base s row b)
    (written : grammar.comments.Spelled base.cursor.text b words c)
    (first : words ≠ [] → ∀ comment ∈ grammar.comments.commentsFrom base.cursor.text b,
      grammar.BetweenWords base.cursor.text comment)
    (others : ∀ part ∈ words.dropLast,
      ∀ comment ∈ grammar.comments.commentsFrom base.cursor.text (part.1 + part.2.length),
        grammar.BetweenWords base.cursor.text comment) :
    Holding grammar full base s (row ++ words.map fun part => word part.1 part.2) c := by
  induction words generalizing row b with
  | nil =>
      obtain rfl : b = c := written
      simpa using holding
  | cons part rest ih =>
      obtain ⟨gap, filled, _, same, later⟩ := written
      have spelled := holding.spell gap filled same (first (List.cons_ne_nil _ _))
      have rests := ih spelled later (fun more => others part ?_) fun other member => others other ?_
      · simpa using rests
      · rw [List.dropLast_cons_of_ne_nil more]
        exact List.mem_cons_self
      · rw [List.dropLast_cons_of_ne_nil (by rintro rfl; cases member)]
        exact List.mem_cons_of_mem _ member

section Link

variable {owner part : Nat} {place : Section} {isChild : Bool} {block : List Held}

/-- A link makes one item of a block of the row. -/
theorem linked (holding : Holding grammar full base s (left ++ block ++ right) b)
    (attachable : s.forest.Attachable owner part) (regular : isChild = true → place = .regular)
    (fits : s.forest.Fits owner part place)
    (firm : s.forest.start part < s.forest.stop part ∨ s.forest.IsCustom owner)
    (idsBlock : (ids block).Perm [owner, part]) (noWords : Held.wordSpans block = [])
    (placed : (s.forest.link owner part place isChild).Row base.cursor.position
      (left ++ item owner :: right) b) :
    Holding grammar full base (s.withForest (s.forest.link owner part place isChild))
      (left ++ item owner :: right) b := by
  refine ⟨holding.toKeeping.linked attachable regular fits firm (Forest.LinedUp.split idsBlock) ?_ ?_ ?_,
    placed⟩
  · simp
  · simp [noWords]
  · intro start text isWord
    simp only [List.mem_append, List.mem_cons, reduceCtorEq, false_or] at isWord ⊢
    grind

/-- An item can be attached to what stands in front of it in the row. -/
theorem attachable_behind {held : Held}
    (holding : Holding grammar full base s (left ++ [held, item part] ++ right) b)
    (isOwner : held.id? = some owner) (isOpen : s.forest.Open place owner) :
    s.forest.Attachable owner part ∧ s.forest.Fits owner part place := by
  have sound := holding.sound
  refine ⟨holding.lined.attachable_behind isOwner isOpen.complex,
    Forest.fits_behind sound.linked isOpen.last (fun last owns => ?_)
      (holding.lined.part_behind isOwner).1⟩
  exact (sound.firm owner last owns).resolve_right isOpen.not_custom

/-- A part that stands behind its owner in the row becomes its last one. -/
theorem link_behind {held : Held}
    (holding : Holding grammar full base s (left ++ [held, item part] ++ right) b)
    (isOwner : held.id? = some owner) (attachable : s.forest.Attachable owner part)
    (fits : s.forest.Fits owner part place) (isLast : (s.forest.parts owner).beyond place = [])
    (regular : isChild = true → place = .regular) :
    Holding grammar full base (s.withForest (s.forest.link owner part place isChild))
      (left ++ item owner :: right) b := by
  refine holding.linked attachable regular fits (Or.inl (holding.lined.part_behind isOwner).2)
    (List.Perm.of_eq (Forest.LinedUp.ids_pair isOwner)) ?_
    (holding.lined.link_behind isOwner attachable isLast regular).placed
  cases held <;> cases isOwner <;> rfl

/-- An owner takes the item that stands behind it in the row. -/
theorem attach_behind {held : Held}
    (holding : Holding grammar full base s (left ++ [held, item part] ++ right) b)
    (isOwner : held.id? = some owner) (isOpen : s.forest.Open place owner)
    (regular : isChild = true → place = .regular) :
    s.forest.attach owner part place isChild = .ok (s.forest.link owner part place isChild) ∧
      Holding grammar full base (s.withForest (s.forest.link owner part place isChild))
        (left ++ item owner :: right) b := by
  obtain ⟨attachable, fits⟩ := holding.attachable_behind isOwner isOpen
  exact ⟨Forest.attach_of_fits _ attachable fits,
    holding.link_behind isOwner attachable fits isOpen.last regular⟩

/-- An owner without parts takes the item that stands before it in the row. -/
theorem attach_front
    (holding : Holding grammar full base s (left ++ [item part, .hollow owner] ++ right) b)
    (regular : isChild = true → place = .regular) :
    owner ≠ part ∧
      s.forest.attach owner part place isChild = .ok (s.forest.link owner part place isChild) ∧
      Holding grammar full base (s.withForest (s.forest.link owner part place isChild))
        (left ++ item owner :: right) b := by
  have attachable := holding.lined.attachable_front
  have fits := Forest.fits_hollow holding.lined.hollow_stands.1 part place
  have inRow : item part ∈ left ++ [item part, .hollow owner] ++ right := by simp
  have firm : s.forest.start part < s.forest.stop part := (holding.placed.inside inRow).2.1
  exact ⟨attachable.different, Forest.attach_of_fits _ attachable fits,
    holding.linked attachable regular fits (Or.inl firm) (List.Perm.swap _ _ _) rfl
      (holding.lined.link_front regular).placed⟩

end Link

/-- A new kind changes nothing in the row. -/
theorem recast {id : Nat} {change : ItemKind → ItemKind}
    (holding : Holding grammar full base s row b) (new : base.forest.size ≤ id)
    (recast : s.forest.Recast id change) :
    Holding grammar full base
      (s.withForest (s.forest.modify id fun item => { item with kind := change item.kind })) row b where
  text := holding.text
  markers := holding.markers
  sound := recast.sound holding.sound
  size := by simpa only [withForest, Forest.size_modify] using holding.size
  old other inside := by
    rw [← holding.old other inside]
    simp only [withForest, Forest.get_modify]
    rw [if_neg (by omega)]
  logged := holding.logged
  heard := holding.heard
  ready := holding.ready
  held other := by
    simp only [withForest, Forest.size_modify, Forest.parent_changeKind]
    exact holding.held other
  once := holding.once
  placed := recast.row holding.sound holding.placed
  strict strict := by
    have before := holding.strict strict
    refine ⟨before.exact.recast recast, before.named.recast recast, ?_, before.mild, before.located⟩
    exact fun other custom => before.plain other (recast.isCustom.mp custom)
  spelled := holding.spelled
  tally strict := by
    obtain ⟨pieces, tally⟩ := holding.tally strict
    refine ⟨pieces, tally.of_perm (List.Perm.of_eq ?_) rfl rfl⟩
    simp only [ParseState.pieces, withForest, recast.tokenSpans]

end Holding

end ParseState

end ExprLang
