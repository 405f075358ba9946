import ExprLang.Parse.Segment
import ExprLang.Proofs.Forest.Grafting
import ExprLang.Proofs.Parse.Combining

/-!
Prefixes and keywords. They are attached when what they stand before is whole, so its span grows to
the front while they are still in the row; only behind the last of them the row is in text order
again.
-/

namespace ExprLang

open Held (item hollow word ids)

def Modifiers.held (modifiers : Modifiers) : List Held :=
  (modifiers.prefixes ++ modifiers.keywords).map item

/-- There is a place in front of all parts of an item for these modifiers. -/
structure Forest.Fresh (forest : Forest) (modifiers : Modifiers) (owner : Nat) : Prop where
  complex : ∃ found, forest.get? owner = some found ∧ found.isToken = false
  noPrefixes : (forest.parts owner).prefixes = []
  keywords : modifiers.keywords = [] ∨ (forest.parts owner).keywords = []

theorem Forest.Bare.fresh {forest : Forest} {owner : Nat} (bare : forest.Bare owner)
    (modifiers : Modifiers) : forest.Fresh modifiers owner :=
  ⟨bare.toOpen.complex, bare.noPrefixes, Or.inr bare.noKeywords⟩

namespace ParseState

variable {grammar : Grammar} {full : Prop} {base s t : ParseState} {row row' left right : List Held}
  {b : Nat} {owner : Nat} {place : Section} {isChild : Bool} {rest : List Nat}

/-- The same things in the hands in another order. -/
theorem Keeping.reorder (keeping : Keeping grammar full base s row b)
    (split : (ids row).Perm (ids row')) (sameSpans : Held.wordSpans row' = Held.wordSpans row)
    (sameWords : ∀ start text, word start text ∈ row' → word start text ∈ row) :
    Keeping grammar full base s row' b where
  toKept := keeping.toKept
  ready := keeping.ready
  held id := by
    rw [← split.mem_iff]
    exact keeping.held id
  once := split.nodup_iff.mp keeping.once
  strict := keeping.strict
  spelled strict start text isWord := keeping.spelled strict start text (sameWords start text isWord)
  tally strict := by
    obtain ⟨pieces, tally⟩ := keeping.tally strict
    refine ⟨pieces, tally.of_perm (List.Perm.of_eq ?_) rfl rfl⟩
    rw [ParseState.pieces, sameSpans, ParseState.pieces]

/-- Links take their parts out of what is held. -/
theorem Keeping.linkAll (row' : List Held) (keeping : Keeping grammar full base s row b)
    (awaits : s.forest.Awaits owner place rest) (regular : isChild = true → place = .regular)
    (split : (ids row).Perm (rest ++ ids row')) (ownerMember : owner ∈ ids row')
    (sameSpans : Held.wordSpans row' = Held.wordSpans row)
    (sameWords : ∀ start text, word start text ∈ row' → word start text ∈ row) :
    Keeping grammar full base (s.withForest (Forest.linkAll owner place isChild rest s.forest)) row' b := by
  induction rest generalizing s row with
  | nil => exact keeping.reorder split sameSpans sameWords
  | cons part rest ih =>
      have firm := awaits.firm part List.mem_cons_self
      have without : (ids row).Perm (part :: ids (rest.map item ++ row')) := by
        simpa using split
      have next := keeping.linked awaits.attachable regular awaits.fits firm without
        (by simp [ownerMember]) (by simp [sameSpans]) (by simpa using sameWords)
      exact ih next (awaits.next keeping.sound regular) (by simp) (by simp) (by simp)

end ParseState

open ParseState

namespace Parse

variable {grammar : Grammar} {full : Prop} {base s t : ParseState} {left right : List Held} {b : Nat}
  {owner : Nat} {place : Section} {isChild : Bool} {rest : List Nat} {modifiers : Modifiers}

/-- Where there is room nothing is refused. -/
theorem ends_attachOr {refused : AttachError → Parse Unit} {part : Nat}
    (awaits : t.forest.Awaits owner place (part :: rest)) :
    Ends (attachOr refused (·.attach owner part place isChild)) t
      (fun _ u => u = t.withForest (t.forest.link owner part place isChild)) (fun _ _ => False) := by
  have accepted := Forest.attach_of_fits isChild awaits.attachable awaits.fits
  unfold attachOr
  simp only [ends_forest_bind, accepted]
  exact ends_ok rfl rfl

theorem ends_attachEach {refused : AttachError → Parse Unit} (sound : t.forest.Sound)
    (awaits : t.forest.Awaits owner place rest) (regular : isChild = true → place = .regular) :
    Ends (rest.forM fun part => attachOr refused (·.attach owner part place isChild)) t
      (fun _ u => u = t.withForest (Forest.linkAll owner place isChild rest t.forest))
      (fun _ _ => False) := by
  induction rest generalizing t with
  | nil => exact ends_pure rfl
  | cons part rest ih =>
      have grafted := awaits.grafted sound regular
      rw [List.forM]
      refine (ends_attachOr awaits).bind ?_ fun _ _ never => never
      rintro _ u rfl
      exact ih grafted.sound (awaits.next sound regular)

/-- What stands in a row in front of an item stands before all its parts. -/
theorem laid_front {forest : Forest} {front : List Nat} (sound : forest.Sound)
    (laid : (front ++ [owner]).Pairwise forest.Before) :
    (front ++ (forest.parts owner).all).Pairwise forest.Before := by
  obtain ⟨ahead, _, across⟩ := List.pairwise_append.mp laid
  refine List.pairwise_append.mpr ⟨ahead, sound.laid owner, fun x inFront part isPart => ?_⟩
  have before := across x inFront owner (by simp)
  have covers := (Forest.span_of_part sound.linked sound.laid isPart).1
  exact ⟨Nat.lt_of_lt_of_le before.1 covers, Nat.le_trans before.2 covers⟩

/-- Prefixes go in front of all parts, and keywords behind them. -/
theorem awaits_front {forest : Forest} {prefixes keywords : List Nat} (sound : forest.Sound)
    (fresh : forest.Fresh ⟨prefixes, keywords⟩ owner) (freeOwner : forest.parent? owner = none)
    (free : ∀ part ∈ prefixes ++ keywords, part < forest.size ∧ part ≠ owner ∧
      forest.parent? part = none ∧ forest.start part < forest.stop part)
    (laid : (prefixes ++ keywords ++ [owner]).Pairwise forest.Before) :
    forest.Awaits owner .prefixes prefixes ∧
      (Forest.linkAll owner .prefixes false prefixes forest).Awaits owner .keywords keywords := by
  have whole := laid_front sound laid
  have same := Forest.Grafted.refl sound owner
  have notOwner : ∀ {row : List Nat}, (∀ part ∈ row, part ∈ prefixes ++ keywords) → owner ∉ row :=
    fun inside member => (free owner (inside owner member)).2.1 rfl
  have first : forest.Awaits owner .prefixes prefixes := by
    refine same.awaits fresh.complex freeOwner List.not_mem_nil ?_ ?_ ?_
    · intro part member
      obtain ⟨inside, different, free, _⟩ := free part (List.mem_append_left _ member)
      exact ⟨inside, different, List.not_mem_nil, free⟩
    · have parts : (forest.parts owner).all = (forest.parts owner).beyond .prefixes := by
        rw [Parts.all_eq _ .prefixes]
        simp [Parts.upTo, fresh.noPrefixes]
      rw [Parts.upTo, fresh.noPrefixes, List.nil_append, ← parts]
      exact whole.sublist ((List.sublist_append_left prefixes keywords).append (List.Sublist.refl _))
    · exact fun part member => Or.inl (free part (List.mem_append_left _ member)).2.2.2
  have noChild : false = true → Section.prefixes = .regular := by rintro ⟨⟩
  have grafted := same.linkAll first noChild
  rw [List.nil_append] at grafted
  have inside : owner < forest.size := by
    obtain ⟨found, here, _⟩ := fresh.complex
    exact Forest.get_lt_size here
  -- The prefixes are the only part that has changed, so the keywords still come next.
  have front : ((Forest.linkAll owner .prefixes false prefixes forest).parts owner).prefixes =
      prefixes := by
    have upTo := Forest.upTo_linkAll .prefixes false prefixes inside
    simpa [Parts.upTo, fresh.noPrefixes] using upTo
  have others : ∀ other, other ≠ Section.prefixes →
      ((Forest.linkAll owner .prefixes false prefixes forest).parts owner).get other =
        (forest.parts owner).get other := fun other different =>
    Forest.get_linkAll_of_ne inside different
  have old : ((Forest.linkAll owner .prefixes false prefixes forest).parts owner).keywords =
      (forest.parts owner).keywords := others .keywords (by rintro ⟨⟩)
  have regular : ((Forest.linkAll owner .prefixes false prefixes forest).parts owner).regular =
      (forest.parts owner).regular := others .regular (by rintro ⟨⟩)
  have postfixes : ((Forest.linkAll owner .prefixes false prefixes forest).parts owner).postfixes =
      (forest.parts owner).postfixes := others .postfixes (by rintro ⟨⟩)
  refine ⟨first, grafted.awaits fresh.complex freeOwner ?_ ?_ ?_ ?_⟩
  · exact notOwner fun part member => List.mem_append_left _ member
  · intro part member
    obtain ⟨inside, different, freePart, _⟩ := free part (List.mem_append_right _ member)
    refine ⟨inside, different, fun isPrefix => ?_, freePart⟩
    have ahead := (List.pairwise_append.mp laid).1
    have before := (List.pairwise_append.mp ahead).2.2 part isPrefix part member
    exact Nat.lt_irrefl _ before.1
  -- The items of the owner and its new keywords stand in the order of the text.
  · have row : prefixes ++ (forest.parts owner).keywords ++ keywords ++
        ((forest.parts owner).regular ++ (forest.parts owner).postfixes) =
          prefixes ++ keywords ++ (forest.parts owner).all := by
      have either : keywords = [] ∨ (forest.parts owner).keywords = [] := fresh.keywords
      rcases either with none | none <;> simp [Parts.all, fresh.noPrefixes, none]
    simp only [Parts.upTo, Parts.beyond, front, old, regular, postfixes, row]
    exact whole
  · exact fun part member => Or.inl (free part (List.mem_append_right _ member)).2.2.2

theorem ends_attachModifiers (left : List Held) (fresh : t.forest.Fresh modifiers owner)
    (holding : Holding grammar full base t (left ++ modifiers.held ++ [item owner]) b) :
    Ends (attachModifiers owner modifiers) t
      (fun _ u => Holding grammar full base u (left ++ [item owner]) b ∧ u.cursor = t.cursor ∧
        u.forest.kind? owner = t.forest.kind? owner)
      (fun _ _ => False) := by
  obtain ⟨prefixes, keywords⟩ := modifiers
  obtain ⟨m, ahead, behind⟩ := Forest.row_append.mp (by simpa using holding.placed :
    t.forest.Row base.cursor.position (left ++ (Modifiers.held ⟨prefixes, keywords⟩ ++ [item owner])) b)
  have sound := holding.sound
  have inRow : t.forest.Row m ((prefixes ++ keywords ++ [owner]).map item) b := by
    simpa [Modifiers.held] using behind
  have nodup : (ids left ++ (prefixes ++ keywords) ++ [owner]).Nodup := by
    simpa [Modifiers.held] using holding.once
  have ownerFree := ((holding.held owner).mp (by simp)).2.2
  have free : ∀ part ∈ prefixes ++ keywords, part < t.forest.size ∧ part ≠ owner ∧
      t.forest.parent? part = none ∧ t.forest.start part < t.forest.stop part := by
    intro part member
    have inIds : part ∈ ids (left ++ Modifiers.held ⟨prefixes, keywords⟩ ++ [item owner]) := by
      simp only [Held.ids_append, Modifiers.held, Held.ids_map_item]
      exact List.mem_append_left _ (List.mem_append_right _ member)
    obtain ⟨_, inside, free⟩ := (holding.held part).mp inIds
    refine ⟨inside, ?_, free, ?_⟩
    · exact (List.nodup_append.mp nodup).2.2 part (List.mem_append_right _ member) owner (by simp)
    · exact (inRow.inside (List.mem_map_of_mem (f := item) (List.mem_append_left _ member))).2.1
  obtain ⟨first, second⟩ := awaits_front sound fresh ownerFree free inRow.laid
  have noChild : ∀ {place : Section}, false = true → place = .regular := nofun
  have grafted := (Forest.Grafted.refl sound owner).linkAll first noChild
  have both := grafted.linkAll second noChild
  unfold attachModifiers
  refine (ends_attachEach sound first noChild).bind ?_ fun _ _ never => never
  rintro _ u rfl
  refine (ends_attachEach grafted.sound second noChild).imp ?_ fun _ _ never => never
  rintro _ u rfl
  -- The two sections are filled one after the other, and the row loses what they take.
  have keeping := holding.toKeeping.linkAll
    (left ++ keywords.map item ++ [item owner]) first noChild
    (by simpa [Modifiers.held] using List.perm_append_comm_assoc _ _ _) (by simp)
    (by simp [Modifiers.held]) (by simp [Modifiers.held])
  have keepingBoth := keeping.linkAll (left ++ [item owner]) second noChild
    (by simpa using List.perm_append_comm_assoc _ _ _) (by simp) (by simp) (by simp)
  refine ⟨⟨keepingBoth, ?_⟩, rfl, both.kinds owner⟩
  refine Forest.row_append.mpr ⟨m, both.row ahead ?_, ?_⟩
  · intro id inLeft
    exact (List.nodup_append.mp nodup).2.2 id (List.mem_append_left _ inLeft) owner (by simp)
  -- The item reaches back to its first modifier, if it has one.
  · cases modified : prefixes ++ keywords with
    | nil =>
        obtain ⟨rfl, rfl⟩ := List.append_eq_nil_iff.mp modified
        exact inRow
    | cons part more =>
        have inside : ∀ id ∈ prefixes ++ keywords ++ [owner],
            m ≤ t.forest.start id ∧ t.forest.start id < t.forest.stop id ∧ t.forest.stop id ≤ b :=
          fun id member => inRow.inside (List.mem_map_of_mem (f := item) member)
        have isPart : part ∈ prefixes ++ keywords := by
          rw [modified]
          exact List.mem_cons_self
        have old := inside owner (by simp)
        refine both.row_owner sound ⟨old.1, old.2.2⟩ (fun id member => ?_) ⟨part, by simpa using isPart, ?_⟩
        · have bounds := inside id (List.mem_append_left _ (by simpa using member))
          exact ⟨bounds.1, bounds.2.2⟩
        · exact (inside part (List.mem_append_left _ isPart)).2.1

/-- An item without parts takes the modifiers that stand behind it. -/
theorem ends_gather (left right : List Held) (filled : modifiers.prefixes ++ modifiers.keywords ≠ [])
    (holding : Holding grammar full base t (left ++ hollow owner :: modifiers.held ++ right) b)
    (isOpen : t.forest.Open .prefixes owner) (new : s.forest.size ≤ owner) (steady : Steady s t) :
    Ends (attachModifiers owner modifiers) t
      (fun _ u => Holding grammar full base u (left ++ item owner :: right) b ∧ u.cursor = s.cursor)
      (fun _ _ => False) := by
  obtain ⟨prefixes, keywords⟩ := modifiers
  have row : Holding grammar full base t
      (left ++ hollow owner :: prefixes.map item ++ (keywords.map item ++ right)) b := by
    simpa [Modifiers.held] using holding
  have grip := grip_holding grammar full base b
  unfold attachModifiers
  refine (grip.ends_attachAll left (keywords.map item ++ right) .prefixes false row rfl isOpen nofun
    (Nat.zero_le _) new steady).bind ?_ fun _ _ never => never
  rintro _ u ⟨held, isHeld, holding, stillOpen, steady, _⟩
  have isOwner : held.id? = some owner := by
    rcases isHeld with rfl | ⟨rfl, _⟩ <;> rfl
  have openBehind : u.forest.Open .keywords owner := by
    refine ⟨stillOpen.plain, ?_⟩
    have none : _ ++ _ ++ _ = [] := stillOpen.last
    rw [List.append_assoc] at none
    exact (List.append_eq_nil_iff.mp none).2
  have rowBehind : Holding grammar full base u (left ++ held :: keywords.map item ++ right) b := by
    simpa using holding
  refine (grip.ends_attachAll left right .keywords false rowBehind isOwner openBehind nofun
    (Nat.zero_le _) new steady).imp ?_ fun _ _ never => never
  rintro _ v ⟨later, isLater, holding, _, steady, _⟩
  obtain rfl : later = item owner := by
    rcases isLater with same | ⟨same, noKeywords⟩
    · exact same
    · rcases isHeld with isItem | ⟨_, noPrefixes⟩
      · exact same.trans isItem
      · exact absurd (List.append_eq_nil_iff.mpr ⟨noPrefixes, noKeywords⟩) filled
  exact ⟨holding, steady.cursor⟩

omit s t in
/-- From the first of the modifiers to the last one there is some way to go. -/
theorem among_of_modifiers {forest : Forest} {a first : Nat} {rest : List Nat} (left right : List Held)
    (placed : forest.Row a (left ++ modifiers.held ++ right) b)
    (split : modifiers.prefixes ++ modifiers.keywords = first :: rest) (cause : Fault.Cause) :
    Fault.Among forest (left ++ modifiers.held ++ right) ⟨forest.start first,
      ((first :: rest).getLast?.map forest.stop).getD (forest.start first) - forest.start first,
      cause, false⟩ := by
  have held : modifiers.held = (first :: rest).map item := by
    rw [Modifiers.held, split]
  obtain ⟨last, isLast⟩ : ∃ last, (first :: rest).getLast? = some last :=
    Option.isSome_iff_exists.mp (List.getLast?_isSome.mpr (List.cons_ne_nil first rest))
  rw [isLast, Option.map_some, Option.getD_some]
  obtain ⟨_, front, _⟩ := Forest.row_append.mp placed
  obtain ⟨_, _, part⟩ := Forest.row_append.mp front
  rw [held] at part
  have isEnd : ((first :: rest).map item).getLast? = some (item last) := by
    rw [List.getLast?_map, isLast, Option.map_some]
  have stands : forest.start first < forest.stop first := (part.inside List.mem_cons_self).2.1
  have forward : forest.start first < forest.stop last := part.lt_of_ends rfl isEnd stands
  constructor
  · refine ⟨item last, ?_, ?_⟩
    · rw [held]
      exact List.mem_append_left _ (List.mem_append_right _ (List.mem_of_getLast? isEnd))
    · rw [Fault.stop, Nat.add_sub_cancel' (Nat.le_of_lt forward)]
      exact Nat.le_refl _
  · exact fun _ => Nat.sub_pos_of_lt forward

/-- Modifiers without an operand become a series of their own. -/
theorem ends_misplaced (left right : List Held) (filled : modifiers.isEmpty = false)
    (holding : Holding grammar full base s (left ++ modifiers.held ++ right) b)
    (inside : full → b ≤ base.cursor.text.size) :
    Ends (misplaced modifiers) s
      (fun series t => Holding grammar full base t (left ++ item series :: right) b ∧
        t.cursor = s.cursor)
      (fun _ _ => False) := by
  have some : modifiers.prefixes ++ modifiers.keywords ≠ [] := by
    intro none
    obtain ⟨noPrefixes, noKeywords⟩ := List.append_eq_nil_iff.mp none
    simp [Modifiers.isEmpty, noPrefixes, noKeywords] at filled
  obtain ⟨first, rest, split⟩ := List.exists_cons_of_ne_nil some
  unfold misplaced
  simp only [ends_forest_bind, report, addFault, ends_modify_bind, ends_create_bind, split,
    List.head?_cons, Option.map_some, Option.getD_some]
  have plain : ItemKind.series.isPlain = true := rfl
  have quiet : Fault.Cause.invalidUseOfPrefixesOrKeywords.Quiet := by
    simp [Fault.Cause.Quiet, Fault.Cause.code]
  have among := among_of_modifiers left right holding.placed split .invalidUseOfPrefixesOrKeywords
  have noted := holding.fault _ _ quiet fun strict => holding.located (inside strict) among
  have inRow : left ++ modifiers.held ++ right = left ++ item first :: (rest.map item ++ right) := by
    simp [Modifiers.held, split]
  rw [inRow] at noted
  have between := (grip_holding grammar full base b).hollow_before left (rest.map item ++ right) plain noted rfl
  have isOpen := s.forest.open_of_create plain (s.forest.start first) .prefixes
  have gathered := ends_gather left right some (by simpa [Modifiers.held, split] using between) isOpen
    (Nat.le_refl _) (Steady.create _ rfl _)
  refine gathered.bind ?_ fun _ _ never => never
  rintro _ t ⟨holding, cursor⟩
  exact ends_pure ⟨holding, cursor⟩

end Parse

end ExprLang
