import ExprLang.Proofs.Parse.Attaching

/-!
Gaps and plain operands. Each step begins in a state from which the parser can go on and ends in one,
with what it has made in the row.
-/

namespace ExprLang

open Held (item hollow word ids)

theorem Constant.length_decode_le (escape : TextEscape) (quote : Char) (chars : List Char) :
    (decode escape quote chars).length ≤ chars.length := by
  fun_induction decode escape quote chars <;> simp_all [Constant.cons] <;> omega

namespace ParseState

/-- An item that was made since `base` and has no owner. -/
def Made (base s : ParseState) (id : Nat) : Prop :=
  base.forest.size ≤ id ∧ id < s.forest.size ∧ s.forest.parent? id = none

/-- All that was made since `base` lies between its position and the cursor, and what has no owner
lies apart. -/
structure Littered (base s : ParseState) : Prop extends Kept base s where
  within : ∀ id, base.forest.size ≤ id → id < s.forest.size →
    base.cursor.position ≤ s.forest.start id ∧ s.forest.stop id ≤ s.cursor.position
  apart : ∀ x y, Made base s x → Made base s y → x ≠ y →
    s.forest.stop x ≤ s.forest.start y ∨ s.forest.stop y ≤ s.forest.start x
  moved : base.cursor.position ≤ s.cursor.position
  inside : s.cursor.position ≤ s.cursor.text.size

/-- Where a step stops. A strict parse stops at an invalid symbol only. -/
structure Halted (grammar : Grammar) (full : Prop) (base s : ParseState) : Prop
    extends Littered base s where
  last : full → ∃ before symbol,
    s.faults = before ++ [⟨s.cursor.position, 1, .invalidSymbol symbol, true⟩] ∧
      ∀ fault ∈ before, fault.Mild
  named : full → s.forest.Tokens fun kind _ start _ =>
    kind = .name → grammar.Nameable s.cursor.text s.faults start
  located : full → ∀ fault ∈ s.faults, fault.Located s.cursor.text.size

/-- The row reaches up to the cursor. -/
structure Standing (grammar : Grammar) (full : Prop) (base s : ParseState) (row : List Held) :
    Prop extends Holding grammar full base s row s.cursor.position where
  within : s.cursor.position ≤ s.cursor.text.size

/-- The parser holds one new item, which has no prefixes and no keywords yet. -/
structure Built (grammar : Grammar) (full : Prop) (base s : ParseState) (id : Nat) : Prop
    extends Standing grammar full base s [item id] where
  bare : s.forest.Bare id

/-- No gap stands at the cursor. -/
def Settled (s : ParseState) : Prop :=
  s.cursor.markers.Settled s.cursor.text s.cursor.position

variable {grammar : Grammar} {full : Prop} {base s t u : ParseState} {row more : List Held} {a b c : Nat}

theorem Littered.trans (left : Littered base s) (right : Littered s t) : Littered base t where
  toKept := left.toKept.trans right.toKept
  within id new inside := by
    by_cases old : id < s.forest.size
    · obtain ⟨starts, stops⟩ := right.toKept.spans_old left.sound old
      obtain ⟨first, last⟩ := left.within id new old
      rw [starts, stops]
      exact ⟨first, Nat.le_trans last right.moved⟩
    · obtain ⟨first, last⟩ := right.within id (Nat.le_of_not_lt old) inside
      exact ⟨Nat.le_trans left.moved first, last⟩
  apart x y madeX madeY different := by
    have sides : ∀ {id : Nat}, Made base t id → (Made base s id ∧ t.forest.start id = s.forest.start id ∧
        t.forest.stop id = s.forest.stop id) ∨ Made s t id := by
      rintro id ⟨new, inside, free⟩
      by_cases old : id < s.forest.size
      · rw [right.toKept.parent_old old] at free
        exact Or.inl ⟨⟨new, old, free⟩, right.toKept.spans_old left.sound old⟩
      · exact Or.inr ⟨Nat.le_of_not_lt old, inside, free⟩
    rcases sides madeX with ⟨oldX, startX, stopX⟩ | newX
    · rcases sides madeY with ⟨oldY, startY, stopY⟩ | newY
      · rw [startX, stopX, startY, stopY]
        exact left.apart x y oldX oldY different
      · rw [stopX]
        have before := (left.within x oldX.1 oldX.2.1).2
        have behind := (right.within y newY.1 newY.2.1).1
        exact Or.inl (Nat.le_trans before behind)
    · rcases sides madeY with ⟨oldY, startY, stopY⟩ | newY
      · rw [stopY]
        have before := (left.within y oldY.1 oldY.2.1).2
        have behind := (right.within x newX.1 newX.2.1).1
        exact Or.inr (Nat.le_trans before behind)
      · exact right.apart x y newX newY different
  moved := Nat.le_trans left.moved right.moved
  inside := right.inside

theorem Holding.littered (holding : Holding grammar full base s row b)
    (reached : b ≤ s.cursor.position) (inside : s.cursor.position ≤ s.cursor.text.size) :
    Littered base s where
  toKept := holding.toKept
  within id new size := by
    obtain ⟨first, last⟩ := holding.new_inside new size
    exact ⟨first, Nat.le_trans last reached⟩
  apart x y madeX madeY different :=
    holding.placed.apart ((holding.held x).mpr madeX) ((holding.held y).mpr madeY) different
  moved := Nat.le_trans holding.le reached
  inside := inside

theorem Littered.halted (left : Littered base s) (right : Halted grammar full s t) : Halted grammar full base t :=
  ⟨left.trans right.toLittered, right.last, right.named, right.located⟩

namespace Standing

variable (standing : Standing grammar full base s row)

include standing

theorem littered : Littered base s := standing.toHolding.littered (Nat.le_refl _) standing.within

theorem inside : s.cursor.position ≤ base.cursor.text.size := standing.text ▸ standing.within

/-- The span of an item that is held is in the text. -/
theorem located_of_item {id : Nat} (member : item id ∈ row) {cause : Fault.Cause} {critical : Bool} :
    Fault.Located s.cursor.text.size ⟨s.forest.start id, s.forest.length id, cause, critical⟩ := by
  obtain ⟨_, stands, last⟩ := standing.placed.inside member
  exact Fault.located_of_distance stands (Nat.le_trans last standing.within)

theorem next : s.Ready grammar full := standing.toHolding.next (Nat.le_refl _) standing.within

theorem append (second : Standing grammar full s t more) :
    Standing grammar full base t (row ++ more) :=
  ⟨standing.toHolding.append second.toHolding, second.within⟩

end Standing

theorem Ready.standing (ready : s.Ready grammar full) : Standing grammar full s s [] :=
  ⟨ready.holding, ready.inside⟩

/-- The cursor comes to where the row ends. -/
theorem Holding.standing (holding : Holding grammar full base s row b)
    (reached : s.cursor.position = b) (inside : b ≤ s.cursor.text.size) :
    Standing grammar full base s row := by
  subst reached
  exact ⟨holding, inside⟩

/-- The cursor moves to the end of the row. -/
theorem Holding.moved (holding : Holding grammar full base s row b) {place : Nat}
    (reached : min place s.cursor.text.size = b) :
    Standing grammar full base { s with cursor := s.cursor.moveTo place } row := by
  have same : Holding grammar full base { s with cursor := s.cursor.moveTo place } row b :=
    holding.of_same rfl rfl rfl rfl (Cursor.hears_of_same rfl rfl rfl) fun _ _ => Or.inl
  exact same.standing reached (reached ▸ Nat.min_le_right _ _)

/-- A step is followed by what can be said of the next one from where it ends. -/
theorem Standing.after {α : Type} {step : Parse α} {post : α → ParseState → Prop}
    (standing : Standing grammar full base s row)
    (ends : Ends step s post (fun _ => Halted grammar full s)) : Ends step s post (fun _ => Halted grammar full base) :=
  ends.imp (fun _ _ holds => holds) fun _ _ halted => standing.littered.halted halted

end ParseState

namespace Parse

open ParseState

variable {grammar : Grammar} {full : Prop} {base s : ParseState} {row : List Held}

/-- The gap at the cursor becomes part of what has been read. A comment without end is reported if it
is new, and it is: whoever has met one is at the end of the text. -/
theorem standing_skipGap (standing : Standing grammar full base s row) :
    Ends skipGap s (fun _ t => Standing grammar full base t row ∧ t.Settled ∧ t.forest = s.forest ∧
      t.cursor.text = s.cursor.text ∧ s.cursor.position ≤ t.cursor.position ∧
      t.cursor.position = s.cursor.gapEnd s.cursor.position ∧ s.faults ⊆ t.faults ∧
      ∀ comment ∈ t.cursor.comments, comment ∈ s.cursor.comments ∨
        comment ∈ grammar.comments.commentsFrom s.cursor.text s.cursor.position)
      (fun _ _ => False) := by
  unfold skipGap
  simp only [ends_get_bind]
  have comments := standing.markers.trans standing.ready.markers
  have out := s.cursor.unclosed_skipGap
  have inside := @Cursor.unclosed_inside s.cursor
  cases gap : s.cursor.skipGap with
  | mk cursor unclosed =>
      have same : s.cursor.skipGap.1 = cursor := congrArg Prod.fst gap
      have text : cursor.text = s.cursor.text := same ▸ s.cursor.text_skipGap
      have markers : cursor.markers = s.cursor.markers := same ▸ s.cursor.markers_skipGap
      have position : cursor.position = s.cursor.markers.gapEnd s.cursor.text s.cursor.position :=
        same ▸ s.cursor.position_skipGap
      have noted : ∀ comment, comment ∈ cursor.comments ↔ comment ∈ s.cursor.comments ∨
          comment ∈ s.cursor.markers.commentsFrom s.cursor.text s.cursor.position :=
        same ▸ s.cursor.mem_skipGap standing.next.listed
      have heard : s.cursor.Hears cursor := same ▸ s.cursor.hears_skipGap
      rw [gap] at out inside
      rw [comments] at noted
      have onlyThese := fun comment => (noted comment).mp
      rw [standing.text] at noted
      have further : s.cursor.position ≤ cursor.position := position ▸ CommentMarkers.le_gapEnd
      have settled : cursor.markers.Settled cursor.text cursor.position := by
        rw [markers, text, position]
        exact CommentMarkers.settled_gapEnd
      -- The gap joins the row, with a report exactly if a comment in it has no end.
      have moved : ∀ reports : Faults, (∀ fault ∈ reports, fault.Mild) →
          (∀ fault ∈ reports, fault.Located s.cursor.text.size) → reports.pieces = [] →
          (full → reports.openComments = unclosed.isSome.toNat) →
          Standing grammar full base { s with cursor, faults := s.faults ++ reports } row := by
        intro reports mild located apart met
        rw [out, comments, standing.text] at met
        refine (standing.toHolding.gap text markers heard noted mild located apart met).standing ?_ ?_
        · rw [← standing.text, ← comments]
          exact position
        · rw [← standing.text, ← comments]
          exact text.symm ▸ CommentMarkers.gapEnd_le standing.within
      refine ends_bind (ends_ok (t := { s with cursor }) rfl ?_)
      cases unclosed with
      | none =>
          refine ends_pure ⟨?_, settled, rfl, text, further, position, List.Subset.refl _, onlyThese⟩
          simpa using moved [] nofun nofun rfl fun _ => rfl
      | some start =>
          dsimp only
          split
          · rename_i covered
            refine ends_pure ⟨?_, settled, rfl, text, further, position, List.Subset.refl _, onlyThese⟩
            by_cases strict : full
            · -- An earlier report would mean that nothing is left to be skipped.
              obtain ⟨fault, member, isComment⟩ := List.any_eq_true.mp covered
              have met : 0 < s.faults.openComments :=
                List.countP_pos_iff.mpr ⟨fault, (List.mem_filter.mp member).1, isComment⟩
              have atEnd := standing.toHolding.atEnd standing.within strict met
              have none : s.cursor.markers.Settled s.cursor.text s.cursor.position :=
                CommentMarkers.settled_of_size_le (Nat.le_of_eq atEnd.symm)
              exact absurd (out.trans (CommentMarkers.runsOut_of_settled none)) nofun
            · simpa using moved [] nofun nofun rfl fun strict' => absurd strict' strict
          · refine ends_ok rfl ⟨?_, settled, rfl, text, further, position,
              List.subset_append_left _ _, onlyThese⟩
            refine moved [_] ?_ ?_ ?_ fun _ => ?_
            · exact List.forall_mem_singleton.mpr ⟨rfl, nofun⟩
            · have before := inside rfl
              rw [text]
              exact List.forall_mem_singleton.mpr (Fault.located_of_distance before (Nat.le_refl _))
            · rfl
            · rfl

theorem ends_report {start length : Nat} {cause : Fault.Cause}
    (standing : Standing grammar full base s row) (quiet : cause.Quiet)
    (located : full → Fault.Located s.cursor.text.size ⟨start, length, cause, false⟩) :
    Ends (report start length cause) s
      (fun _ t => Standing grammar full base t row ∧ t.forest = s.forest ∧ t.cursor = s.cursor)
      (fun _ _ => False) := by
  unfold report addFault
  rw [ends_modify]
  exact ⟨⟨standing.toHolding.fault _ _ quiet located, standing.within⟩, rfl, rfl⟩

/-! Attaching, which is never refused here -/

theorem ends_attach {change : Forest → Except AttachError Forest} {forest : Forest}
    {ok : Unit → ParseState → Prop} {stopped : Stopped → ParseState → Prop}
    (accepted : change s.forest = .ok forest) (holds : ok () (s.withForest forest)) :
    Ends (attach change) s ok stopped := by
  unfold attach attachOr
  simp only [ends_forest_bind, accepted]
  exact holds

section Attach

variable {owner part : Nat} {place : Section} {isChild : Bool} {left right : List Held} {held : Held}
  {b : Nat}

theorem ends_attach_behind (left right : List Held) (isChild : Bool)
    (holding : Holding grammar full base s (left ++ [held, item part] ++ right) b)
    (isOwner : held.id? = some owner) (isOpen : s.forest.Open place owner)
    (regular : isChild = true → place = .regular) :
    Ends (attach (·.attach owner part place isChild)) s
      (fun _ t => t = s.withForest (s.forest.link owner part place isChild) ∧ owner ≠ part ∧
        Holding grammar full base t (left ++ item owner :: right) b) (fun _ _ => False) := by
  obtain ⟨accepted, after⟩ := holding.attach_behind isOwner isOpen regular
  exact ends_attach accepted ⟨rfl, (holding.attachable_behind isOwner isOpen).1.different, after⟩

theorem ends_attach_front (left right : List Held) (place : Section) (isChild : Bool)
    (holding : Holding grammar full base s (left ++ [item part, .hollow owner] ++ right) b)
    (regular : isChild = true → place = .regular) :
    Ends (attach (·.attach owner part place isChild)) s
      (fun _ t => t = s.withForest (s.forest.link owner part place isChild) ∧ owner ≠ part ∧
        Holding grammar full base t (left ++ item owner :: right) b) (fun _ _ => False) := by
  obtain ⟨different, accepted, after⟩ := holding.attach_front regular
  exact ends_attach accepted ⟨rfl, different, after⟩

end Attach

/-! Leaves -/

section Leaf

variable {kind : ItemKind} {token : TokenKind} {text : String} (ready : s.Ready grammar full)
  (settled : s.Settled)

include ready settled

theorem ends_createLeaf (plain : kind.isPlain = true) (filled : 0 < text.length)
    (same : text = s.cursor.text.slice s.cursor.position (s.cursor.position + text.length))
    (nameable : full → token = .name →
      grammar.Nameable s.cursor.text s.faults s.cursor.position) :
    Ends (createLeaf kind token text s.cursor.position) s
      (fun id t => Holding grammar full s t [item id] (s.cursor.position + text.length) ∧
        t.forest.Bare id ∧ t.cursor = s.cursor) (fun _ _ => False) := by
  have here : grammar.comments.gapEnd s.cursor.text s.cursor.position = s.cursor.position := by
    rw [← ready.markers]
    exact CommentMarkers.gapEnd_of_settled settled
  have between := ready.holding.hollowed [] [] kind s.cursor.position
    (Forest.isToken_of_isPlain plain)
    (by rintro _ category trigger name accepts rfl; cases plain) (Nat.le_refl _) (Nat.le_refl _)
  have both := between.token token (Nat.le_refl _) filled (fun _ => ⟨rfl, here, same⟩) nameable
  have bare := s.forest.bare_of_create plain s.cursor.position
  have known : s.forest.size < (s.forest.create kind s.cursor.position).2.size := by
    unfold Forest.create
    simp
  simp only [createLeaf, ends_create_bind, ends_createToken_bind]
  have attached := ends_attach_behind [] [] false both rfl
    (bare.of_get (Forest.get_push_old _ known)).toOpen (fun _ => rfl)
  refine attached.bind ?_ ?_
  · rintro _ t ⟨rfl, different, holding⟩
    refine ends_pure ⟨holding, ?_, rfl⟩
    exact (bare.of_get (Forest.get_push_old _ known)).link _ _ different
  · exact fun _ _ never => never

/-- A leaf of what the text has up to `stop`. -/
theorem ends_leafTo {stop : Nat} (plain : kind.isPlain = true)
    (further : s.cursor.position < stop) (inside : s.cursor.position < s.cursor.text.size)
    (nameable : full → token = .name →
      grammar.Nameable s.cursor.text s.faults s.cursor.position) :
    Ends (createLeaf kind token (s.cursor.text.slice s.cursor.position stop) s.cursor.position) s
      (fun id t => Holding grammar full s t [item id] (min stop s.cursor.text.size) ∧
        t.forest.Bare id ∧ t.cursor = s.cursor) (fun _ _ => False) := by
  have long := Text.length_slice s.cursor.text s.cursor.position stop
  have ends : s.cursor.position + (s.cursor.text.slice s.cursor.position stop).length =
      min stop s.cursor.text.size := by omega
  rw [← ends]
  exact ends_createLeaf ready settled plain (by omega) (Text.slice_eq _ _ _) nameable

theorem ends_textConstant (quote : Char) (inside : s.cursor.position < s.cursor.text.size) :
    Ends (textConstant grammar quote) s (fun id t => Built grammar full s t id) (fun _ _ => False) := by
  simp only [textConstant, ends_position_bind, ends_text_bind, ends_slice_bind]
  have bound := Constant.length_decode_le grammar.textEscape quote
    (s.cursor.text.rest (s.cursor.position + 1))
  rw [Text.length_rest] at bound
  generalize Constant.decode grammar.textEscape quote _ = constant at bound ⊢
  have stop : min (s.cursor.position + 1 + constant.length) s.cursor.text.size ≤ s.cursor.text.size :=
    Nat.min_le_right _ _
  refine (ends_leafTo ready settled rfl (by omega) inside fun _ => by nofun).bind ?_ fun _ _ never => never
  rintro id t ⟨holding, bare, cursor⟩
  have text : t.cursor.text = s.cursor.text := congrArg Cursor.text cursor
  split
  · simp only [report, addFault, moveTo, ends_modify_bind]
    have noted := holding.fault s.cursor.position
      (s.cursor.position + 1 + constant.length - s.cursor.position)
      (show Fault.Cause.Quiet (.constantTextNotClosed quote) from ⟨nofun, nofun, nofun, nofun⟩)
      fun _ => Fault.located_of_distance (by omega) (by rw [text]; omega)
    exact ends_pure ⟨noted.moved (by rw [← text]), bare⟩
  · simp only [moveTo, ends_modify_bind]
    exact ends_pure ⟨holding.moved (by rw [text]), bare⟩

theorem ends_number {written : NumericMatch} (filled : 0 < written.length)
    (inside : s.cursor.position < s.cursor.text.size) :
    Ends (number written) s (fun id t => Built grammar full s t id) (fun _ _ => False) := by
  simp only [number, ends_position_bind, ends_slice_bind]
  refine (ends_leafTo ready settled rfl (by omega) inside fun _ => by nofun).bind ?_ fun _ _ never => never
  rintro id t ⟨holding, bare, cursor⟩
  simp only [skip, ends_modify_bind]
  exact ends_pure ⟨holding.moved (by rw [cursor]), bare⟩

theorem ends_name
    (nameable : full → grammar.Nameable s.cursor.text s.faults s.cursor.position) :
    Ends (name? grammar) s
      (fun found t => (found = none ∧ t = s) ∨ ∃ id, found = some id ∧ Built grammar full s t id)
      (fun _ _ => False) := by
  simp only [name?, ends_position_bind, ends_text_bind]
  have further := grammar.le_nameEnd s.cursor.text s.cursor.position
  have bound := grammar.nameEnd_le ready.inside
  split
  · exact ends_pure (Or.inl ⟨rfl, rfl⟩)
  · simp only [ends_slice_bind]
    refine (ends_leafTo ready settled rfl (by omega) (by omega) fun strict _ => nameable strict).bind ?_
      fun _ _ never => never
    rintro id t ⟨holding, bare, cursor⟩
    simp only [moveTo, ends_modify_bind]
    exact ends_pure (Or.inr ⟨id, rfl, holding.moved (by rw [cursor]), bare⟩)

end Leaf

end Parse

end ExprLang
