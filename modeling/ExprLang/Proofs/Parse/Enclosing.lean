import ExprLang.Proofs.Parse.Operands

/-!
Braces and code blocks. Whatever parses the segments inside them comes, if it goes on, to a
terminator or behind a code block; so every round of a list consumes something and the guards against
rounds that do not are never reached.
-/

namespace ExprLang

open Held (item hollow word ids)

namespace ParseState

/-- A segment of the text behind `base`. -/
structure Segmented (grammar : Grammar) (full : Prop) (base s : ParseState) (segment : Segment) :
    Prop extends Standing grammar full base s (segment.item.toList.map item) where
  ended : segment.closedByBlock = false →
    s.Settled ∧ grammar.isTerminatorAt s.cursor.text s.cursor.position = true
  closed : segment.closedByBlock = true → base.cursor.position < s.cursor.position

end ParseState

open ParseState

/-- Segments of a text are parsed from wherever fewer than `depth` characters remain. -/
def Inner.Parses (grammar : Grammar) (full : Prop) (whole : Text) (inner : Inner) (depth : Nat) : Prop :=
  ∀ context s, s.Ready grammar full → s.cursor.text = whole → s.cursor.remaining < depth →
    Ends (inner context) s (fun segment t => Segmented grammar full s t segment)
      (fun _ t => Halted grammar full s t)

namespace Parse

variable {grammar : Grammar} {full : Prop} {base s t : ParseState} {owner part : Nat} {held : Held}
  {row : List Held} {b : Nat}

/-- An owner takes what has been parsed behind it. -/
theorem ends_take (isChild : Bool) (standing : Standing grammar full base s [held, item part])
    (isOwner : held.id? = some owner) (bare : s.forest.Bare owner) :
    Ends (attach (·.attach owner part .regular isChild)) s
      (fun _ t => Built grammar full base t owner ∧ t.cursor = s.cursor) (fun _ _ => False) := by
  have attached := ends_attach_behind [] [] isChild standing.toHolding isOwner bare.toOpen
    (fun _ => rfl)
  refine attached.imp ?_ fun _ _ holds => holds
  rintro _ t ⟨rfl, different, holding⟩
  exact ⟨⟨⟨holding, standing.within⟩, bare.link _ _ different⟩, rfl⟩

/-- The cursor goes on to the end of the row. -/
theorem built_skip (length : Nat)
    (holding : Holding grammar full base t [item owner] (s.cursor.position + length))
    (bare : t.forest.Bare owner) (cursor : t.cursor = s.cursor)
    (inside : s.cursor.position + length ≤ s.cursor.text.size) :
    Built grammar full base { t with cursor := t.cursor.skip length } owner ∧
      (t.cursor.skip length).position = s.cursor.position + length := by
  have reached : min (t.cursor.position + length) t.cursor.text.size = s.cursor.position + length := by
    rw [cursor]
    omega
  exact ⟨⟨holding.moved reached, bare⟩, reached⟩

/-- What an owner is stays as it is while the parser goes on behind it. -/
theorem bare_kept (kept : Kept s t) (bare : s.forest.Bare owner) : t.forest.Bare owner := by
  obtain ⟨found, here, _⟩ := bare.plain
  exact bare.of_get (kept.old owner (Forest.get_lt_size here))

/-- An owner takes a new token at the cursor. -/
theorem ends_takeToken (kind : TokenKind) {text : String}
    (standing : Standing grammar full base s [held]) (isOwner : held.id? = some owner)
    (bare : s.forest.Bare owner) (settled : s.Settled) (filled : 0 < text.length)
    (same : full → text = s.cursor.text.slice s.cursor.position (s.cursor.position + text.length))
    (other : kind ≠ .name) :
    Ends (addRegular owner s.forest.size)
      (s.withForest (s.forest.createToken kind text s.cursor.position).2)
      (fun _ t => Holding grammar full base t [item owner] (s.cursor.position + text.length) ∧
        t.forest.Bare owner ∧ t.cursor = s.cursor) (fun _ _ => False) := by
  have here : grammar.comments.gapEnd base.cursor.text s.cursor.position = s.cursor.position := by
    rw [← standing.ready.markers, ← standing.text, ← standing.markers]
    exact CommentMarkers.gapEnd_of_settled settled
  have both := standing.toHolding.token kind (Nat.le_refl _) filled (fun strict =>
    ⟨rfl, here, by rw [← standing.text]; exact same strict⟩) fun _ isName => absurd isName other
  have known : owner < s.forest.size := by
    obtain ⟨found, here, _⟩ := bare.plain
    exact Forest.get_lt_size here
  have still := bare.of_get (Forest.get_push_old
    { start := s.cursor.position, length := text.length, kind := .token kind text } known)
  have attached := ends_attach_behind [] [] false both isOwner still.toOpen (fun _ => rfl)
  refine attached.imp ?_ fun _ _ holds => holds
  rintro _ t ⟨rfl, different, holding⟩
  exact ⟨holding, still.link _ _ different, rfl⟩

theorem ends_takeChar (kind : TokenKind) {c : Char}
    (standing : Standing grammar full base s [held]) (isOwner : held.id? = some owner)
    (bare : s.forest.Bare owner) (settled : s.Settled)
    (here : s.cursor.text[s.cursor.position]? = some c) (other : kind ≠ .name) :
    Ends (addRegular owner s.forest.size)
      (s.withForest (s.forest.createToken kind (String.singleton c) s.cursor.position).2)
      (fun _ t => Holding grammar full base t [item owner] (s.cursor.position + 1) ∧
        t.forest.Bare owner ∧ t.cursor = s.cursor) (fun _ _ => False) := by
  have single := Text.slice_single here
  have long : (String.singleton c).length = 1 := String.length_singleton
  have taken := ends_takeToken kind standing isOwner bare settled
    (show 0 < (String.singleton c).length by omega) (fun _ => by rw [long, single]) other
  rwa [long] at taken

theorem ends_changeKind (change : ItemKind → ItemKind) (holding : Holding grammar full base s row b)
    (member : owner ∈ ids row) (bare : s.forest.Bare owner)
    (plain : ∀ kind : ItemKind, kind.isPlain = true → (change kind).isPlain = true) :
    Ends (changeKind owner change) s
      (fun _ t => Holding grammar full base t row b ∧ t.forest.Bare owner ∧ t.cursor = s.cursor)
      (fun _ _ => False) := by
  have recast : s.forest.Recast owner change := by
    intro found here
    obtain ⟨other, also, isPlain⟩ := bare.plain
    rw [here] at also
    cases also
    exact ⟨isPlain, plain _ isPlain⟩
  have new := ((holding.held owner).mp member).1
  unfold changeKind changeForest
  rw [ends_modify]
  exact ⟨holding.recast new recast, recast.bare bare, rfl⟩

/-! Statements, separators and symbols without a place -/

theorem isPlain_noteStatement (statement : ItemId) {kind : ItemKind} (plain : kind.isPlain = true) :
    (noteStatement statement kind).isPlain = true := by
  cases kind <;> first | rfl | cases plain

theorem isPlain_noteSeparator (separator : ItemId) {kind : ItemKind} (plain : kind.isPlain = true) :
    (noteSeparator separator kind).isPlain = true := by
  cases kind <;> first | rfl | cases plain

theorem isPlain_noteBlockEnd (stop : ItemId) {kind : ItemKind} (plain : kind.isPlain = true) :
    (noteBlockEnd stop kind).isPlain = true := by
  cases kind <;> first | rfl | cases plain

theorem ends_addStatement (standing : Standing grammar full base s [held, item part])
    (isOwner : held.id? = some owner) (bare : s.forest.Bare owner) :
    Ends (addStatement owner part) s
      (fun _ t => Built grammar full base t owner ∧ t.cursor = s.cursor) (fun _ _ => False) := by
  refine (ends_take true standing isOwner bare).bind ?_ fun _ _ never => never
  rintro _ t ⟨built, cursor⟩
  refine (ends_changeKind _ built.toHolding (by simp) built.bare
    fun _ => isPlain_noteStatement part).imp ?_ fun _ _ never => never
  rintro _ u ⟨holding, bare, same⟩
  refine ⟨⟨holding.standing (same ▸ rfl) ?_, bare⟩, same.trans cursor⟩
  rw [same]
  exact built.within

theorem ends_addSeparator (standing : Standing grammar full base s [held])
    (isOwner : held.id? = some owner) (bare : s.forest.Bare owner) (settled : s.Settled)
    (inside : s.cursor.position < s.cursor.text.size) :
    Ends (addSeparator owner s.cursor.position) s
      (fun _ t => Built grammar full base t owner ∧ s.cursor.position < t.cursor.position)
      (fun _ _ => False) := by
  have long : (s.cursor.text.slice s.cursor.position (s.cursor.position + 1)).length = 1 :=
    Grammar.length_slice_of_inside inside
  simp only [addSeparator, ends_slice_bind, ends_createToken_bind]
  refine (ends_takeToken .separator standing isOwner bare settled (long.symm ▸ Nat.one_pos)
    (fun _ => Text.slice_eq _ _ _) nofun).bind ?_ fun _ _ never => never
  rintro _ t ⟨holding, bare, cursor⟩
  refine (ends_changeKind _ holding (by simp) bare fun _ => isPlain_noteSeparator _).bind ?_
    fun _ _ never => never
  rintro _ u ⟨holding, bare, same⟩
  simp only [skip, ends_modify]
  obtain ⟨built, position⟩ := built_skip 1 (long ▸ holding) bare
    (same.trans cursor) inside
  exact ⟨built, by omega⟩

theorem ends_unexpected (standing : Standing grammar full base s row) (settled : s.Settled)
    {length : Nat} (filled : 0 < length) (inside : s.cursor.position + length ≤ s.cursor.text.size) :
    Ends (unexpected s.cursor.position length) s
      (fun _ t => Standing grammar full base t row ∧ t.forest = s.forest ∧
        s.cursor.position < t.cursor.position) (fun _ _ => False) := by
  have here : grammar.comments.gapEnd base.cursor.text s.cursor.position = s.cursor.position := by
    rw [← standing.ready.markers, ← standing.text, ← standing.markers]
    exact CommentMarkers.gapEnd_of_settled settled
  simp only [unexpected, report, addFault, skip, ends_slice_bind, ends_modify_bind, ends_modify]
  have skipped := standing.toHolding.skipped ⟨s.cursor.position, length,
    .unexpectedSymbol (s.cursor.text.slice s.cursor.position (s.cursor.position + length)), false⟩
    (Nat.le_add_right _ _) (fun _ => ⟨rfl, by simp [Fault.code, Fault.Cause.code]⟩)
    (fun _ => Fault.located_of_near inside rfl)
    (fun _ => by simp [Fault.piece?, Fault.code, Fault.Cause.code])
    (fun _ => ⟨rfl, here, Nat.lt_add_of_pos_right filled,
      standing.text ▸ Nat.lt_of_lt_of_le (Nat.lt_add_of_pos_right filled) inside⟩)
  refine ⟨skipped.moved ?_, trivial, ?_⟩
  · exact Nat.min_eq_left inside
  · simp only [Cursor.skip, Cursor.moveTo]
    omega

/-! Lists -/

theorem terminator_cases {text : Text} {place : Nat} {c : Char} (here : text[place]? = some c)
    (terminates : grammar.isTerminatorAt text place = true) :
    isStrayTerminator c = true ∨ some c = grammar.separator ∨ grammar.isBlockEndAt text place = true := by
  unfold Grammar.isTerminatorAt at terminates
  rw [here] at terminates
  rcases Bool.or_eq_true_iff.mp terminates with ends | atEnd
  · rcases Bool.or_eq_true_iff.mp ends with stray | separates
    · exact Or.inl stray
    · exact Or.inr (Or.inl (eq_of_beq separates))
  · exact Or.inr (Or.inr atEnd)

/-- An owner takes the item of a segment, if there is one. -/
theorem ends_takeSegment {take : ItemId → Parse Unit} {segment : Segment}
    (takes : ∀ part, Standing grammar full base t [held, item part] → t.forest.Bare owner →
      Ends (take part) t (fun _ u => Built grammar full base u owner ∧ u.cursor = t.cursor)
        (fun _ _ => False))
    (standing : Standing grammar full base s [held]) (bare : s.forest.Bare owner)
    (segmented : Segmented grammar full s t segment) :
    Ends (segment.item.forM take) t
      (fun _ u => (Standing grammar full base u [held] ∧ u.forest.Bare owner ∨
        Built grammar full base u owner) ∧ u.cursor = t.cursor) (fun _ _ => False) := by
  have both := standing.append segmented.toStanding
  have still := bare_kept segmented.toKept bare
  cases parsed : segment.item with
  | none =>
      rw [parsed] at both
      exact ends_pure ⟨Or.inl ⟨both, still⟩, rfl⟩
  | some part =>
      rw [parsed] at both
      exact (takes part both still).imp (fun _ _ taken => ⟨Or.inr taken.1, taken.2⟩)
        fun _ _ never => never

variable {inner : Inner} {depth : Nat} {whole : Text} (parses : inner.Parses grammar full whole depth)

include parses

theorem ends_parameters {kind : BraceKind} {passes : Nat} {before : List (Option ItemId)}
    {seenComma : Bool} (same : base.cursor.text = whole) (built : Built grammar full base s owner)
    (enough : s.cursor.remaining < passes) (shallow : s.cursor.remaining < depth) :
    Ends (parameters inner owner kind passes before seenComma) s
      (fun _ t => Built grammar full base t owner) (fun _ t => Halted grammar full base t) := by
  induction passes generalizing s before seenComma with
  | zero => exact absurd enough (Nat.not_lt_zero _)
  | succ passes ih =>
      unfold parameters
      refine (built.after (parses .braces s built.next (built.text.trans same) shallow)).bind ?_
        fun _ _ halted => halted
      intro segment t segmented
      have takes : ∀ part, Standing grammar full base t [item owner, item part] →
          t.forest.Bare owner → Ends (addChild owner part) t
            (fun _ u => Built grammar full base u owner ∧ u.cursor = t.cursor) (fun _ _ => False) :=
        fun part standing bare => ends_take true standing rfl bare
      refine (ends_takeSegment takes built.toStanding built.bare segmented).bind ?_
        fun _ _ never => never.elim
      rintro _ u ⟨either, cursor⟩
      have taken : Built grammar full base u owner :=
        either.elim (fun same => ⟨same.1, same.2⟩) fun built => built
      refine (standing_skipGap taken.toStanding).bind ?_ fun _ _ never => never.elim
      rintro _ v ⟨standing, settled, forest, text, further, _⟩
      have moved := segmented.littered.moved
      have bare : v.forest.Bare owner := forest ▸ taken.bare
      have missing : ∀ last : List (Option ItemId), Ends
          (do
            report v.cursor.position 0 (.closingBraceMissing kind.closing)
            return (last, (none : Option ItemId))) v
          (fun _ t => Built grammar full base t owner) (fun _ t => Halted grammar full base t) := by
        intro last
        refine (ends_report standing (by simp [Fault.Cause.Quiet, Fault.Cause.code])
          fun _ => Fault.located_of_near standing.within rfl).bind ?_ fun _ _ never => never.elim
        rintro _ w ⟨standing, same, _⟩
        exact ends_pure ⟨standing, same ▸ bare⟩
      simp only [ends_position_bind, ends_current_bind]
      split
      · rename_i c here
        have inside : v.cursor.position < v.cursor.text.size := (Array.getElem?_eq_some_iff.mp here).1
        split
        -- Behind a comma the loop goes on, with less of the text left.
        · rename_i comma
          subst comma
          simp only [ends_createToken_bind]
          refine (ends_takeChar .comma standing rfl bare settled here (by rintro ⟨⟩)).bind ?_
            fun _ _ never => never.elim
          rintro _ w ⟨holding, bare, same⟩
          simp only [skip, ends_modify_bind]
          obtain ⟨next, position⟩ := built_skip 1 holding bare same inside
          have fewer := Cursor.remaining_lt (next.text.trans built.text.symm)
            (show s.cursor.position < (w.cursor.skip 1).position by
              rw [position]; rw [cursor] at further; omega) next.within
          exact ih next (by omega) (by omega)
        · split
          · rename_i closes
            subst closes
            simp only [ends_createToken_bind]
            refine (ends_takeChar (.closingBrace kind) standing rfl bare settled here (by rintro ⟨⟩)).bind ?_
              fun _ _ never => never.elim
            rintro _ w ⟨holding, bare, same⟩
            simp only [skip, ends_modify_bind]
            exact ends_pure (built_skip 1 holding bare same inside).1
          · exact missing _
      · exact missing _

omit parses in
/-- A token at the cursor, and an item in front of it that is going to own it. -/
theorem opened (kind : ItemKind) (token : TokenKind) {text : String}
    (standing : Standing grammar full base s row) (settled : s.Settled) (plain : kind.isPlain = true)
    (filled : 0 < text.length)
    (same : text = s.cursor.text.slice s.cursor.position (s.cursor.position + text.length))
    (other : token ≠ .name) :
    Holding grammar full base
        ((s.withForest (s.forest.createToken token text s.cursor.position).2).withForest
          ((s.forest.createToken token text s.cursor.position).2.create kind s.cursor.position).2)
        (row ++ [hollow (s.forest.size + 1), item s.forest.size]) (s.cursor.position + text.length) ∧
      ((s.forest.createToken token text s.cursor.position).2.create kind
        s.cursor.position).2.Bare (s.forest.size + 1) := by
  have here : grammar.comments.gapEnd base.cursor.text s.cursor.position = s.cursor.position := by
    rw [← standing.ready.markers, ← standing.text, ← standing.markers]
    exact CommentMarkers.gapEnd_of_settled settled
  have holding := standing.toHolding.token token (Nat.le_refl _) filled (fun _ =>
    ⟨rfl, here, by rw [← standing.text]; exact same⟩) fun _ isName => absurd isName other
  have size : (s.forest.createToken token text s.cursor.position).2.size = s.forest.size + 1 :=
    Forest.size_push _
  have ahead : (s.forest.createToken token text s.cursor.position).2.Row base.cursor.position row
      s.cursor.position :=
    Forest.row_push standing.sound.linked rfl rfl standing.placed fun id member =>
      standing.size_pos_of_mem member
  have behind := Forest.row_createToken token standing.sound.linked
    (Nat.le_refl s.cursor.position) filled
  have between := holding.hollowed row [item s.forest.size] kind s.cursor.position
    (Forest.isToken_of_isPlain plain)
    (by rintro _ category trigger name accepts rfl; cases plain) ahead behind
  have bare := Forest.bare_of_create (s.forest.createToken token text s.cursor.position).2 plain
    s.cursor.position
  rw [size] at bare
  simp only [withForest, size] at between
  exact ⟨between, bare⟩

omit parses in
/-- An item without parts gets the name in front of it and the opening brace behind it. -/
theorem ends_openBraces {α : Type} (name : Option ItemId) {opening : Nat} {next : Parse α}
    {ok : α → ParseState → Prop} {stopped : Stopped → ParseState → Prop}
    (holding : Holding grammar full base s
      (name.toList.map item ++ [hollow owner, item opening]) b) (bare : s.forest.Bare owner)
    (rest : ∀ t, Holding grammar full base t [item owner] b → t.forest.Bare owner →
      t.cursor = s.cursor → Ends next t ok stopped) :
    Ends (do name.forM (addChild owner); addRegular owner opening; next) s ok stopped := by
  cases name with
  | none =>
      have attached := ends_attach_behind [] [] false holding rfl bare.toOpen (fun _ => rfl)
      refine ends_bind (ends_pure (attached.bind ?_ fun _ _ never => never.elim))
      rintro _ t ⟨rfl, different, holding⟩
      exact rest _ holding (bare.link _ _ different) rfl
  | some name =>
      have front := ends_attach_front [] [item opening] .regular true holding (fun _ => rfl)
      refine front.bind ?_ fun _ _ never => never.elim
      rintro _ t ⟨rfl, different, holding⟩
      have still : (s.withForest (s.forest.link owner name .regular true)).forest.Bare owner :=
        bare.link _ _ different
      have attached := ends_attach_behind [] [] false holding rfl still.toOpen (fun _ => rfl)
      refine attached.bind ?_ fun _ _ never => never.elim
      rintro _ t ⟨rfl, different, holding⟩
      exact rest _ holding (still.link _ _ different) rfl

theorem ends_braces (name : Option ItemId) (same : base.cursor.text = whole)
    (standing : Standing grammar full base s (name.toList.map item)) (settled : s.Settled)
    (here : Grammar.isOpeningBraceAt s.cursor.text s.cursor.position = true)
    (shallow : s.cursor.remaining ≤ depth) :
    Ends (braces inner name) s (fun id t => Built grammar full base t id)
      (fun _ t => Halted grammar full base t) := by
  obtain ⟨c, found, isBrace⟩ := (Option.any_eq_true _ _).mp here
  have inside := (Array.getElem?_eq_some_iff.mp found).1
  obtain ⟨kind, opens, rfl⟩ : ∃ kind, BraceKind.ofOpening? c = some kind ∧ kind.opening = c := by
    rcases Bool.or_eq_true_iff.mp isBrace with round | square
    · exact ⟨.round, by rw [eq_of_beq round]; rfl, (eq_of_beq round).symm⟩
    · exact ⟨.square, by rw [eq_of_beq square]; rfl, (eq_of_beq square).symm⟩
  have long : (String.singleton kind.opening).length = 1 := String.length_singleton
  have single := Text.slice_single found
  unfold braces
  simp only [ends_position_bind, ends_current_bind, found, Option.bind_some, opens,
    ends_createToken_bind, ends_create_bind]
  obtain ⟨holding, bare⟩ := opened (.braces kind name s.forest.size none [])
    (.openingBrace kind) standing settled rfl (show 0 < (String.singleton kind.opening).length by omega)
    (by rw [long, single]) nofun
  rw [long] at holding
  have size : (s.forest.createToken (.openingBrace kind) (String.singleton kind.opening)
      s.cursor.position).2.size = s.forest.size + 1 := Forest.size_push _
  rw [size]
  refine ends_openBraces name holding bare fun t holding bare cursor => ?_
  simp only [skip, ends_modify_bind, ends_remaining_bind]
  obtain ⟨built, position⟩ := built_skip (s := s) 1 holding bare cursor inside
  have fewer := Cursor.remaining_lt (built.text.trans standing.text.symm)
    (show s.cursor.position < (t.cursor.skip 1).position by omega) built.within
  refine (ends_parameters parses same built (Nat.lt_succ_self _)
    (Nat.lt_of_lt_of_le fewer shallow)).bind ?_ fun _ _ halted => halted
  rintro ⟨parameters, closing⟩ u built
  refine (ends_changeKind (fun _ => .braces kind name s.forest.size closing parameters)
    built.toHolding (by simp) built.bare fun _ _ => rfl).bind ?_ fun _ _ never => never.elim
  rintro _ v ⟨holding, bare, same⟩
  exact ends_pure ⟨holding.standing (by rw [same]) (by rw [same]; exact built.within), bare⟩

theorem ends_blockStatements {markers : MarkerPair} {blockStart passes : Nat}
    (hasBlocks : grammar.codeBlock = some markers) (same : base.cursor.text = whole)
    (opens : blockStart + markers.start.length ≤ base.cursor.text.size)
    (built : Built grammar full base s owner)
    (enough : s.cursor.remaining < passes) (shallow : s.cursor.remaining < depth) :
    Ends (blockStatements grammar inner owner markers blockStart passes) s
      (fun _ t => Built grammar full base t owner) (fun _ t => Halted grammar full base t) := by
  induction passes generalizing s with
  | zero => exact absurd enough (Nat.not_lt_zero _)
  | succ passes ih =>
      unfold blockStatements
      simp only [ends_position_bind]
      refine (built.after (parses .codeBlock s built.next (built.text.trans same) shallow)).bind ?_
        fun _ _ halted => halted
      intro segment t segmented
      have takes : ∀ part, Standing grammar full base t [item owner, item part] →
          t.forest.Bare owner → Ends (addStatement owner part) t
            (fun _ u => Built grammar full base u owner ∧ u.cursor = t.cursor) (fun _ _ => False) :=
        fun part standing bare => ends_addStatement standing rfl bare
      refine (ends_takeSegment takes built.toStanding built.bare segmented).bind ?_
        fun _ _ never => never.elim
      rintro _ u ⟨either, cursor⟩
      have taken : Built grammar full base u owner :=
        either.elim (fun same => ⟨same.1, same.2⟩) fun built => built
      refine (standing_skipGap taken.toStanding).bind ?_ fun _ _ never => never.elim
      rintro _ v ⟨standing, settled, forest, text, further, position, _⟩
      rw [cursor] at further text position
      have moved := segmented.littered.moved
      have bare : v.forest.Bare owner := forest ▸ taken.bare
      -- Every further round begins behind this one.
      have again : ∀ w, Built grammar full base w owner → s.cursor.position < w.cursor.position →
          Ends (blockStatements grammar inner owner markers blockStart passes) w
            (fun _ t => Built grammar full base t owner) (fun _ t => Halted grammar full base t) := by
        intro w next behind
        have fewer := Cursor.remaining_lt (next.text.trans built.text.symm) behind next.within
        exact ih next (by omega) (by omega)
      simp only [ends_position_bind, ends_current_bind]
      split
      -- The text ends before the block does.
      · refine (ends_report standing (by exact ⟨nofun, nofun, nofun, nofun⟩) fun _ =>
          Fault.located_of_near (standing.text ▸ opens) rfl).imp ?_ fun _ _ never => never.elim
        rintro _ w ⟨standing, same, _⟩
        exact ⟨standing, same ▸ bare⟩
      · rename_i c here
        have inside : v.cursor.position < v.cursor.text.size := (Array.getElem?_eq_some_iff.mp here).1
        simp only [ends_text_bind]
        split
        -- The end marker is a token of the block, and is noted in it.
        · rename_i atEnd
          obtain ⟨also, same, filled, within⟩ := Grammar.isBlockEndAt_inside atEnd
          obtain rfl : markers = also := Option.some.inj (hasBlocks.symm.trans same)
          have long := Grammar.length_slice_of_inside within
          simp only [ends_slice_bind, ends_createToken_bind]
          refine (ends_takeToken .codeBlockEnd standing rfl bare settled (long.symm ▸ filled)
            (fun _ => Text.slice_eq _ _ _) nofun).bind ?_ fun _ _ never => never.elim
          rintro _ w ⟨holding, bare, same⟩
          refine (ends_changeKind _ holding (by simp) bare fun _ => isPlain_noteBlockEnd _).bind ?_
            fun _ _ never => never.elim
          rintro _ x ⟨holding, bare, cursor⟩
          simp only [skip, ends_modify]
          exact (built_skip _ (long ▸ holding) bare (cursor.trans same) within).1
        · rename_i notEnd
          split
          · refine (ends_addSeparator standing rfl bare settled inside).bind ?_
              fun _ _ never => never.elim
            rintro _ w ⟨built, behind⟩
            exact again w built (by omega)
          · rename_i notSeparator
            split
            -- The statement is a block itself, which needs no separator.
            · rename_i closedByBlock
              have behind := segmented.closed closedByBlock
              exact again v ⟨standing, bare⟩ (by omega)
            · rename_i goesOn
              split
              -- A terminator that closes nothing here is skipped.
              · refine (ends_unexpected standing settled Nat.one_pos inside).bind ?_
                  fun _ _ never => never.elim
                rintro _ w ⟨standing, same, behind⟩
                exact again w ⟨standing, same ▸ bare⟩ (by omega)
              · rename_i notStray
                -- The segment went on to a terminator, and that is none of these.
                obtain ⟨settledThere, terminates⟩ := segmented.ended (Bool.eq_false_iff.mpr goesOn)
                have same : v.cursor.position = t.cursor.position :=
                  position.trans (CommentMarkers.gapEnd_of_settled settledThere)
                rw [← text, ← same] at terminates
                rcases terminator_cases here terminates with stray | separates | atEnd
                · exact absurd stray notStray
                · exact absurd separates notSeparator
                · exact absurd atEnd notEnd

theorem ends_codeBlock (same : s.cursor.text = whole) (ready : s.Ready grammar full)
    (settled : s.Settled)
    (here : grammar.isBlockStartAt s.cursor.text s.cursor.position = true)
    (shallow : s.cursor.remaining ≤ depth) :
    Ends (codeBlock grammar inner) s (fun id t => Built grammar full s t id)
      (fun _ t => Halted grammar full s t) := by
  obtain ⟨markers, hasBlocks, filled, within⟩ := Grammar.isBlockStartAt_inside here
  have long := Grammar.length_slice_of_inside within
  unfold codeBlock
  simp only [ends_position_bind, hasBlocks, ends_slice_bind, ends_createToken_bind, ends_create_bind]
  obtain ⟨holding, bare⟩ := opened (.codeBlock s.forest.size none []) .codeBlockStart
    ready.standing settled rfl (long.symm ▸ filled) (Text.slice_eq _ _ _) nofun
  have size : (s.forest.createToken .codeBlockStart (s.cursor.text.slice s.cursor.position
      (s.cursor.position + markers.start.length)) s.cursor.position).2.size = s.forest.size + 1 :=
    Forest.size_push _
  rw [size]
  refine ends_openBraces none holding bare fun t holding bare cursor => ?_
  simp only [skip, ends_modify_bind, ends_remaining_bind]
  obtain ⟨built, position⟩ := built_skip (s := s) _ (long ▸ holding) bare cursor within
  have fewer := Cursor.remaining_lt built.text
    (show s.cursor.position < (t.cursor.skip markers.start.length).position by omega) built.within
  refine (ends_blockStatements parses hasBlocks same within built (Nat.lt_succ_self _)
    (Nat.lt_of_lt_of_le fewer shallow)).bind ?_ fun _ _ halted => halted
  exact fun _ u built => ends_pure built

theorem ends_literal (same : s.cursor.text = whole) (ready : s.Ready grammar full)
    (settled : s.Settled)
    (nameable : full → grammar.Nameable s.cursor.text s.faults s.cursor.position)
    (shallow : s.cursor.remaining ≤ depth) :
    Ends (literal? grammar inner) s
      (fun found t => (found = none ∧ t = s) ∨ ∃ id, found = some id ∧ Built grammar full s t id)
      (fun _ t => Halted grammar full s t) := by
  unfold literal?
  refine (ends_name ready settled nameable).bind ?_ fun _ _ never => never.elim
  rintro found t (⟨rfl, rfl⟩ | ⟨name, rfl, built⟩)
  · exact ends_pure (Or.inl ⟨rfl, rfl⟩)
  · simp only [ends_get_bind]
    split
    · rename_i braces
      refine (standing_skipGap built.toStanding).bind ?_ fun _ _ never => never.elim
      rintro _ u ⟨standing, settled, _, text, further, position, _⟩
      have fewer := Cursor.remaining_le standing.text (Nat.le_trans built.littered.moved further)
      refine (ends_braces parses (some name) same standing settled ?_
        (Nat.le_trans fewer shallow)).bind ?_ fun _ _ halted => halted
      · rwa [text, position]
      · exact fun id v built => ends_pure (Or.inr ⟨id, rfl, built⟩)
    · exact ends_pure (Or.inr ⟨name, rfl, built⟩)

end Parse

end ExprLang
