import ExprLang.Proofs.Tandem.Steps

/-!
Operands of two parses in lockstep: text constants, numbers and names. Each is a leaf, an item with one
token, and its token tells that the text is the same up to its end.
-/

namespace ExprLang.Tandem

open Parse
open ParseState (Later)

variable {W : Tandem} {ahead : ParseState → Prop} {s s' t t' : ParseState}

/-- Behind an item that has been parsed from `s` on. -/
structure Took (W : Tandem) (s : ParseState) (item : Nat) (t t' : ParseState) : Prop
    extends Beside W t t' where
  known : Known t item
  further : s.cursor.position < t.cursor.position

variable (lawful : W.Lawful) (heading : W.Heading ahead)

include heading

/-- A leaf that is not empty is one that is expected. -/
theorem ends_createLeaf {kind : ItemKind} {token : TokenKind} {word : String} {start : Nat} :
    Ends (createLeaf kind token word start) s
      (fun _ t => ahead t → 0 < word.length → W.expects start word.length)
      fun _ t => ahead t → 0 < word.length → W.expects start word.length := by
  unfold createLeaf
  rw [ends_create_bind, ends_createToken_bind]
  have attached := growing_bind (growing_addRegular s.forest.size (s.forest.create kind start).2.size)
    fun _ => growing_pure s.forest.size
  refine (attached _).imp ?_ ?_
  all_goals
    intro _ t grown isAhead
    exact heading.awaited (heading.later grown isAhead) (Forest.get_push_new _) rfl

include lawful

theorem lock_createLeaf {kind kind' : ItemKind} {token : TokenKind} {word word' : String}
    {start start' : Nat} (complex : kind.isToken = false)
    (given : ahead s → W.Near s s' ∧ W.front start ∧ start' = W.move start ∧
      ((0 < word.length → W.expects start word.length) →
        W.Kind kind kind' ∧ word' = W.word word)) :
    W.Locked ahead W.rename s s' (createLeaf kind token word start)
      (createLeaf kind' token word' start') fun id t t' => Known t id ∧ W.Stays s s' t t' ∧
        (0 < word.length → W.expects start word.length) := by
  apply lock_given (0 < word.length → W.expects start word.length)
  · have heading := heading.given (0 < word.length → W.expects start word.length)
    apply (lock_create heading complex fun known => ?_).bind heading
    · intro item t t' grown created
      apply (lock_createToken heading fun known => ?_).bind heading
      · intro leaf u u' more token
        apply (lock_addRegular lawful heading fun known => ?_).bind heading
        · intro _ v v' last attached
          refine lock_pure fun known _ => ⟨rfl, ?_⟩
          obtain ⟨knownThere, stays⟩ := attached known
          obtain ⟨knownBefore, _, second, expects⟩ := token knownThere
          obtain ⟨_, known, first⟩ := created knownBefore
          exact ⟨(known.later more).later last, (first.trans second).trans stays, expects⟩
        · obtain ⟨knownBefore, knownLeaf, stays, _⟩ := token known
          exact ⟨stays.near, (created knownBefore).2.1.1, knownLeaf.1⟩
      · obtain ⟨knownBefore, _, stays⟩ := created known
        obtain ⟨_, front, place, alike⟩ := given knownBefore.1
        exact ⟨stays.near, front, place, fun expects => (alike expects).2⟩
    · obtain ⟨near, front, place, alike⟩ := given known.1
      exact ⟨near, front, place, (alike known.2).1⟩
  · exact (ends_createLeaf heading).imp (fun _ _ expects isAhead _ => expects isAhead)
      fun _ _ expects _ isAhead => expects isAhead

/-! Text constants -/

/-- What `textConstant` does with the item that it has made. -/
def finishConstant (quote : Char) (constant : Constant) (start : Nat) (item : ItemId) :
    Parse ItemId := do
  let stop := start + 1 + constant.length
  if !constant.closed then report start (stop - start) (.constantTextNotClosed quote)
  moveTo stop
  return item

/-- The constant with its opening quote at `start`. -/
def constantFrom (grammar : Grammar) (quote : Char) (text : Text) (start : Nat) : Parse ItemId :=
  let constant := constantAt grammar quote text start
  let raw := text.slice start (start + 1 + constant.length)
  createLeaf (.constantText raw (String.ofList constant.text) quote constant.closed) .text raw start
    >>= finishConstant quote constant start

omit lawful heading in
theorem textConstant_run (grammar : Grammar) (quote : Char) (s : ParseState) :
    textConstant grammar quote s = constantFrom grammar quote s.cursor.text s.cursor.position s := rfl

omit lawful in
/-- A constant without end is reported, so all places move alike. -/
theorem ends_finishConstant {quote : Char} {constant : Constant} {start item : Nat} :
    Ends (finishConstant quote constant start item) s
      (fun _ t => ahead t → W.rigid ∨ constant.closed = true) fun _ _ => False := by
  unfold finishConstant
  cases constant.closed with
  | true => exact ends_ok rfl fun _ => Or.inr rfl
  | false =>
      refine ends_ok rfl fun isAhead => Or.inl ?_
      exact rigid_of_fault heading isAhead (List.mem_append_right _ List.mem_cons_self)

section Constant

variable {quote : Char} {constant constant' : Constant} {start : Nat}

theorem lock_finishConstant {item : Nat}
    (given : ahead s → W.Near s s' ∧ W.front start ∧ Known s item ∧
      W.expects start (1 + constant.length) ∧ start + (1 + constant.length) ≤ W.text.size ∧
      constant'.length = constant.length ∧ constant'.closed = constant.closed) :
    W.Locked ahead W.rename s s' (finishConstant quote constant start item)
      (finishConstant quote constant' (W.move start) (W.rename item)) fun item t t' =>
        Known t item ∧ W.Beside t t' ∧ t.cursor.position = start + (1 + constant.length) := by
  have moved : ∀ u u', Later s u → (ahead u → ahead s ∧ W.Stays s s' u u') →
      W.Locked ahead W.rename u u'
        (moveTo (start + 1 + constant.length) >>= fun _ => pure item)
        (moveTo (W.move start + 1 + constant'.length) >>= fun _ => pure (W.rename item))
        fun item t t' => Known t item ∧ W.Beside t t' ∧
          t.cursor.position = start + (1 + constant.length) := by
    intro u u' grown stays
    apply lock_moveTo_bind
    refine lock_pure fun isAhead _ => ⟨rfl, ?_⟩
    obtain ⟨isAhead, stays⟩ := stays (heading.later (later_moved u _) isAhead)
    obtain ⟨_, front, known, expects, inside, length, _⟩ := given isAhead
    obtain ⟨rest, moves⟩ := lawful.consume start _ expects front inside
    have beside := stays.near.beside_moveTo lawful rest
    rw [moves, ← Nat.add_assoc, ← Nat.add_assoc] at beside
    rw [length]
    exact ⟨(known.later grown).later (later_moved u _), beside.1, by rw [beside.2, Nat.add_assoc]⟩
  apply lock_ite heading
  · intro isAhead
    rw [(given isAhead).2.2.2.2.2.2]
  · intro _
    apply (lock_report heading fun isAhead => ?_).bind heading
    · intro _ u u' grown reported
      exact moved u u' grown fun isAhead => (reported isAhead).imp_right And.left
    · obtain ⟨near, _, _, _, _, length, _⟩ := given isAhead
      exact ⟨near, fun _ => ⟨rfl, by omega, rfl⟩⟩
  · exact fun _ => moved s s' (.refl s) fun isAhead => ⟨isAhead, (given isAhead).1.stays⟩

theorem lock_leafConstant (constant_ : constantAt W.grammar quote s.cursor.text start = constant)
    (constant_' : constantAt W.grammar quote s'.cursor.text (W.move start) = constant')
    (given : ahead s → W.Near s s' ∧ W.front start ∧ s.cursor.text[start]? = some quote ∧
      quote ∈ W.grammar.quotes ∧ (W.rigid ∨ constant.closed = true)) :
    W.Locked ahead W.rename s s'
      (let raw := s.cursor.text.slice start (start + 1 + constant.length)
      createLeaf (.constantText raw (String.ofList constant.text) quote constant.closed) .text raw start)
      (let raw := s'.cursor.text.slice (W.move start) (W.move start + 1 + constant'.length)
      createLeaf (.constantText raw (String.ofList constant'.text) quote constant'.closed) .text raw
        (W.move start)) fun item t t' => Known t item ∧ W.Stays s s' t t' ∧
          W.expects start (1 + constant.length) ∧ start + (1 + constant.length) ≤ W.text.size ∧
          constant'.length = constant.length ∧ constant'.closed = constant.closed := by
  -- The token that the constant becomes tells that it is the same in the other text.
  have spelled : ahead s → (s.cursor.text.slice start (start + 1 + constant.length)).length =
      1 + constant.length ∧ start + (1 + constant.length) ≤ W.text.size := by
    intro isAhead
    obtain ⟨near, _, here, _⟩ := given isAhead
    obtain ⟨inside, _⟩ := Array.getElem?_eq_some_iff.mp here
    have bound := Constant.length_decode_le W.grammar.textEscape quote (s.cursor.text.rest (start + 1))
    rw [← constantAt, constant_] at bound
    simp only [Text.rest, Array.length_toList, Array.size_extract] at bound
    rw [Text.length_slice, ← near.text]
    omega
  have image : ahead s → W.expects start (1 + constant.length) →
      ∃ decoded, constant' = { constant with text := decoded } ∧
        W.decoded (String.ofList constant.text) (String.ofList decoded) := by
    intro isAhead expects
    obtain ⟨near, front, here, member, closed⟩ := given isAhead
    rw [near.text] at here constant_
    rw [near.other] at constant_'
    subst constant_ constant_'
    exact lawful.constant start quote front here member expects closed
  apply (lock_createLeaf lawful heading rfl fun isAhead => ?_).imp
  · rintro item t t' grown isAhead _ ⟨known, stays, expects⟩
    have isAhead := heading.later grown isAhead
    obtain ⟨length, inside⟩ := spelled isAhead
    rw [length] at expects
    have expects := expects (by omega)
    obtain ⟨decoded, rfl, _⟩ := image isAhead expects
    exact ⟨known, stays, expects, inside, rfl, rfl⟩
  · obtain ⟨near, front, here, member⟩ := given isAhead
    obtain ⟨length, inside⟩ := spelled isAhead
    refine ⟨near, front, rfl, fun expects => ?_⟩
    rw [length] at expects
    have expects := expects (by omega)
    obtain ⟨decoded, rfl, same⟩ := image isAhead expects
    have raw : s'.cursor.text.slice (W.move start) (W.move start + 1 + constant.length) =
        W.word (s.cursor.text.slice start (start + 1 + constant.length)) := by
      rw [near.text, near.other, Nat.add_assoc, Nat.add_assoc]
      exact lawful.slice start _ expects front inside
    rw [raw]
    exact ⟨⟨_, same, rfl⟩, rfl⟩

end Constant

theorem lock_textConstant {quote : Char}
    (given : ahead s → W.Beside s s' ∧ W.front s.cursor.position ∧
      s.cursor.text[s.cursor.position]? = some quote ∧ quote ∈ W.grammar.quotes) :
    W.Locked ahead W.rename s s' (textConstant W.grammar quote) (textConstant W.grammar quote)
      (W.Took s) := by
  let start := s.cursor.position
  let constant := constantAt W.grammar quote s.cursor.text start
  have lock : W.Locked ahead W.rename s s' (constantFrom W.grammar quote s.cursor.text start)
      (constantFrom W.grammar quote s'.cursor.text (W.move start)) (W.Took s) := by
    apply lock_given (W.rigid ∨ constant.closed = true)
    · have heading := heading.given (W.rigid ∨ constant.closed = true)
      apply (lock_leafConstant lawful heading rfl rfl fun known => ?_).bind heading
      · intro item t t' _ leaf
        apply (lock_finishConstant lawful heading fun known => ?_).imp
        · rintro item u u' _ _ _ ⟨known, beside, position⟩
          exact ⟨beside, known, by omega⟩
        · obtain ⟨⟨isAhead, _⟩, known, stays, facts⟩ := leaf known
          exact ⟨stays.near, (given isAhead).2.1, known, facts⟩
      · obtain ⟨beside, front, here, member⟩ := given known.1
        exact ⟨beside.toNear, front, here, member, known.2⟩
    · apply (ends_somehow _ s).bind
      · exact fun item t _ => (ends_finishConstant heading).imp
          (fun _ _ closed isAhead _ => closed isAhead) fun _ _ never => never.elim
      · exact fun _ _ _ rigid _ => Or.inl rigid
  apply lock_other heading (lock.before (.refl s) (textConstant_run W.grammar quote s) rfl)
  intro isAhead
  rw [textConstant_run, (given isAhead).1.position]

/-! Numbers and names -/

theorem lock_number {written : NumericMatch}
    (given : ahead s → W.Beside s s' ∧ W.front s.cursor.position ∧
      W.grammar.numberAt? s.cursor.text s.cursor.position = some written) :
    W.Locked ahead W.rename s s' (number written) (number written) (W.Took s) := by
  unfold number
  rw [Locked, lock_position_bind, lock_slice_bind]
  have inside : ahead s → s.cursor.position + written.length ≤ W.text.size ∧
      (s.cursor.text.slice s.cursor.position (s.cursor.position + written.length)).length =
        written.length ∧ 0 < written.length := by
    intro isAhead
    obtain ⟨beside, _, found⟩ := given isAhead
    rw [beside.text] at found ⊢
    have inside := lawful.digits _ written found
    exact ⟨inside, Grammar.length_slice_of_inside inside, Grammar.numberAt_length found⟩
  apply (lock_createLeaf lawful heading rfl fun isAhead => ?_).bind heading
  · intro item t t' grown leaf
    apply lock_skip_bind
    refine lock_pure fun isAhead _ => ⟨rfl, ?_⟩
    obtain ⟨isAhead, known, stays, expects⟩ := leaf (heading.later (later_moved t _) isAhead)
    obtain ⟨beside, front, _⟩ := given isAhead
    obtain ⟨inside, length, filled⟩ := inside isAhead
    rw [length] at expects
    obtain ⟨behind, position⟩ := beside.behind lawful stays front (expects filled) inside
    refine ⟨behind, known.later (later_moved t _), ?_⟩
    simp only [position]
    omega
  · obtain ⟨beside, front, _⟩ := given isAhead
    obtain ⟨inside, length, filled⟩ := inside isAhead
    refine ⟨beside.toNear, front, beside.position, fun expects => ?_⟩
    rw [length] at expects
    have same := lawful.slice _ _ (expects filled) front inside
    rw [← beside.text, ← beside.other, ← beside.position] at same
    rw [same]
    exact ⟨rfl, rfl⟩

/-- Without a name nothing has happened. -/
theorem lock_name (given : ahead s → W.Beside s s' ∧ W.front s.cursor.position) :
    W.Locked ahead (Option.map W.rename) s s' (name? W.grammar) (name? W.grammar) fun found t t' =>
      match found with
      | none => t = s ∧ t' = s'
      | some item => W.Took s item t t' := by
  unfold name?
  rw [Locked, lock_position_bind, lock_text_bind]
  generalize stop_ : W.grammar.nameEnd s.cursor.text s.cursor.position = stop
  generalize stop_' : W.grammar.nameEnd s'.cursor.text s'.cursor.position = stop'
  dsimp only
  have further := W.grammar.le_nameEnd s.cursor.text s.cursor.position
  rw [stop_] at further
  -- A name is as long in the other text, so the same characters are taken there.
  have image : ahead s → stop' = s'.cursor.position + (stop - s.cursor.position) ∧
      stop ≤ W.text.size ∧ (s.cursor.text.slice s.cursor.position stop).length =
        stop - s.cursor.position := by
    intro isAhead
    obtain ⟨beside, front⟩ := given isAhead
    have same := lawful.name _ front
    have inside := W.grammar.nameEnd_le (lawful.inside _ beside.rest).1
    rw [← beside.text, ← beside.other, ← beside.position, stop_, stop_'] at same
    rw [← beside.text, stop_] at inside
    refine ⟨same, beside.text ▸ inside, ?_⟩
    rw [Text.length_slice]
    omega
  apply lock_ite heading
  · intro isAhead
    have := (image isAhead).1
    omega
  · intro _
    exact lock_pure fun _ _ => ⟨rfl, rfl, rfl⟩
  · intro filled
    rw [lock_slice_bind]
    apply (lock_createLeaf lawful heading rfl fun isAhead => ?_).bind heading
    · intro item t t' grown leaf
      apply lock_moveTo_bind
      refine lock_pure fun isAhead _ => ⟨rfl, ?_⟩
      obtain ⟨isAhead, known, stays, expects⟩ := leaf (heading.later (later_moved t _) isAhead)
      obtain ⟨beside, front⟩ := given isAhead
      obtain ⟨same, inside, length⟩ := image isAhead
      rw [length] at expects
      obtain ⟨rest, moves⟩ := lawful.consume _ _ (expects (by omega)) front (by omega)
      obtain ⟨behind, position⟩ := stays.near.beside_moveTo lawful rest
      have here : s.cursor.position + (stop - s.cursor.position) = stop := by omega
      rw [moves, ← beside.position, ← same, here] at behind
      rw [here] at position
      refine ⟨behind, known.later (later_moved t _), ?_⟩
      simp only [position]
      omega
    · obtain ⟨beside, front⟩ := given isAhead
      obtain ⟨same, inside, length⟩ := image isAhead
      refine ⟨beside.toNear, front, beside.position, fun expects => ?_⟩
      rw [length] at expects
      have spelled := lawful.slice _ _ (expects (by omega)) front (by omega)
      have here : s.cursor.position + (stop - s.cursor.position) = stop := by omega
      rw [← beside.text, ← beside.other, ← beside.position, ← same, here] at spelled
      rw [spelled]
      exact ⟨rfl, rfl⟩

end ExprLang.Tandem
