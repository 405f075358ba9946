import ExprLang.Proofs.Fields.Steps

/-!
Operands and what encloses expressions. The parameters of braces are written into their fields when
the last of them has been parsed; until then they are read off the passes of the loop. The statements
of a code block are written down one by one, each right behind the part.
-/

namespace ExprLang.Parse

open Forest (Filled IsComplex Built)

variable {known : List ItemId} {grammar : Grammar} {inner : Inner}

/-- What the steps inside a construct give is no token. -/
def InnerFills (inner : Inner) : Prop := ∀ context, Fills [] (·.item.toList) (inner context)

/-! Plain operands -/

theorem fills_createLeaf {kind : ItemKind} {token : TokenKind} {word : String} {start : Nat}
    (plain : kind.Plain) (complex : kind.isToken = false) :
    Fills known (fun id => [id]) (createLeaf kind token word start) :=
  fills_made plain complex fun _ =>
    adds_bind (adds_of_fills fills_createToken) fun _ _ =>
      adds_bind adds_attach fun _ _ => adds_pure rfl

theorem fills_textConstant (quote : Char) :
    Fills known (fun id => [id]) (textConstant grammar quote) := by
  refine fills_bind fills_position fun _ => ?_
  refine fills_bind fills_text fun _ => ?_
  refine fills_bind fills_slice fun _ => ?_
  refine fills_bind (fills_createLeaf (fun _ _ _ => trivial) rfl) fun item => ?_
  dsimp only
  split
  · refine fills_bind fills_report fun _ => ?_
    exact fills_bind fills_moveTo fun _ => fills_pure (by simp)
  · exact fills_bind fills_moveTo fun _ => fills_pure (by simp)

theorem fills_number (written : NumericMatch) : Fills known (fun id => [id]) (number written) := by
  refine fills_bind fills_position fun _ => ?_
  refine fills_bind fills_slice fun _ => ?_
  refine fills_bind (fills_createLeaf (fun _ _ _ => trivial) rfl) fun item => ?_
  exact fills_bind fills_skip fun _ => fills_pure (by simp)

theorem fills_name : Fills known (fun found => found.toList) (name? grammar) := by
  refine fills_bind fills_position fun _ => ?_
  refine fills_bind fills_text fun _ => ?_
  dsimp only
  split
  · exact fills_pure (List.nil_subset _)
  · refine fills_bind fills_slice fun _ => ?_
    refine fills_bind (fills_createLeaf (fun _ _ _ => trivial) rfl) fun item => ?_
    exact fills_bind fills_moveTo fun _ => fills_pure (by simp)

/-! Braces -/

/-- The places that have been parsed, each with the comma behind it. -/
structure Places (forest : Forest) (closed : List (Option ItemId × ItemId)) : Prop where
  commas : ∀ place ∈ closed, place.2 < forest.size ∧ forest.tokenKind? place.2 = some .comma
  items : ∀ place ∈ closed, ∀ item ∈ place.1, forest.IsComplex item

/-- The regular parts of these places. -/
def placeParts (closed : List (Option ItemId × ItemId)) : List ItemId :=
  closed.flatMap fun place => place.1.toList ++ [place.2]

theorem Places.stays {before after : Forest} {apart : List ItemId}
    {closed : List (Option ItemId × ItemId)} (places : Places before closed)
    (filled : Filled apart before after) : Places after closed where
  commas place member := by
    obtain ⟨inside, isComma⟩ := places.commas place member
    exact ⟨Nat.lt_of_lt_of_le inside filled.size, (filled.tokens _ inside).trans isComma⟩
  items place member item inPlace := (places.items place member item inPlace).stays filled

theorem Places.snoc {forest : Forest} {closed : List (Option ItemId × ItemId)} {last : Option ItemId}
    {comma : ItemId} (places : Places forest closed) (complex : ∀ item ∈ last, forest.IsComplex item)
    (inside : comma < forest.size) (isComma : forest.tokenKind? comma = some .comma) :
    Places forest (closed ++ [(last, comma)]) where
  commas place member := by
    rcases List.mem_append.mp member with old | new
    · exact places.commas place old
    · exact List.mem_singleton.mp new ▸ ⟨inside, isComma⟩
  items place member := by
    rcases List.mem_append.mp member with old | new
    · exact places.items place old
    · exact List.mem_singleton.mp new ▸ complex

/-- A row of places with what stands behind the last comma. -/
theorem Places.listed {forest : Forest} {closed : List (Option ItemId × ItemId)}
    {last : Option ItemId} (places : Places forest closed)
    (complex : ∀ item ∈ last, forest.IsComplex item) {seenComma : Bool}
    (seen : seenComma = !closed.isEmpty) :
    ItemKind.Listed forest.tokenKind? (placeParts closed ++ last.toList)
      (if last.isSome || seenComma then closed.map (·.1) ++ [last] else closed.map (·.1)) := by
  refine ⟨closed, last, rfl, fun place member => (places.commas place member).2, ?_, ?_⟩
  · intro place member item inPlace
    rcases List.mem_append.mp member with old | new
    · obtain ⟨pair, inClosed, rfl⟩ := List.mem_map.mp old
      exact (places.items pair inClosed item inPlace).noToken
    · obtain rfl := List.mem_singleton.mp new
      exact (complex item inPlace).noToken
  · subst seen
    cases closed with
    | nil => cases last <;> simp [placeParts]
    | cons first rest => simp [placeParts]

variable {item : ItemId} {base : Forest}

/-- What the loop over the parameters gives: they are those of the parts that it has added. -/
structure Parameters (item : ItemId) (kind : ItemKind) (brace : BraceKind) (front : List ItemId)
    (base : Forest) (read : List (Option ItemId) × Option ItemId) (forest : Forest) : Prop where
  parts : ∃ between children, Built item kind (front ++ (between ++ read.2.toList)) children base forest ∧
    ItemKind.Listed forest.tokenKind? between read.1
  closing : ∀ token ∈ read.2, forest.tokenKind? token = some (.closingBrace brace)

theorem ends_parameters_built (inside : InnerFills inner) {kind : ItemKind} {brace : BraceKind}
    {front : List ItemId} (passes : Nat) :
    ∀ {s : ParseState} (closed : List (Option ItemId × ItemId)) {children : List ItemId}
      {seenComma : Bool}, Built item kind (front ++ placeParts closed) children base s.forest →
      Places s.forest closed → (seenComma = !closed.isEmpty) →
      Ends (parameters inner item brace passes (closed.map (·.1)) seenComma) s
        (fun read t => Parameters item kind brace front base read t.forest) fun _ _ => True := by
  induction passes with
  | zero => intros; exact ends_error rfl trivial
  | succ passes ih =>
      intro s closed children seenComma built places seen
      unfold parameters
      refine Ends.bind (inside .braces s built.filled.closed (by simp)) ?_ fun _ _ _ => trivial
      intro segment t reached
      obtain ⟨complex, filled⟩ := reached
      refine Ends.bind (ends_addChild_option (built.stays filled)) ?_ fun _ _ _ => trivial
      intro _ u reached
      obtain ⟨filledChild, builtChild⟩ := reached
      refine Ends.bind ends_skipGap ?_ fun _ _ never => never.elim
      intro _ v reached
      obtain ⟨same, _⟩ := reached
      rw [← same] at filledChild builtChild
      have complexItem : ∀ id ∈ segment.item, v.forest.IsComplex id := fun id isItem =>
        (complex id (Option.mem_toList.mpr isItem)).stays filledChild
      have placesHere := (places.stays filled).stays filledChild
      rw [List.append_assoc] at builtChild
      simp only [ends_position_bind, ends_current_bind]
      have unclosed : Ends (do
          report v.cursor.position 0 (.closingBraceMissing brace.closing)
          return (if segment.item.isSome || seenComma then closed.map (·.1) ++ [segment.item]
            else closed.map (·.1), none) : Parse (List (Option ItemId) × Option ItemId)) v
          (fun read t => Parameters item kind brace front base read t.forest) fun _ _ => True := by
        refine ends_bind (ends_ok rfl (ends_pure ⟨⟨_, children ++ segment.item.toList, ?_,
          placesHere.listed complexItem seen⟩, by simp⟩))
        simpa using builtChild
      split
      · split
        -- A comma closes the place before it.
        · refine Ends.bind (ends_createToken_kind builtChild.filled.closed) ?_ fun _ _ _ => trivial
          intro comma w made
          refine Ends.bind (ends_addRegular_built (builtChild.stays made.filled)) ?_ fun _ _ _ => trivial
          intro _ x reached
          obtain ⟨filledLink, builtLink⟩ := reached
          have placesComma := (placesHere.stays made.filled).snoc
            (fun id isItem => (complexItem id isItem).stays made.filled) made.inside made.isKind
          refine ends_bind (ends_ok rfl ?_)
          have builtHere : Built item kind (front ++ placeParts (closed ++ [(segment.item, comma)]))
              (children ++ segment.item.toList) base x.forest := by
            simpa [placeParts] using builtLink
          have seenHere : true = !(closed ++ [(segment.item, comma)]).isEmpty := by simp
          simpa using ih (s := { x with cursor := x.cursor.skip 1 }) _ builtHere
            (placesComma.stays filledLink) seenHere
        · split
          · refine Ends.bind (ends_createToken_kind builtChild.filled.closed) ?_ fun _ _ _ => trivial
            intro token w made
            refine Ends.bind (ends_addRegular_built (builtChild.stays made.filled)) ?_
              fun _ _ _ => trivial
            intro _ x reached
            obtain ⟨filledLink, builtLink⟩ := reached
            have listed := ((placesHere.stays made.filled).stays filledLink).listed
              (fun id isItem => ((complexItem id isItem).stays made.filled).stays filledLink) seen
            refine ends_bind (ends_ok rfl (ends_pure ⟨⟨_, children ++ segment.item.toList, ?_,
              listed⟩, ?_⟩))
            · simpa using builtLink
            · simpa using (filledLink.tokens token made.inside).trans made.isKind
          · exact unclosed
      · exact unclosed

theorem fills_braces (inside : InnerFills inner) (name : Option ItemId) :
    Fills known (fun id => [id]) (braces inner name) := by
  intro s closed _
  unfold braces
  simp only [ends_position_bind, ends_current_bind]
  split
  · exact ends_error rfl trivial
  · rename_i brace _
    refine Ends.bind (ends_createToken_kind closed) ?_ fun _ _ _ => trivial
    intro opening t isNew
    refine ends_after isNew.filled (ends_made isNew.filled.closed fun u made tokens => ?_)
    refine Ends.bind (ends_addChild_option made) ?_ fun _ _ _ => trivial
    intro _ v reached
    obtain ⟨filledName, builtName⟩ := reached
    refine Ends.bind (ends_addRegular_built builtName) ?_ fun _ _ _ => trivial
    intro _ w reached
    obtain ⟨filledLink, builtLink⟩ := reached
    refine ends_bind (ends_ok rfl ?_)
    simp only [ends_remaining_bind]
    refine Ends.bind (ends_parameters_built inside _ [] (by simpa [placeParts] using builtLink)
      ⟨by simp, by simp⟩ rfl) ?_ fun _ _ _ => trivial
    intro read x reached
    obtain ⟨⟨between, children, builtParts, listed⟩, closing⟩ := reached
    have isOpening : x.forest.tokenKind? opening = some (.openingBrace brace) := by
      rw [builtParts.filled.tokens opening (Nat.lt_trans isNew.inside made.inside),
        tokens opening isNew.inside, isNew.isKind]
    obtain ⟨builtAll, same⟩ := builtParts.setKind (.braces brace name opening read.2 read.1) rfl rfl
    refine ends_bind (ends_ok rfl (ends_pure ⟨rfl, ⟨_, _, children, builtAll, ?_, rfl⟩⟩))
    exact ⟨between, by simp, same ▸ isOpening, same ▸ closing, same ▸ listed⟩

theorem fills_literal (inside : InnerFills inner) :
    Fills known (fun found => found.toList) (literal? grammar inner) := by
  unfold literal?
  refine fills_bind fills_name fun found => ?_
  split
  · exact fills_pure (List.nil_subset _)
  · refine fills_bind fills_get fun _ => ?_
    dsimp only
    split
    · refine fills_bind fills_skipGap fun _ => ?_
      exact fills_bind (fills_braces inside _) fun item => fills_pure (by simp)
    · exact fills_pure (by simp)

/-! Lists of statements -/

section Statements

variable {owner : ItemId} {kind : ItemKind} {regular children : List ItemId} {s : ParseState}

theorem ends_addStatement_built (built : Built owner kind regular children base s.forest)
    (complex : kind.isToken = false) (stays : (noteStatement item kind).isToken = false) :
    Ends (addStatement owner item) s
      (fun _ t => Filled [owner] s.forest t.forest ∧
        Built owner (noteStatement item kind) (regular ++ [item]) (children ++ [item]) base t.forest)
      fun _ _ => True := by
  refine Ends.bind (ends_addChild_built built) ?_ fun _ _ _ => trivial
  intro _ t reached
  obtain ⟨filled, builtChild⟩ := reached
  obtain ⟨filledKind, builtKind⟩ := builtChild.changeKind (noteStatement item) complex stays
  exact ends_ok rfl ⟨filled.trans filledKind, builtKind⟩

/-- A statement may also be added only if there is one. -/
theorem ends_addStatement_option {statement : Option ItemId}
    (built : Built owner kind regular children base s.forest) (complex : kind.isToken = false)
    (stays : ∀ item, (noteStatement item kind).isToken = false) :
    Ends (statement.forM (addStatement owner)) s
      (fun _ t => Filled [owner] s.forest t.forest ∧
        Built owner (statement.elim kind fun item => noteStatement item kind)
          (regular ++ statement.toList) (children ++ statement.toList) base t.forest)
      fun _ _ => True := by
  cases statement with
  | none =>
      refine ends_pure ⟨Forest.filled_refl built.filled.closed ?_, ?_⟩
      · simpa using built.inside
      · simpa using built
  | some item => exact ends_addStatement_built built complex (stays item)

/-- A separator with the token that has been made for it. -/
structure Separated (owner : ItemId) (kind : ItemKind) (regular children : List ItemId)
    (base before after : Forest) (token : ItemId) : Prop where
  filled : Filled [owner] before after
  new : before.size ≤ token
  inside : token < after.size
  isSeparator : after.tokenKind? token = some .separator
  built : Built owner (noteSeparator token kind) (regular ++ [token]) children base after

theorem ends_addSeparator_built {place : Nat}
    (built : Built owner kind regular children base s.forest) (complex : kind.isToken = false)
    (stays : ∀ token, (noteSeparator token kind).isToken = false) :
    Ends (addSeparator owner place) s
      (fun _ t => ∃ token, Separated owner kind regular children base s.forest t.forest token)
      fun _ _ => True := by
  unfold addSeparator
  simp only [ends_slice_bind]
  refine Ends.bind (ends_createToken_kind built.filled.closed) ?_ fun _ _ _ => trivial
  intro token t made
  refine Ends.bind (ends_addRegular_built (built.stays made.filled)) ?_ fun _ _ _ => trivial
  intro _ u reached
  obtain ⟨filledLink, builtLink⟩ := reached
  obtain ⟨filledKind, builtKind⟩ := builtLink.changeKind (noteSeparator token) complex
    (stays token)
  have filledAll := filledLink.trans filledKind
  refine ends_bind (ends_ok rfl (ends_ok rfl ⟨token, ?_⟩))
  exact {
    filled := (made.filled.widen (by simpa using built.inside)).trans filledAll
    new := made.new
    inside := Nat.lt_of_lt_of_le made.inside filledAll.size
    isSeparator := (filledAll.tokens token made.inside).trans made.isKind
    built := builtKind }

/-- The regular parts behind the start token of a code block. -/
def Statements (forest : Forest) (between : List ItemId) : Prop :=
  ∀ part ∈ between, part < forest.size ∧
    (forest.tokenKind? part = none ∨ forest.tokenKind? part = some .separator)

theorem Statements.stays {before after : Forest} {apart between : List ItemId}
    (statements : Statements before between) (filled : Filled apart before after) :
    Statements after between := fun part member => by
  obtain ⟨inside, isKind⟩ := statements part member
  rw [filled.tokens part inside]
  exact ⟨Nat.lt_of_lt_of_le inside filled.size, isKind⟩

theorem Statements.append {forest : Forest} {between more : List ItemId}
    (statements : Statements forest between) (others : Statements forest more) :
    Statements forest (between ++ more) := fun part member =>
  (List.mem_append.mp member).elim (statements part) (others part)

/-- What the loop over the statements gives. -/
structure Block (block start : ItemId) (base forest : Forest) : Prop where
  parts : ∃ between stop statements, Statements forest between ∧
    (∀ token ∈ stop, forest.tokenKind? token = some .codeBlockEnd) ∧
    Built block (.codeBlock start stop statements) (start :: (between ++ stop.toList)) statements
      base forest

theorem ends_blockStatements_built (inside : InnerFills inner) {block start : ItemId} {markers : MarkerPair}
    {blockStart : Nat} (passes : Nat) :
    ∀ {s : ParseState} (between : List ItemId) {statements : List ItemId},
      Built block (.codeBlock start none statements) (start :: between) statements base s.forest →
      Statements s.forest between →
      Ends (blockStatements grammar inner block markers blockStart passes) s
        (fun _ t => Block block start base t.forest) fun _ _ => True := by
  induction passes with
  | zero => intros; exact ends_error rfl trivial
  | succ passes ih =>
      intro s between statements built others
      unfold blockStatements
      simp only [ends_position_bind]
      refine Ends.bind (inside .codeBlock s built.filled.closed (by simp)) ?_ fun _ _ _ => trivial
      intro segment t reached
      obtain ⟨complex, filled⟩ := reached
      refine Ends.bind (ends_addStatement_option (built.stays filled) rfl fun _ => rfl) ?_
        fun _ _ _ => trivial
      intro _ u reached
      obtain ⟨filledStatement, builtStatement⟩ := reached
      refine Ends.bind ends_skipGap ?_ fun _ _ never => never.elim
      intro _ v reached
      obtain ⟨same, _⟩ := reached
      rw [← same] at filledStatement builtStatement
      have builtHere : Built block (.codeBlock start none (statements ++ segment.item.toList))
          (start :: (between ++ segment.item.toList)) (statements ++ segment.item.toList) base
          v.forest := by
        cases isItem : segment.item <;> simpa [isItem, noteStatement] using builtStatement
      have othersHere : Statements v.forest (between ++ segment.item.toList) := by
        refine ((others.stays filled).stays filledStatement).append fun item member => ?_
        have isComplex := (complex item member).stays filledStatement
        exact ⟨isComplex.inside, Or.inl isComplex.noToken⟩
      have again : ∀ {w : ParseState}, w.forest = v.forest →
          Ends (blockStatements grammar inner block markers blockStart passes) w
            (fun _ t => Block block start base t.forest) fun _ _ => True := fun same =>
        ih _ (same ▸ builtHere) (same ▸ othersHere)
      simp only [ends_position_bind, ends_current_bind]
      split
      -- At the end of the text the block is left without an end marker.
      · refine ends_ok rfl ⟨_, none, statements ++ segment.item.toList, othersHere, by simp, ?_⟩
        simpa using builtHere
      · simp only [ends_text_bind]
        split
        -- The end marker is added behind all statements, and noted at last.
        · simp only [ends_slice_bind]
          refine Ends.bind (ends_createToken_kind builtHere.filled.closed) ?_ fun _ _ _ => trivial
          intro token w made
          refine Ends.bind (ends_addRegular_built (builtHere.stays made.filled)) ?_ fun _ _ _ => trivial
          intro _ x reached
          obtain ⟨filledLink, builtLink⟩ := reached
          obtain ⟨filledKind, builtKind⟩ := builtLink.changeKind (noteBlockEnd token) rfl rfl
          have filledAll := filledLink.trans filledKind
          refine ends_bind (ends_ok rfl (ends_ok rfl ⟨_, some token, _,
            (othersHere.stays made.filled).stays filledAll, ?_, builtKind⟩))
          simpa using (filledAll.tokens token made.inside).trans made.isKind
        · split
          · refine Ends.bind (ends_addSeparator_built builtHere rfl fun _ => rfl) ?_ fun _ _ _ => trivial
            intro _ w reached
            obtain ⟨token, separated⟩ := reached
            refine ih _ separated.built ((othersHere.stays separated.filled).append fun part member => ?_)
            obtain rfl := List.mem_singleton.mp member
            exact ⟨separated.inside, Or.inr separated.isSeparator⟩
          · split
            · exact again rfl
            · split
              · exact ends_bind (ends_ok rfl (again rfl))
              · split
                · exact ends_error rfl trivial
                · exact again rfl

theorem fills_codeBlock (inside : InnerFills inner) :
    Fills known (fun id => [id]) (codeBlock grammar inner) := by
  intro s closed _
  unfold codeBlock
  simp only [ends_position_bind]
  split
  · exact ends_error rfl trivial
  · simp only [ends_slice_bind]
    refine Ends.bind (ends_createToken_kind closed) ?_ fun _ _ _ => trivial
    intro token t isNew
    refine ends_after isNew.filled (ends_made isNew.filled.closed fun u made tokens => ?_)
    refine Ends.bind (ends_addRegular_built made) ?_ fun _ _ _ => trivial
    intro _ v reached
    obtain ⟨_, builtStart⟩ := reached
    refine ends_bind (ends_ok rfl ?_)
    simp only [ends_remaining_bind]
    refine Ends.bind (ends_blockStatements_built inside _ [] builtStart (by simp [Statements])) ?_
      fun _ _ _ => trivial
    intro _ w reached
    obtain ⟨between, stop, statements, others, isStop, built⟩ := reached.parts
    have isStart : w.forest.tokenKind? token = some .codeBlockStart := by
      rw [built.filled.tokens token (Nat.lt_trans isNew.inside made.inside),
        tokens token isNew.inside, isNew.isKind]
    refine ends_pure ⟨rfl, ⟨_, _, _, built, ?_, rfl⟩⟩
    exact ⟨between, rfl, isStart, isStop, fun part member => (others part member).2, rfl⟩

end Statements

end ExprLang.Parse
