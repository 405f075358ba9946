import ExprLang.Proofs.Progress.Alike

/-!
Braces and code blocks. What is parsed inside them begins behind their opening, so they ask for segments
further on only. A list of parameters or statements goes on behind something that has been consumed: a
comma, a separator, a stray symbol or a statement.
-/

namespace ExprLang.Parse

open ParseState (Within Onward Beyond)

variable {inner other : Inner} {s : ParseState}

/-- A segment that ends with a code block has moved the cursor. -/
def ClosedBeyond (s : ParseState) (segment : Segment) (t : ParseState) : Prop :=
  segment.closedByBlock = true → s.Beyond t

/-- At every state that is `reached` segments are parsed alike. -/
def InnerAlike (reached : ParseState → Prop) (inner other : Inner) : Prop :=
  ∀ context t, reached t → Alike t (inner context) (other context) (ClosedBeyond t)

theorem InnerAlike.later {t : ParseState} (inside : InnerAlike s.Onward inner other)
    (onward : s.Onward t) : InnerAlike t.Onward inner other :=
  fun context _ further => inside context _ (onward.trans further)

theorem InnerAlike.beyond {t : ParseState} (inside : InnerAlike s.Beyond inner other)
    (beyond : s.Beyond t) : InnerAlike t.Onward inner other :=
  fun context _ further => inside context _ (beyond.trans_onward further)

theorem lt_size_of_getElem {text : Text} {place : Nat} {c : Char} (here : text[place]? = some c) :
    place < text.size := (Array.getElem?_eq_some_iff.mp here).1

theorem goes_skip (within : s.Within) (count : Nat) :
    Goes s (skip count) fun _ t => t = { s with cursor := s.cursor.skip count } :=
  ends_ok rfl ⟨ParseState.onward_moveTo within (Nat.le_add_right _ _), rfl⟩

/-- Skipping something that stands in the text. -/
theorem goes_skip_beyond (inside : s.cursor.position < s.cursor.text.size) {count : Nat}
    (filled : 0 < count) : Goes s (skip count) fun _ t => s.Beyond t := by
  have moved := ParseState.beyond_moveTo inside (Nat.lt_add_of_pos_right (n := s.cursor.position) filled)
  exact ends_ok rfl ⟨moved.toOnward, moved⟩

theorem goes_moveTo_beyond (inside : s.cursor.position < s.cursor.text.size) {place : Nat}
    (further : s.cursor.position < place) : Goes s (moveTo place) fun _ t => s.Beyond t := by
  have moved := ParseState.beyond_moveTo inside further
  exact ends_ok rfl ⟨moved.toOnward, moved⟩

/-! Parameters -/

/-- One parameter and what stands behind it. -/
def parametersRound (inner : Inner) (braces : ItemId) (kind : BraceKind)
    (again : List (Option ItemId) × Bool → Parse (List (Option ItemId) × Option ItemId))
    (read : List (Option ItemId) × Bool) : Parse (List (Option ItemId) × Option ItemId) := do
  let segment ← inner .braces
  segment.item.forM (addChild braces)
  skipGap
  let place ← position
  let last := if segment.item.isSome || read.2 then read.1 ++ [segment.item] else read.1
  match ← current? with
  | some c =>
      if c = ',' then
        addRegular braces (← createToken .comma "," place)
        skip 1
        again (read.1 ++ [segment.item], true)
      else if c = kind.closing then
        let token ← createToken (.closingBrace kind) (String.singleton c) place
        addRegular braces token
        skip 1
        return (last, some token)
      else
        report place 0 (.closingBraceMissing kind.closing)
        return (last, none)
  | none =>
      report place 0 (.closingBraceMissing kind.closing)
      return (last, none)

theorem parameters_round (inner : Inner) (braces : ItemId) (kind : BraceKind) (count : Nat)
    (read : List (Option ItemId) × Bool) :
    parameters inner braces kind (count + 1) read.1 read.2 =
      parametersRound inner braces kind
        (fun read => parameters inner braces kind count read.1 read.2) read := rfl

/-- A sign of one character becomes a part of what is around it. -/
theorem alike_sign {α : Type} {kind : TokenKind} {text : String} {owner : ItemId} {c : Char}
    {next nextOther : ItemId → Parse α} {ok : α → ParseState → Prop}
    (here : s.cursor.text[s.cursor.position]? = some c) (within : s.Within)
    (rest : ∀ token t, s.Beyond t → Alike t (next token) (nextOther token) ok) :
    Alike s (createToken kind text s.cursor.position >>= fun token => addRegular owner token >>= fun _ =>
        skip 1 >>= fun _ => next token)
      (createToken kind text s.cursor.position >>= fun token => addRegular owner token >>= fun _ =>
        skip 1 >>= fun _ => nextOther token) ok := by
  apply (resting_createToken kind text s.cursor.position).then within
  intro token t onward same
  apply (resting_addRegular owner token).then onward.within
  intro _ u further same'
  have stays : u.cursor = s.cursor := same'.trans same
  have inside : u.cursor.position < u.cursor.text.size := by
    rw [stays]
    exact lt_size_of_getElem here
  apply (goes_skip_beyond inside Nat.one_pos).alike.bind
  intro _ v _ beyond
  exact rest token v ((onward.trans further).trans_beyond beyond)

theorem alike_parametersRound {braces : ItemId} {kind : BraceKind}
    {again againOther : List (Option ItemId) × Bool → Parse (List (Option ItemId) × Option ItemId)}
    (inside : InnerAlike s.Onward inner other) (within : s.Within)
    (later : ∀ read t, s.Beyond t → Alike t (again read) (againOther read) fun _ _ => True)
    (read : List (Option ItemId) × Bool) :
    Alike s (parametersRound inner braces kind again read)
      (parametersRound other braces kind againOther read) fun _ _ => True := by
  apply (inside .braces s within.refl).bind
  intro segment t parsed _
  apply (resting_option_forM (resting_addChild braces)).then parsed.within
  intro _ u taken _
  apply (goes_skipGap taken.within).alike.bind
  intro _ v skipped _
  have onward := (parsed.trans taken).trans skipped
  rw [alike_position_bind, alike_current_bind]
  split
  · rename_i c here
    apply alike_ite
    · intro _
      apply alike_sign here onward.within
      exact fun _ w beyond => later _ w (onward.trans_beyond beyond)
    · intro _
      apply alike_ite
      · intro _
        apply alike_sign here onward.within
        exact fun token w beyond => alike_pure beyond.within trivial
      · intro _
        apply (resting_report _ _ _).then onward.within
        exact fun _ w further _ => alike_pure further.within trivial
  · apply (resting_report _ _ _).then onward.within
    exact fun _ w further _ => alike_pure further.within trivial

theorem goes_stuckHere {α : Type} {ok : α → ParseState → Prop} (within : s.Within) :
    Goes s (do stuck (← position) : Parse α) ok :=
  ends_error rfl (ParseState.onward_of_cursor within rfl)

/-- Each round of the loop over the parameters that is followed by another one has consumed a comma. -/
theorem parameters_advances (braces : ItemId) (kind : BraceKind)
    (forward : ∀ s : ParseState, s.Within → InnerAlike s.Onward inner inner) :
    Advances (fun _ _ _ => True)
      (fun count (read : List (Option ItemId) × Bool) => parameters inner braces kind count read.1 read.2)
      (parametersRound inner braces kind) := by
  apply advances
  · exact fun _ s within => goes_stuckHere within
  · exact fun count => funext (parameters_round inner braces kind count)
  · intro again againOther read s within later
    exact alike_parametersRound (forward s within) within later read

theorem alike_parameters {braces : ItemId} {kind : BraceKind} (count : Nat)
    (read : List (Option ItemId) × Bool) (within : s.Within) (inside : InnerAlike s.Onward inner other) :
    Alike s (parameters inner braces kind count read.1 read.2)
      (parameters other braces kind count read.1 read.2) fun _ _ => True := by
  apply alike_loop (fun s => InnerAlike s.Onward inner other)
    (fun count (read : List (Option ItemId) × Bool) => parameters inner braces kind count read.1 read.2)
    (fun count read => parameters other braces kind count read.1 read.2)
    (fun onward inside => inside.later onward) _ (fun count => funext (parameters_round inner braces kind count))
    (fun count => funext (parameters_round other braces kind count)) _ count read s within inside
  · exact fun _ s within => (goes_stuckHere within).alike
  · exact fun again againOther read s within inside later => alike_parametersRound inside within later read

/-- Braces ask for segments only behind their opening brace. -/
theorem alike_braces (within : s.Within) (inside : InnerAlike s.Beyond inner other)
    (name : Option ItemId) :
    Alike s (braces inner name) (braces other name) fun _ t => s.Beyond t := by
  unfold braces
  rw [alike_position_bind, alike_current_bind]
  cases here : s.cursor.text[s.cursor.position]? with
  | none => exact alike_stop within _ _ _
  | some c =>
      dsimp only [Option.bind_some]
      cases BraceKind.ofOpening? c with
      | none => exact alike_stop within _ _ _
      | some kind =>
          apply (resting_createToken _ _ _).then within
          intro opening t made stays
          apply (resting_create _ _).then made.within
          intro item u created staysAgain
          apply (resting_option_forM (resting_addChild item)).then created.within
          intro _ v named staysNamed
          apply (resting_addRegular item opening).then named.within
          intro _ w opened staysOpened
          have cursor := ((staysOpened.trans staysNamed).trans staysAgain).trans stays
          have inText : w.cursor.position < w.cursor.text.size := by
            rw [cursor]
            exact lt_size_of_getElem here
          apply (goes_skip_beyond inText Nat.one_pos).alike.bind
          intro _ x _ skipped
          have beyond := (((made.trans created).trans named).trans opened).trans_beyond skipped
          rw [alike_remaining_bind]
          apply (alike_parameters _ ([], false) beyond.within (inside.beyond beyond)).bind
          rintro ⟨parameters, closing⟩ y further _
          apply (resting_changeForest _).then further.within
          intro _ z closed _
          exact alike_pure closed.within (beyond.trans_onward (further.trans closed))

/-! Statements -/

variable {grammar : Grammar}

/-- One statement of a code block and what stands behind it. -/
def blockRound (grammar : Grammar) (inner : Inner) (block : ItemId) (markers : MarkerPair)
    (blockStart : Nat) (again : Unit → Parse Unit) (_ : Unit) : Parse Unit := do
  let start ← position
  let segment ← inner .codeBlock
  segment.item.forM (addStatement block)
  skipGap
  let place ← position
  match ← current? with
  | none => report blockStart markers.start.length (.codeBlockEndMarkerMissing markers.stop)
  | some c =>
      if grammar.isBlockEndAt (← text) place then
        let length := markers.stop.length
        let token ← createToken .codeBlockEnd (← slice place (place + length)) place
        addRegular block token
        changeKind block (noteBlockEnd token)
        skip length
      else if some c = grammar.separator then
        addSeparator block place
        again ()
      else if segment.closedByBlock then again ()
      else if isStrayTerminator c then
        unexpected place 1
        again ()
      else if place = start then stuck place
      else again ()

theorem blockStatements_round (grammar : Grammar) (inner : Inner) (block : ItemId)
    (markers : MarkerPair) (blockStart count : Nat) :
    blockStatements grammar inner block markers blockStart (count + 1) =
      blockRound grammar inner block markers blockStart
        (fun _ => blockStatements grammar inner block markers blockStart count) () := rfl

theorem goes_addSeparator (owner : ItemId) (inside : s.cursor.position < s.cursor.text.size) :
    Goes s (addSeparator owner s.cursor.position) fun _ t => s.Beyond t := by
  have within : s.Within := Nat.le_of_lt inside
  apply ((resting_slice _ _).goes within).bind
  intro sign t sliced stays
  apply ((resting_createToken _ _ _).goes sliced.within).bind
  intro token u made staysMade
  apply ((resting_addRegular owner token).goes made.within).bind
  intro _ v added staysAdded
  apply ((resting_changeForest _).goes added.within).bind
  intro _ w noted staysNoted
  have cursor := ((staysNoted.trans staysAdded).trans staysMade).trans stays
  have skips := goes_skip_beyond (s := w) (by rwa [cursor]) Nat.one_pos
  exact skips.imp fun _ x _ beyond =>
    (((sliced.trans made).trans added).trans noted).trans_beyond beyond

theorem goes_unexpected (inside : s.cursor.position < s.cursor.text.size) {length : Nat}
    (filled : 0 < length) :
    Goes s (unexpected s.cursor.position length) fun _ t => s.Beyond t := by
  have within : s.Within := Nat.le_of_lt inside
  apply ((resting_slice _ _).goes within).bind
  intro symbol t sliced stays
  apply ((resting_report _ _ _).goes sliced.within).bind
  intro _ u reported staysReported
  have cursor := staysReported.trans stays
  have skips := goes_skip_beyond (s := u) (by rwa [cursor]) filled
  exact skips.imp fun _ v _ beyond => (sliced.trans reported).trans_beyond beyond

theorem alike_blockRound {block : ItemId} {markers : MarkerPair} {blockStart : Nat}
    {again againOther : Unit → Parse Unit} (inside : InnerAlike s.Onward inner other) (within : s.Within)
    (later : ∀ i t, s.Beyond t → Alike t (again i) (againOther i) fun _ _ => True) (i : Unit) :
    Alike s (blockRound grammar inner block markers blockStart again i)
      (blockRound grammar other block markers blockStart againOther i) fun _ _ => True := by
  unfold blockRound
  rw [alike_position_bind]
  apply (inside .codeBlock s within.refl).bind
  intro segment t parsed closed
  apply (resting_option_forM (resting_addStatement block)).then parsed.within
  intro _ u added same
  apply (goes_skipGap added.within).alike.bind
  intro _ v skipped _
  have onward := (parsed.trans added).trans skipped
  rw [alike_position_bind, alike_current_bind]
  split
  · exact ((resting_report _ _ _).goes onward.within).alike.imp fun _ _ _ _ => trivial
  · rename_i c here
    have inText := lt_size_of_getElem here
    rw [alike_text_bind]
    apply alike_ite
    · intro _
      rw [alike_slice_bind]
      apply (resting_createToken _ _ _).then onward.within
      intro token w made _
      apply (resting_addRegular block token).then made.within
      intro _ x ended _
      apply (resting_changeForest _).then ended.within
      intro _ y noted _
      exact (goes_skip noted.within _).alike.imp fun _ _ _ _ => trivial
    · intro _
      apply alike_ite
      · intro _
        apply (goes_addSeparator block inText).alike.bind
        exact fun _ w _ beyond => later () w (onward.trans_beyond beyond)
      · intro _
        apply alike_ite
        · exact fun isClosed => later () v ((closed isClosed).trans_onward (added.trans skipped))
        · intro _
          apply alike_ite
          · intro _
            apply (goes_unexpected inText Nat.one_pos).alike.bind
            exact fun _ w _ beyond => later () w (onward.trans_beyond beyond)
          · intro _
            apply alike_ite
            · exact fun _ => alike_stop onward.within _ _ _
            · exact fun moved => later () v ⟨onward, Nat.lt_of_le_of_ne onward.further (Ne.symm moved)⟩

theorem blockStatements_advances (block : ItemId) (markers : MarkerPair) (blockStart : Nat)
    (forward : ∀ s : ParseState, s.Within → InnerAlike s.Onward inner inner) :
    Advances (fun _ _ _ => True)
      (fun count (_ : Unit) => blockStatements grammar inner block markers blockStart count)
      (blockRound grammar inner block markers blockStart) := by
  apply advances
  · exact fun _ s within => goes_stuckHere within
  · exact fun count => funext fun _ => blockStatements_round grammar inner block markers blockStart count
  · intro again againOther i s within later
    exact alike_blockRound (forward s within) within later i

theorem alike_blockStatements {block : ItemId} {markers : MarkerPair} {blockStart : Nat} (count : Nat)
    (within : s.Within) (inside : InnerAlike s.Onward inner other) :
    Alike s (blockStatements grammar inner block markers blockStart count)
      (blockStatements grammar other block markers blockStart count) fun _ _ => True := by
  apply alike_loop (fun s => InnerAlike s.Onward inner other)
    (fun count (_ : Unit) => blockStatements grammar inner block markers blockStart count)
    (fun count _ => blockStatements grammar other block markers blockStart count)
    (fun onward inside => inside.later onward) _
    (fun count => funext fun _ => blockStatements_round grammar inner block markers blockStart count)
    (fun count => funext fun _ => blockStatements_round grammar other block markers blockStart count)
    _ count () s within inside
  · exact fun _ s within => (goes_stuckHere within).alike
  · exact fun again againOther i s within inside later => alike_blockRound inside within later i

/-- Where a code block starts, it asks for segments only behind its start marker. -/
theorem alike_codeBlock (within : s.Within)
    (starts : grammar.isBlockStartAt s.cursor.text s.cursor.position = true)
    (inside : InnerAlike s.Beyond inner other) :
    Alike s (codeBlock grammar inner) (codeBlock grammar other) fun _ t => s.Beyond t := by
  obtain ⟨markers, isBlock, filled, inText⟩ := Grammar.isBlockStartAt_inside starts
  unfold codeBlock
  rw [alike_position_bind, isBlock]
  dsimp only
  rw [alike_slice_bind]
  apply (resting_createToken _ _ _).then within
  intro token t made stays
  apply (resting_create _ _).then made.within
  intro block u created staysCreated
  apply (resting_addRegular block token).then created.within
  intro _ v added staysAdded
  have cursor := (staysAdded.trans staysCreated).trans stays
  have here : v.cursor.position < v.cursor.text.size := by
    rw [cursor]
    omega
  apply (goes_skip_beyond here filled).alike.bind
  intro _ w _ skipped
  have beyond := ((made.trans created).trans added).trans_beyond skipped
  rw [alike_remaining_bind]
  apply (alike_blockStatements _ beyond.within (inside.beyond beyond)).bind
  exact fun _ x further _ => alike_pure further.within (beyond.trans_onward further)

/-- One statement of the root and what stands behind it. -/
def rootRound (grammar : Grammar) (inner : Inner) (root : ItemId) (again : Unit → Parse Unit)
    (_ : Unit) : Parse Unit := do
  let start ← position
  let segment ← inner .root
  segment.item.forM (addStatement root)
  if ← afterStatement grammar root start segment.closedByBlock then again ()

theorem rootStatements_round (grammar : Grammar) (inner : Inner) (root : ItemId) (count : Nat) :
    rootStatements grammar inner root (count + 1) =
      rootRound grammar inner root (fun _ => rootStatements grammar inner root count) () := rfl

/-- The root goes on behind something that has been consumed since its statement began. -/
theorem goes_afterStatement {origin : ParseState} {root : ItemId} {closedByBlock : Bool}
    (onward : origin.Onward s) (closed : closedByBlock = true → origin.Beyond s) :
    Goes s (afterStatement grammar root origin.cursor.position closedByBlock) fun again t =>
      again = true → origin.Beyond t := by
  unfold afterStatement
  apply (goes_skipGap onward.within).bind
  intro _ t skipped _
  have there := onward.trans skipped
  change Goes t (match t.cursor.text[t.cursor.position]? with
    | none => _
    | some c => _) _
  split
  · exact goes_pure there.within nofun
  · rename_i c here
    have inText := lt_size_of_getElem here
    split
    · apply (goes_addSeparator root inText).bind
      exact fun _ u further beyond => goes_pure further.within fun _ => there.trans_beyond beyond
    · split
      · exact goes_pure there.within fun _ => (closed ‹_›).trans_onward skipped
      · change Goes t (if grammar.isBlockEndAt t.cursor.text t.cursor.position then _ else _) _
        split
        · rename_i ends
          obtain ⟨markers, hasBlocks, filled, _⟩ := Grammar.isBlockEndAt_inside ends
          rw [hasBlocks]
          apply (goes_unexpected inText filled).bind
          exact fun _ u further beyond => goes_pure further.within fun _ => there.trans_beyond beyond
        · split
          · apply (goes_unexpected inText Nat.one_pos).bind
            exact fun _ u further beyond => goes_pure further.within fun _ => there.trans_beyond beyond
          · split
            · exact (alike_stop there.within _ _ _).goes
            · rename_i moved
              exact goes_pure there.within fun _ =>
                ⟨there, Nat.lt_of_le_of_ne there.further (Ne.symm moved)⟩

theorem alike_rootRound {root : ItemId} {again againOther : Unit → Parse Unit}
    (inside : InnerAlike s.Onward inner other) (within : s.Within)
    (later : ∀ i t, s.Beyond t → Alike t (again i) (againOther i) fun _ _ => True) (i : Unit) :
    Alike s (rootRound grammar inner root again i) (rootRound grammar other root againOther i)
      fun _ _ => True := by
  unfold rootRound
  rw [alike_position_bind]
  apply (inside .root s within.refl).bind
  intro segment t parsed closed
  apply (resting_option_forM (resting_addStatement root)).then parsed.within
  intro _ u added _
  apply (goes_afterStatement (parsed.trans added) fun isClosed =>
    (closed isClosed).trans_onward added).alike.bind
  intro goesOn v behind beyond
  apply alike_ite
  · exact fun isOn => later () v (beyond isOn)
  · exact fun _ => alike_pure behind.within trivial

theorem rootStatements_advances (root : ItemId)
    (forward : ∀ s : ParseState, s.Within → InnerAlike s.Onward inner inner) :
    Advances (fun _ _ _ => True) (fun count (_ : Unit) => rootStatements grammar inner root count)
      (rootRound grammar inner root) := by
  apply advances
  · exact fun _ s within => goes_stuckHere within
  · exact fun count => funext fun _ => rootStatements_round grammar inner root count
  · intro again againOther i s within later
    exact alike_rootRound (forward s within) within later i

theorem alike_rootStatements {root : ItemId} (count : Nat) (within : s.Within)
    (inside : InnerAlike s.Onward inner other) :
    Alike s (rootStatements grammar inner root count) (rootStatements grammar other root count)
      fun _ _ => True := by
  apply alike_loop (fun s => InnerAlike s.Onward inner other)
    (fun count (_ : Unit) => rootStatements grammar inner root count)
    (fun count _ => rootStatements grammar other root count)
    (fun onward inside => inside.later onward) _
    (fun count => funext fun _ => rootStatements_round grammar inner root count)
    (fun count => funext fun _ => rootStatements_round grammar other root count) _ count () s within inside
  · exact fun _ s within => (goes_stuckHere within).alike
  · exact fun again againOther i s within inside later => alike_rootRound inside within later i

end ExprLang.Parse
