import ExprLang.Proofs.Progress.Enclosed
import ExprLang.Proofs.Tandem.Segments

/-!
Segments. Between two passes of a segment an operand or an operator has been consumed, and keywords and
prefixes are consumed one by one; keywords that are tried behind an operand are given back, and then the
cursor is where the operand ended. A segment comes to the inside of braces and code blocks only through
those that it meets on its way, so only from its own start onward.
-/

namespace ExprLang

open ParseState (Within Onward Beyond)

namespace Grammar

variable {grammar : Grammar} {text : Text} {place : Nat}

/-- An operator ends behind the place where it is written. -/
theorem lt_stop_of_operatorAt {afterOperand : Bool} {written : OperatorMatch} (named : grammar.Named)
    (found : grammar.operatorAt? text place afterOperand = some written) : place < written.stop := by
  obtain ⟨operator, member, spans, spelled, parts⟩ := operatorAt_spans found
  obtain ⟨part, rest, name⟩ := List.exists_cons_of_ne_nil (named operator member)
  simp only [name, spans?, Option.ite_none_right_eq_some, Option.map_eq_some_iff] at spelled
  obtain ⟨isPart, later, foundLater, rfl⟩ := spelled
  obtain ⟨filled, inside⟩ := isSymbolAt_inside isPart
  have behind := moreSpans_spelled foundLater
  have stop := behind.stop_eq
  have same : written.stop = spansEnd (place + part.length) later := by
    rw [stop, OperatorMatch.stop, parts]
    cases later with
    | nil => simp [wordsOf, length_slice_of_inside inside]
    | cons span later => simp [wordsOf, List.getLast?_cons]
  rw [same]
  exact Nat.lt_of_lt_of_le (Nat.lt_add_of_pos_right filled) behind.spaced.le

end Grammar

namespace Parse

variable {grammar : Grammar} {inner other : Inner} {s : ParseState}

/-! Plain operands -/

theorem goes_textConstant (quote : Char) (inside : s.cursor.position < s.cursor.text.size) :
    Goes s (textConstant grammar quote) fun _ t => s.Beyond t := by
  change Goes s (Tandem.constantFrom grammar quote s.cursor.text s.cursor.position) _
  apply ((resting_createLeaf _ _ _ _).goes (Nat.le_of_lt inside)).bind
  intro item t made cursor
  -- With or without a report, the cursor moves behind what has been decoded.
  have behind : ∀ u : ParseState, t.Onward u → u.cursor = t.cursor → ∀ length,
      Goes u (moveTo (s.cursor.position + 1 + length) >>= fun _ => pure item) fun _ v => s.Beyond v := by
    intro u further stays length
    have here := stays.trans cursor
    have moves := goes_moveTo_beyond (s := u) (by rwa [here])
      (show u.cursor.position < s.cursor.position + 1 + length by rw [here]; omega)
    exact moves.bind fun _ v moved beyond => goes_pure moved.within
      ((made.trans further).trans_beyond beyond)
  unfold Tandem.finishConstant
  split
  · apply ((resting_report _ _ _).goes made.within).bind
    exact fun _ u further stays => behind u further stays _
  · exact behind t made.within.refl rfl _

theorem goes_number {written : NumericMatch} (inside : s.cursor.position < s.cursor.text.size)
    (filled : 0 < written.length) : Goes s (number written) fun _ t => s.Beyond t := by
  unfold number
  rw [goes_position_bind]
  apply ((resting_slice _ _).goes (Nat.le_of_lt inside)).bind
  intro value t sliced cursor
  apply ((resting_createLeaf _ _ _ _).goes sliced.within).bind
  intro item u made cursorMade
  have stays := cursorMade.trans cursor
  apply (goes_skip_beyond (s := u) (by rwa [stays]) filled).bind
  exact fun _ v moved beyond => goes_pure moved.within ((sliced.trans made).trans_beyond beyond)

theorem goes_name (within : s.Within) :
    Goes s (name? grammar) fun found t => found.isSome = true → s.Beyond t := by
  change Goes s (if grammar.nameEnd s.cursor.text s.cursor.position = s.cursor.position then _ else _) _
  split
  · exact goes_pure within nofun
  · rename_i filled
    have further := Nat.lt_of_le_of_ne (Grammar.le_nameEnd _ _ _) (Ne.symm filled)
    have inside := Nat.lt_of_lt_of_le further (grammar.nameEnd_le within)
    apply ((resting_slice _ _).goes within).bind
    intro name t sliced cursor
    apply ((resting_createLeaf _ _ _ _).goes sliced.within).bind
    intro item u made cursorMade
    have stays := cursorMade.trans cursor
    apply (goes_moveTo_beyond (s := u) (by rwa [stays]) (by rwa [stays])).bind
    exact fun _ v moved beyond => goes_pure moved.within fun _ => (sliced.trans made).trans_beyond beyond

/-- From `s` on braces and code blocks are parsed alike where they begin. -/
structure EnclosedAlike (grammar : Grammar) (s : ParseState) (inner other : Inner) : Prop where
  braces : ∀ name t, s.Onward t → Grammar.isOpeningBraceAt t.cursor.text t.cursor.position = true →
    Alike t (braces inner name) (braces other name) fun _ u => t.Beyond u
  codeBlock : ∀ t, s.Onward t → grammar.isBlockStartAt t.cursor.text t.cursor.position = true →
    Alike t (codeBlock grammar inner) (codeBlock grammar other) fun _ u => t.Beyond u

theorem EnclosedAlike.later {t : ParseState} (enclosed : EnclosedAlike grammar s inner other)
    (onward : s.Onward t) : EnclosedAlike grammar t inner other where
  braces name u further := enclosed.braces name u (onward.trans further)
  codeBlock u further := enclosed.codeBlock u (onward.trans further)

variable (enclosed : EnclosedAlike grammar s inner other) (within : s.Within)

include enclosed within

/-- A name with or without braces. -/
theorem alike_literal :
    Alike s (literal? grammar inner) (literal? grammar other) fun found t =>
      found.isSome = true → s.Beyond t := by
  apply (goes_name within).alike.bind
  intro found t named beyond
  cases found with
  | none => exact alike_pure named.within nofun
  | some name =>
      have there := beyond rfl
      dsimp only
      rw [alike_get_bind]
      apply alike_ite
      · intro opens
        apply (goes_skipGap named.within).alike.bind
        intro _ u skipped position
        have text := skipped.text
        apply (enclosed.braces (some name) u (named.trans skipped) (by rwa [text, position])).bind
        exact fun item v _ behind => alike_pure behind.within fun _ =>
          (there.trans_onward skipped).trans_onward behind.toOnward
      · exact fun _ => alike_pure named.within fun _ => there

/-- Whatever is found where an operand can stand has been consumed. -/
theorem alike_plainOperand (named : grammar.Named) (terms : List Term) :
    Alike s (plainOperand grammar inner terms) (plainOperand grammar other terms) fun found t =>
      found ≠ .nothing → s.Beyond t := by
  unfold plainOperand
  rw [alike_position_bind, alike_text_bind]
  apply alike_ite
  · exact fun _ => alike_pure within fun found => absurd rfl found
  · intro _
    cases here : s.cursor.text[s.cursor.position]? with
    | none => exact alike_pure within fun found => absurd rfl found
    | some c =>
        have inside := lt_size_of_getElem here
        dsimp only
        apply alike_ite
        · intro _
          apply (goes_textConstant c inside).alike.bind
          exact fun _ t moved beyond => alike_pure moved.within fun _ => beyond
        · intro _
          cases number : grammar.numberAt? s.cursor.text s.cursor.position with
          | some written =>
              apply (goes_number inside (Grammar.numberAt_length number)).alike.bind
              exact fun _ t moved beyond => alike_pure moved.within fun _ => beyond
          | none =>
              dsimp only
              apply alike_ite
              · intro opens
                apply (enclosed.braces none s within.refl opens).bind
                exact fun _ t moved beyond => alike_pure moved.within fun _ => beyond
              · intro _
                apply alike_ite
                · intro starts
                  apply (enclosed.codeBlock s within.refl starts).bind
                  exact fun _ t moved beyond => alike_pure moved.within fun _ => beyond
                · intro _
                  cases operator : grammar.operatorAt? s.cursor.text s.cursor.position
                      (isAfterOperand terms) with
                  | some written =>
                      apply (goes_moveTo_beyond inside
                        (Grammar.lt_stop_of_operatorAt named operator)).alike.bind
                      exact fun _ t moved beyond => alike_pure moved.within fun _ => beyond
                  | none =>
                      apply (alike_literal enclosed within).bind
                      intro found t moved beyond
                      cases found with
                      | some item => exact alike_pure moved.within fun _ => beyond rfl
                      | none => exact alike_stop moved.within _ _ _

/-! Keywords and prefixes -/

omit enclosed within

/-- One keyword and what follows it. -/
def keywordRound (grammar : Grammar) (reportRepeats : Bool)
    (again : List ItemId → Parse (List ItemId)) (keywords : List ItemId) : Parse (List ItemId) := do
  skipGap
  let start ← position
  match grammar.keywordAt? (← text) start with
  | none => return keywords
  | some keyword =>
      let length := keyword.text.length
      let written ← slice start (start + length)
      skip length
      let forest ← forest
      if keywords.any fun k => forest.tokenKind? k == some (.keyword keyword.id) then
        if reportRepeats then report start length (.multipleOccurrencesOfKeyword written)
        return keywords
      else
        let token ← createToken (.keyword keyword.id) written start
        again (keywords ++ [token])

theorem keywordRun_round (grammar : Grammar) (reportRepeats : Bool) (count : Nat)
    (keywords : List ItemId) :
    keywordRun grammar reportRepeats (count + 1) keywords =
      keywordRound grammar reportRepeats (keywordRun grammar reportRepeats count) keywords := rfl

theorem alike_keywordRound {reportRepeats : Bool} {again againOther : List ItemId → Parse (List ItemId)}
    {keywords : List ItemId} {ok : List ItemId → ParseState → Prop} (within : s.Within)
    (ended : ∀ t, ok keywords t)
    (later : ∀ token t, s.Beyond t →
      Alike t (again (keywords ++ [token])) (againOther (keywords ++ [token])) ok) :
    Alike s (keywordRound grammar reportRepeats again keywords)
      (keywordRound grammar reportRepeats againOther keywords) ok := by
  apply (goes_skipGap within).alike.bind
  intro _ t skipped _
  rw [alike_position_bind, alike_text_bind]
  cases found : grammar.keywordAt? t.cursor.text t.cursor.position with
  | none => exact alike_pure skipped.within (ended t)
  | some keyword =>
      obtain ⟨filled, inText⟩ := Grammar.keywordAt_inside found
      dsimp only
      rw [alike_slice_bind]
      apply (goes_skip_beyond (by omega) filled).alike.bind
      intro _ u _ taken
      have beyond := skipped.trans_beyond taken
      rw [alike_forest_bind]
      apply alike_ite
      · intro _
        apply alike_ite
        · intro _
          apply (resting_report _ _ _).then beyond.within
          exact fun _ v reported _ => alike_pure reported.within (ended v)
        · exact fun _ => alike_pure beyond.within (ended u)
      · intro _
        apply (resting_createToken _ _ _).then beyond.within
        exact fun token v made _ => later token v (beyond.trans_onward made)

theorem keywordRun_advances (grammar : Grammar) (reportRepeats : Bool) :
    Advances (fun _ _ _ => True) (keywordRun grammar reportRepeats) (keywordRound grammar reportRepeats) := by
  apply advances
  · exact fun keywords s within => goes_pure within trivial
  · exact fun count => funext (keywordRun_round grammar reportRepeats count)
  · intro again againOther keywords s within later
    exact alike_keywordRound within (fun _ => trivial) fun token t beyond => later _ t beyond

/-- A run that has found a keyword has consumed it. -/
theorem goes_keywordRun (reportRepeats : Bool) (count : Nat) : ∀ (keywords : List ItemId) (s : ParseState),
    s.Within → Goes s (keywordRun grammar reportRepeats count keywords) fun found t =>
      keywords.length < found.length → s.Beyond t := by
  induction count with
  | zero => exact fun _ s within => goes_pure within fun more => absurd more (Nat.lt_irrefl _)
  | succ count ih =>
      intro keywords s within
      rw [keywordRun_round]
      refine (alike_keywordRound within (fun _ more => absurd more (Nat.lt_irrefl _))
        fun token t beyond => Goes.alike ?_).goes
      exact (ih (keywords ++ [token]) t beyond.within).imp fun _ u onward _ _ =>
        beyond.trans_onward onward

theorem goes_operandFollows (within : s.Within) : Goes s (operandFollows grammar) fun _ _ => True :=
  ends_ok rfl ⟨within.refl, trivial⟩

/-- One prefix, or a run of keywords, and what follows. -/
def modifiersRound (grammar : Grammar) (inner : Inner)
    (again : Modifiers → Parse (Modifiers × Option ItemId)) (pending : Modifiers) :
    Parse (Modifiers × Option ItemId) := do
  skipGap
  if grammar.supportsPrefixes && pending.keywords.isEmpty &&
      Grammar.isOpeningBraceAt (← text) (← position) then
    let item ← braces inner none
    if ← operandFollows grammar then again { pending with prefixes := pending.prefixes ++ [item] }
    else return (pending, some item)
  else if grammar.supportsKeywords then
    let keywords ← keywordRun grammar true ((← remaining) + 1) pending.keywords
    if pending.keywords.length < keywords.length then again { pending with keywords }
    else return (pending, none)
  else return (pending, none)

theorem modifiers_round (grammar : Grammar) (inner : Inner) (count : Nat) (pending : Modifiers) :
    modifiers grammar inner (count + 1) pending =
      modifiersRound grammar inner (modifiers grammar inner count) pending := rfl

/-- If an operand has been parsed it has been consumed. -/
def OperandBeyond (s : ParseState) (read : Modifiers × Option ItemId) (t : ParseState) : Prop :=
  read.2.isSome = true → s.Beyond t

theorem alike_modifiersRound {again againOther : Modifiers → Parse (Modifiers × Option ItemId)}
    (enclosed : EnclosedAlike grammar s inner other) (within : s.Within)
    (later : ∀ pending t, s.Beyond t → Alike t (again pending) (againOther pending) (OperandBeyond t))
    (pending : Modifiers) :
    Alike s (modifiersRound grammar inner again pending) (modifiersRound grammar other againOther pending)
      (OperandBeyond s) := by
  have onwards : ∀ pending t, s.Beyond t →
      Alike t (again pending) (againOther pending) (OperandBeyond s) := fun pending t beyond =>
    (later pending t beyond).imp fun _ _ onward _ _ => beyond.trans_onward onward
  apply (goes_skipGap within).alike.bind
  intro _ t skipped _
  rw [alike_text_bind, alike_position_bind]
  apply alike_ite
  · intro opens
    apply (enclosed.braces none t skipped (Bool.and_eq_true_iff.mp opens).2).bind
    intro item u _ parsed
    have beyond := skipped.trans_beyond parsed
    apply (goes_operandFollows beyond.within).alike.bind
    intro follows v further _
    apply alike_ite
    · exact fun _ => onwards _ v (beyond.trans_onward further)
    · exact fun _ => alike_pure further.within fun _ => beyond.trans_onward further
  · intro _
    apply alike_ite
    · intro _
      rw [alike_remaining_bind]
      apply (goes_keywordRun true _ pending.keywords t skipped.within).alike.bind
      intro keywords u run more
      apply alike_ite
      · exact fun found => onwards _ u (skipped.trans_beyond (more found))
      · exact fun _ => alike_pure run.within nofun
    · exact fun _ => alike_pure skipped.within nofun

theorem alike_modifiers (count : Nat) (pending : Modifiers) (within : s.Within)
    (enclosed : EnclosedAlike grammar s inner other) :
    Alike s (modifiers grammar inner count pending) (modifiers grammar other count pending)
      (OperandBeyond s) := by
  apply alike_loop (fun s => EnclosedAlike grammar s inner other) (modifiers grammar inner)
    (modifiers grammar other) (fun onward enclosed => enclosed.later onward) _
    (fun count => funext (modifiers_round grammar inner count))
    (fun count => funext (modifiers_round grammar other count)) _ count pending s within enclosed
  · exact fun _ s within => alike_pure within nofun
  · exact fun again againOther pending s within enclosed later =>
      alike_modifiersRound enclosed within later pending

theorem modifiers_advances (forward : ∀ s : ParseState, s.Within → EnclosedAlike grammar s inner inner) :
    Advances OperandBeyond (modifiers grammar inner) (modifiersRound grammar inner) := by
  apply advances
  · exact fun _ s within => goes_pure within nofun
  · exact fun count => funext (modifiers_round grammar inner count)
  · intro again againOther pending s within later
    exact alike_modifiersRound (forward s within) within later pending

/-! Postfixes -/

/-- One postfix and what follows it. -/
def postfixesRound (grammar : Grammar) (inner : Inner) (context : Context) (target : ItemId)
    (again : Unit → Parse PostfixRun) (_ : Unit) : Parse PostfixRun := do
  skipGap
  if grammar.isBlockStartAt (← text) (← position) then
    let block ← codeBlock grammar inner
    if !(← attachPostfix target block) then return ⟨context.endsAtBlock, some block⟩
    else if context.endsAtBlock then return ⟨true, none⟩
    else again ()
  else
    match ← customPostfix? grammar inner with
    | none => return ⟨false, none⟩
    | some item =>
        if ← attachPostfix target item then again ()
        else return ⟨false, some item⟩

theorem postfixes_round (grammar : Grammar) (inner : Inner) (context : Context) (target : ItemId)
    (count : Nat) :
    postfixes grammar inner context target (count + 1) =
      postfixesRound grammar inner context target
        (fun _ => postfixes grammar inner context target count) () := rfl

/-- Keywords are tried without a look at what is inside anything, and are given back. -/
theorem alike_customPostfix (plain : grammar.extensions = []) (within : s.Within) :
    Alike s (customPostfix? grammar inner) (customPostfix? grammar other) fun found _ => found = none := by
  constructor
  · simp only [customPostfix?, triggeredBehind?, custom_of_plain plain]
  · obtain ⟨t, run, retracted⟩ := customPostfix_run plain inner s
    have position := retracted.position within
    refine ends_ok run ⟨⟨retracted.text, Nat.le_of_eq position.symm, ?_⟩, rfl⟩
    rw [Within, retracted.text, position]
    exact within

theorem alike_postfixesRound (plain : grammar.extensions = []) {context : Context} {target : ItemId}
    {again againOther : Unit → Parse PostfixRun} (enclosed : EnclosedAlike grammar s inner other)
    (within : s.Within)
    (later : ∀ i t, s.Beyond t → Alike t (again i) (againOther i) fun _ _ => True) (i : Unit) :
    Alike s (postfixesRound grammar inner context target again i)
      (postfixesRound grammar other context target againOther i) fun _ _ => True := by
  apply (goes_skipGap within).alike.bind
  intro _ t skipped _
  rw [alike_text_bind, alike_position_bind]
  apply alike_ite
  · intro starts
    apply (enclosed.codeBlock t skipped starts).bind
    intro block u _ parsed
    have beyond := skipped.trans_beyond parsed
    apply (resting_attachPostfix target block).then beyond.within
    intro taken v attached _
    apply alike_ite
    · exact fun _ => alike_pure attached.within trivial
    · intro _
      apply alike_ite
      · exact fun _ => alike_pure attached.within trivial
      · exact fun _ => later () v (beyond.trans_onward attached)
  · intro _
    apply (alike_customPostfix plain skipped.within).bind
    rintro _ u tried rfl
    exact alike_pure tried.within trivial

theorem alike_postfixes (plain : grammar.extensions = []) {context : Context} {target : ItemId}
    (count : Nat) (within : s.Within) (enclosed : EnclosedAlike grammar s inner other) :
    Alike s (postfixes grammar inner context target count) (postfixes grammar other context target count)
      fun _ _ => True := by
  apply alike_loop (fun s => EnclosedAlike grammar s inner other)
    (fun count (_ : Unit) => postfixes grammar inner context target count)
    (fun count _ => postfixes grammar other context target count)
    (fun onward enclosed => enclosed.later onward) _
    (fun count => funext fun _ => postfixes_round grammar inner context target count)
    (fun count => funext fun _ => postfixes_round grammar other context target count)
    _ count () s within enclosed
  · exact fun _ s within => alike_pure within trivial
  · exact fun again againOther i s within enclosed later =>
      alike_postfixesRound plain enclosed within later i

theorem postfixes_advances (plain : grammar.extensions = []) (context : Context) (target : ItemId)
    (forward : ∀ s : ParseState, s.Within → EnclosedAlike grammar s inner inner) :
    Advances (fun _ _ _ => True)
      (fun count (_ : Unit) => postfixes grammar inner context target count)
      (postfixesRound grammar inner context target) := by
  apply advances
  · exact fun _ s within => goes_pure within trivial
  · exact fun count => funext fun _ => postfixes_round grammar inner context target count
  · intro again againOther i s within later
    exact alike_postfixesRound plain (forward s within) within later i

/-! Passes -/

theorem alike_afterOperand (plain : grammar.extensions = []) (named : grammar.Named) (context : Context)
    (draft : Draft) (item : ItemId) (within : s.Within) (enclosed : EnclosedAlike grammar s inner other) :
    Alike s (afterOperand grammar inner context draft item) (afterOperand grammar other context draft item)
      fun _ _ => True := by
  apply (resting_modifyOperand draft item).then within
  intro draft t modified _
  rw [alike_remaining_bind]
  apply (alike_postfixes plain _ modified.within (enclosed.later modified)).bind
  intro run u behind _
  apply alike_ite
  · exact fun _ => alike_pure behind.within trivial
  · intro _
    apply (goes_skipGap behind.within).alike.bind
    intro _ v skipped _
    rw [alike_position_bind, alike_text_bind]
    apply alike_ite
    · exact fun _ => alike_pure skipped.within trivial
    · intro _
      cases found : grammar.operatorAt? v.cursor.text v.cursor.position true with
      | none => exact alike_pure skipped.within trivial
      | some written =>
          have further := Nat.le_of_lt (Grammar.lt_stop_of_operatorAt named found)
          have moves : Goes v (moveTo written.stop) fun _ _ => True :=
            ends_ok rfl ⟨ParseState.onward_moveTo skipped.within further, trivial⟩
          apply moves.alike.bind
          exact fun _ w moved _ => alike_pure moved.within trivial

theorem alike_goOn (plain : grammar.extensions = []) (named : grammar.Named) (context : Context)
    (draft : Draft) (found : Found) (within : s.Within) (enclosed : EnclosedAlike grammar s inner other) :
    Alike s (Tandem.goOn grammar inner context draft found) (Tandem.goOn grammar other context draft found)
      fun read _ => found = .nothing → read.2 = .done false := by
  cases found with
  | operand item =>
      exact (alike_afterOperand plain named context draft item within enclosed).imp fun _ _ _ _ => nofun
  | operators written =>
      apply (resting_settlePending draft).then within
      exact fun _ t settled _ => alike_pure settled.within nofun
  | stray item =>
      apply alike_ite
      · exact fun _ => alike_pure within nofun
      · intro _
        apply (resting_misplaced _).then within
        exact fun _ t made _ => alike_pure made.within nofun
  | prefixed item => exact alike_pure within nofun
  | nothing => exact alike_pure within fun _ => rfl

theorem alike_operand (plain : grammar.extensions = []) (named : grammar.Named) (draft : Draft)
    (within : s.Within) (enclosed : EnclosedAlike grammar s inner other) :
    Alike s (operand grammar inner draft) (operand grammar other draft) fun read t =>
      read.1 ≠ .nothing → s.Beyond t := by
  rw [operand_of_plain plain, operand_of_plain plain]
  apply (goes_skipGap within).alike.bind
  intro _ t skipped _
  apply (alike_plainOperand (enclosed.later skipped) skipped.within named draft.terms).bind
  exact fun found u read consumed => alike_pure read.within fun isFound =>
    skipped.trans_beyond (consumed isFound)

/-- Unless a pass finds nothing it has consumed something. -/
theorem alike_pass (plain : grammar.extensions = []) (named : grammar.Named) (context : Context)
    (draft : Draft) (within : s.Within) (enclosed : EnclosedAlike grammar s inner other) :
    Alike s (pass grammar inner context draft) (pass grammar other context draft) fun read t =>
      read.2 ≠ .done false → s.Beyond t := by
  rw [Tandem.pass_eq, Tandem.pass_eq, alike_remaining_bind]
  apply (alike_modifiers _ draft.pending within enclosed).bind
  rintro ⟨pending, item⟩ t modified beyond
  cases item with
  | some item =>
      have there : s.Beyond t := beyond rfl
      exact (alike_afterOperand plain named context _ item modified.within (enclosed.later modified)).imp
        fun _ _ onward _ _ => there.trans_onward onward
  | none =>
      apply (alike_operand plain named { draft with pending } modified.within (enclosed.later modified)).bind
      rintro ⟨found, pending⟩ u read consumed
      refine (alike_goOn plain named context _ found read.within
        ((enclosed.later modified).later read)).imp fun result v further nothing goesOn => ?_
      have there := consumed fun isNothing => goesOn (nothing isNothing)
      exact modified.trans_beyond (there.trans_onward further)

/-- One pass of a segment and what follows it. -/
def segmentRound (grammar : Grammar) (inner : Inner) (context : Context)
    (again : Draft → Parse (Draft × Bool)) (draft : Draft) : Parse (Draft × Bool) := do
  match ← pass grammar inner context draft with
  | (draft, .again) => again draft
  | (draft, .done closedByBlock) => return (draft, closedByBlock)

theorem passes_round (grammar : Grammar) (inner : Inner) (context : Context) (count : Nat)
    (draft : Draft) :
    passes grammar inner context (count + 1) draft =
      segmentRound grammar inner context (passes grammar inner context count) draft := rfl

/-- If a code block has ended the passes the cursor has moved. -/
def EndBeyond (s : ParseState) (read : Draft × Bool) (t : ParseState) : Prop :=
  read.2 = true → s.Beyond t

theorem alike_segmentRound (plain : grammar.extensions = []) (named : grammar.Named) (context : Context)
    {again againOther : Draft → Parse (Draft × Bool)} (enclosed : EnclosedAlike grammar s inner other)
    (within : s.Within)
    (later : ∀ draft t, s.Beyond t → Alike t (again draft) (againOther draft) (EndBeyond t))
    (draft : Draft) :
    Alike s (segmentRound grammar inner context again draft)
      (segmentRound grammar other context againOther draft) (EndBeyond s) := by
  apply (alike_pass plain named context draft within enclosed).bind
  rintro ⟨draft, progress⟩ t passed beyond
  cases progress with
  | again =>
      have there := beyond nofun
      exact (later draft t there).imp fun _ _ onward _ _ => there.trans_onward onward
  | done closedByBlock =>
      refine alike_pure passed.within fun isClosed => beyond ?_
      rintro ⟨⟩
      cases isClosed

theorem passes_advances (plain : grammar.extensions = []) (named : grammar.Named) (context : Context)
    (forward : ∀ s : ParseState, s.Within → EnclosedAlike grammar s inner inner) :
    Advances EndBeyond (passes grammar inner context) (segmentRound grammar inner context) := by
  apply advances
  · exact fun _ s within => goes_stuckHere within
  · exact fun count => funext (passes_round grammar inner context count)
  · intro again againOther draft s within later
    exact alike_segmentRound plain named context (forward s within) within later draft

theorem alike_passes (plain : grammar.extensions = []) (named : grammar.Named) (context : Context)
    (count : Nat) (draft : Draft) (within : s.Within) (enclosed : EnclosedAlike grammar s inner other) :
    Alike s (passes grammar inner context count draft) (passes grammar other context count draft)
      (EndBeyond s) := by
  apply alike_loop (fun s => EnclosedAlike grammar s inner other) (passes grammar inner context)
    (passes grammar other context) (fun onward enclosed => enclosed.later onward) _
    (fun count => funext (passes_round grammar inner context count))
    (fun count => funext (passes_round grammar other context count)) _ count draft s within enclosed
  · exact fun _ s within => (goes_stuckHere within).alike
  · exact fun again againOther draft s within enclosed later =>
      alike_segmentRound plain named context enclosed within later draft

theorem goes_settle (closedByBlock : Bool) (draft : Draft) (within : s.Within) :
    Goes s (Tandem.settle closedByBlock draft) fun segment _ => segment.closedByBlock = closedByBlock := by
  apply ((resting_settlePending draft).goes within).bind
  intro after t settled _
  apply ((resting_resolve after.terms).goes settled.within).bind
  intro found u resolved _
  cases found with
  | some item =>
      apply ((resting_attachModifiers item after.lead).goes resolved.within).bind
      exact fun _ v attached _ => goes_pure attached.within rfl
  | none =>
      simp only [Tandem.finish]
      split
      · exact goes_pure resolved.within rfl
      · apply ((resting_misplaced after.lead).goes resolved.within).bind
        exact fun series v made _ => goes_pure made.within rfl

/-- A segment comes to braces and code blocks only from its own start onward. -/
theorem alike_segmentWith (plain : grammar.extensions = []) (named : grammar.Named) (context : Context)
    (within : s.Within) (enclosed : EnclosedAlike grammar s inner other) :
    Alike s (segmentWith grammar inner context) (segmentWith grammar other context)
      (ClosedBeyond s) := by
  rw [Tandem.segmentWith_eq, Tandem.segmentWith_eq, alike_remaining_bind]
  apply (alike_passes plain named context _ {} within enclosed).bind
  rintro ⟨draft, closedByBlock⟩ t passed closed
  refine ((goes_settle closedByBlock draft passed.within).imp ?_).alike
  rintro segment u onward same isClosed
  exact (closed (same.symm.trans isClosed)).trans_onward onward

end Parse

end ExprLang
