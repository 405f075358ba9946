import ExprLang.Proofs.Tandem.Operands

/-!
Braces and code blocks of two parses in lockstep. The parsers of what is inside are handed in, and they
are in lockstep behind the place where the segment around them starts.
-/

namespace ExprLang.Tandem

open Parse
open ParseState (Later)

variable {W : Tandem} {ahead : ParseState → Prop} {s s' t t' : ParseState}

/-- Nothing has happened, or an item has been parsed from `s` on. -/
def TookIfAny (W : Tandem) (s s' : ParseState) : Option ItemId → ParseState → ParseState → Prop
  | none, t, t' => t = s ∧ t' = s'
  | some item, t, t' => W.Took s item t t'

def carrySegment (W : Tandem) (segment : Segment) : Segment :=
  { segment with item := segment.item.map W.rename }

/-- Behind a segment that has been parsed from `s` on. -/
structure Parsed (W : Tandem) (s : ParseState) (segment : Segment) (t t' : ParseState) : Prop
    extends Beside W t t' where
  known : ∀ item, segment.item = some item → Known t item
  further : s.cursor.position ≤ t.cursor.position
  beyond : segment.closedByBlock = true → s.cursor.position < t.cursor.position

/-- Segments behind `start` are parsed in lockstep. -/
def Inside (W : Tandem) (start : Nat) (inner inner' : Inner) : Prop :=
  ∀ ahead, W.Heading ahead → ∀ context s s',
    (ahead s → W.Beside s s' ∧ start < s.cursor.position) →
    W.Locked ahead W.carrySegment s s' (inner context) (inner' context) (W.Parsed s)

variable (lawful : W.Lawful) (heading : W.Heading ahead) {start : Nat} {inner inner' : Inner}
  (inside : W.Inside start inner inner')

include heading

/-- A token that is not empty. -/
theorem lock_sign (length : Nat) {kind : TokenKind} {sign sign' : String} {place place' : Nat}
    (given : ahead s → W.Near s s' ∧ W.front place ∧ place' = W.move place ∧
      sign.length = length ∧ 0 < length ∧ (W.expects place length → sign' = W.word sign)) :
    W.Locked ahead W.rename s s' (createToken kind sign place) (createToken kind sign' place')
      fun id t t' => Known t id ∧ W.Stays s s' t t' ∧ W.expects place length := by
  apply (lock_createToken heading fun isAhead => ?_).imp
  · rintro id t t' grown isAhead _ ⟨known, stays, expects⟩
    obtain ⟨_, _, _, rfl, filled, _⟩ := given (heading.later grown isAhead)
    exact ⟨known, stays, expects filled⟩
  · obtain ⟨near, front, rfl, rfl, filled, same⟩ := given isAhead
    exact ⟨near, front, rfl, fun expects => same (expects filled)⟩

omit heading in
theorem word_singleton (W : Tandem) (c : Char) :
    W.word (String.singleton c) = String.singleton (W.fold c) := by
  simp [word]

include lawful

/-- A sign at the cursor becomes a part of the item around it. -/
theorem lock_punctuation {β : Type} {owed : β → Prop} {carry : β → β}
    {fine : β → ParseState → ParseState → Prop} {kind : TokenKind} {sign sign' : String}
    {owner place place' : Nat} {next next' : ItemId → Parse β}
    (given : ahead s → W.Beside s s' ∧ W.front s.cursor.position ∧ place = s.cursor.position ∧
      place' = s'.cursor.position ∧ sign.length = 1 ∧ sign' = W.word sign ∧ owner ≠ 0 ∧
      place < W.text.size)
    (rest : ∀ token t t',
      (ahead t → ahead s ∧ Known t token ∧ W.Beside t t' ∧ t.cursor.position = s.cursor.position + 1) →
      W.Lock ahead owed carry t t' (next token) (next' (W.rename token)) fine) :
    W.Lock ahead owed carry s s'
      (createToken kind sign place >>= fun token => addRegular owner token >>= fun _ =>
        skip 1 >>= fun _ => next token)
      (createToken kind sign' place' >>= fun token => addRegular (W.rename owner) token >>= fun _ =>
        skip 1 >>= fun _ => next' token) fine := by
  apply (lock_sign heading 1 fun isAhead => ?_).bind heading
  · intro token t t' _ made
    apply (lock_addRegular lawful heading fun isAhead => ?_).bind heading
    · intro _ u u' grown added
      apply lock_skip_bind
      apply rest token
      intro isAhead
      obtain ⟨isAhead, second⟩ := added (heading.later (later_moved u _) isAhead)
      obtain ⟨isAhead, known, first, expects⟩ := made isAhead
      obtain ⟨beside, front, here, _, _, _, _, inside⟩ := given isAhead
      rw [here] at expects inside
      obtain ⟨behind, position⟩ := beside.behind lawful (first.trans second) front expects inside
      exact ⟨isAhead, (known.later grown).later (later_moved u _), behind, position⟩
    · obtain ⟨isAhead, known, stays, _⟩ := made isAhead
      exact ⟨stays.near, (given isAhead).2.2.2.2.2.2.1, known.1⟩
  · obtain ⟨beside, front, rfl, rfl, single, same, _⟩ := given isAhead
    exact ⟨beside.toNear, front, beside.position, single, Nat.one_pos, fun _ => same⟩

omit lawful

/-- Something else stands where a closing brace should. -/
theorem lock_noClosing {place place' : Nat} {closing : Char} {last last' : List (Option ItemId)}
    (given : ahead s → W.Near s s' ∧ place' = W.move place ∧ last' = last.map (Option.map W.rename)) :
    W.Locked ahead (Prod.map (List.map (Option.map W.rename)) (Option.map W.rename)) s s'
      (report place 0 (.closingBraceMissing closing) >>= fun _ => pure (last, none))
      (report place' 0 (.closingBraceMissing closing) >>= fun _ => pure (last', none))
      fun _ t t' => W.Stays s s' t t' := by
  apply (lock_report heading fun isAhead => ?_).bind heading
  · intro _ t t' _ reported
    refine lock_pure fun isAhead _ => ?_
    obtain ⟨isAhead, stays, _⟩ := reported isAhead
    obtain ⟨_, _, rfl⟩ := given isAhead
    exact ⟨rfl, stays⟩
  · obtain ⟨near, rfl, _⟩ := given isAhead
    exact ⟨near, fun _ => ⟨rfl, rfl, rfl⟩⟩

/-- What `parameters` does behind a parameter and the gap that follows it. -/
def behindParameter (inner : Inner) (braces : ItemId) (kind : BraceKind) (passes : Nat)
    (before : List (Option ItemId)) (seenComma : Bool) (item : Option ItemId) :
    Parse (List (Option ItemId) × Option ItemId) := do
  let place ← position
  let last := if item.isSome || seenComma then before ++ [item] else before
  match ← current? with
  | some c =>
      if c = ',' then
        addRegular braces (← createToken .comma "," place)
        skip 1
        parameters inner braces kind passes (before ++ [item]) true
      else if c = kind.closing then
        let token ← createToken (.closingBrace kind) (String.singleton c) place
        addRegular braces token
        skip 1
        return (last, some token)
      else
        report place 0 (.closingBraceMissing kind.closing)
        return (last, none)
  | none =>
      report place 0 (.closingBraceMissing kind.closing)
      return (last, none)

omit heading in
theorem parameters_succ (inner : Inner) (braces : ItemId) (kind : BraceKind) (passes : Nat)
    (before : List (Option ItemId)) (seenComma : Bool) :
    parameters inner braces kind (passes + 1) before seenComma = (do
      let segment ← inner .braces
      segment.item.forM (addChild braces)
      skipGap
      behindParameter inner braces kind passes before seenComma segment.item) := rfl

def carryParameters (W : Tandem) :
    List (Option ItemId) × Option ItemId → List (Option ItemId) × Option ItemId :=
  Prod.map (List.map (Option.map W.rename)) (Option.map W.rename)

include lawful

theorem lock_behindParameter {braces : Nat} {kind : BraceKind} {passes passes' : Nat}
    {before : List (Option ItemId)} {seenComma : Bool} {item : Option ItemId}
    (given : ahead s → W.Beside s s' ∧ W.front s.cursor.position ∧ braces ≠ 0)
    (goesOn : ∀ t t', (ahead t → ahead s ∧ W.Beside t t' ∧
        t.cursor.position = s.cursor.position + 1) →
      W.Locked ahead W.carryParameters t t'
        (parameters inner braces kind passes (before ++ [item]) true)
        (parameters inner' (W.rename braces) kind passes'
          ((before ++ [item]).map (Option.map W.rename)) true)
        fun _ u u' => W.Beside u u' ∧ t.cursor.position ≤ u.cursor.position) :
    W.Locked ahead W.carryParameters s s'
      (behindParameter inner braces kind passes before seenComma item)
      (behindParameter inner' (W.rename braces) kind passes' (before.map (Option.map W.rename))
        seenComma (item.map W.rename))
      fun _ t t' => W.Beside t t' ∧ s.cursor.position ≤ t.cursor.position := by
  unfold behindParameter
  rw [Locked, lock_position_bind, lock_current_bind]
  have last_' : (if (item.map W.rename).isSome || seenComma then
        before.map (Option.map W.rename) ++ [item.map W.rename] else before.map (Option.map W.rename)) =
      (if item.isSome || seenComma then before ++ [item] else before).map (Option.map W.rename) := by
    rw [Option.isSome_map]
    split <;> simp
  rw [last_']
  generalize (if item.isSome || seenComma then before ++ [item] else before) = last
  generalize current_' : s'.cursor.text[s'.cursor.position]? = current'
  cases current_ : s.cursor.text[s.cursor.position]? with
  | none =>
      -- Where the text ends, the same fault is reported if the other text ends there as well.
      apply lock_reporting heading
      have heading := heading.given W.rigid
      have same : ahead s ∧ W.rigid → current' = none := by
        rintro ⟨isAhead, rigid⟩
        obtain ⟨beside, front, _⟩ := given isAhead
        rw [← current_', beside.current_none lawful front rigid current_]
      apply lock_subst heading same
      apply (lock_noClosing heading fun known => ?_).imp
      · intro _ t t' grown known _ stays
        obtain ⟨beside, _⟩ := given (heading.later grown known).1
        exact ⟨beside.of_stays stays, Nat.le_of_eq (congrArg Cursor.position stays.cursor.symm)⟩
      · obtain ⟨beside, _⟩ := given known.1
        exact ⟨beside.toNear, beside.position, rfl⟩
  | some c =>
      obtain ⟨inside, _⟩ := Array.getElem?_eq_some_iff.mp current_
      have same : ahead s → current' = some (W.fold c) := by
        intro isAhead
        obtain ⟨beside, front, _⟩ := given isAhead
        rw [← current_', beside.current_some lawful front current_]
      apply lock_subst heading same
      apply lock_ite heading
      · exact fun _ => lawful.fold c ',' (Or.inl (by simp))
      -- Behind a comma there is another parameter.
      · rintro rfl
        apply lock_punctuation lawful heading
        · intro isAhead
          obtain ⟨beside, front, known⟩ := given isAhead
          refine ⟨beside, front, rfl, rfl, rfl, ?_, known, beside.text ▸ inside⟩
          exact ((word_singleton W ',').trans (congrArg String.singleton
            ((lawful.fold ',' ',' (Or.inl (by simp))).mpr rfl))).symm
        · intro token t t' known
          have lock := goesOn t t' fun isAhead =>
            ⟨(known isAhead).1, (known isAhead).2.2⟩
          rw [List.map_append] at lock
          apply lock.imp
          rintro _ u u' grown isAhead _ ⟨beside, further⟩
          obtain ⟨_, _, _, position⟩ := known (heading.later grown isAhead)
          exact ⟨beside, by omega⟩
      · intro _
        apply lock_ite heading
        · intro _
          apply lawful.fold
          cases kind <;> simp [BraceKind.closing]
        -- The closing bracket.
        · intro _
          apply lock_punctuation lawful heading
          · intro isAhead
            obtain ⟨beside, front, known⟩ := given isAhead
            exact ⟨beside, front, rfl, rfl, String.length_singleton, (word_singleton W c).symm, known,
              beside.text ▸ inside⟩
          · intro token t t' known
            refine lock_pure fun isAhead _ => ⟨rfl, ?_⟩
            obtain ⟨_, _, beside, position⟩ := known isAhead
            exact ⟨beside, by omega⟩
        · intro _
          -- Something else; the list ends without its bracket.
          apply (lock_noClosing heading fun isAhead => ?_).imp
          · intro _ t t' grown isAhead _ stays
            obtain ⟨beside, _⟩ := given (heading.later grown isAhead)
            exact ⟨beside.of_stays stays, Nat.le_of_eq (congrArg Cursor.position stays.cursor.symm)⟩
          · obtain ⟨beside, _⟩ := given isAhead
            exact ⟨beside.toNear, beside.position, rfl⟩

include inside

theorem lock_parameters {braces : Nat} {kind : BraceKind} (passes : Nat) :
    ∀ {passes' : Nat} {before : List (Option ItemId)} {seenComma : Bool} {s s' : ParseState},
      (ahead s → W.Beside s s' ∧ start < s.cursor.position ∧ braces ≠ 0 ∧
        s.cursor.remaining < passes ∧ s'.cursor.remaining < passes') →
      W.Locked ahead W.carryParameters s s' (parameters inner braces kind passes before seenComma)
        (parameters inner' (W.rename braces) kind passes' (before.map (Option.map W.rename)) seenComma)
        fun _ t t' => W.Beside t t' ∧ s.cursor.position ≤ t.cursor.position := by
  induction passes with
  | zero => exact fun _ => lock_stuckHere heading
  | succ passes ih =>
      intro passes' before seenComma s s' given
      have filled : ahead s → passes' = passes' - 1 + 1 := by
        intro isAhead
        obtain ⟨_, _, _, _, enough⟩ := given isAhead
        omega
      apply lock_subst heading filled
      rw [parameters_succ, parameters_succ]
      apply (inside ahead heading .braces s s' fun isAhead => ?_).bind heading
      · intro segment t t' _ parsed
        apply (lock_option_forM (fun isAhead => (parsed isAhead).2.toNear) fun item found =>
          lock_addChild lawful heading fun isAhead => ?_).bind heading
        · intro _ u u' _ added
          apply (lock_skipGap lawful heading fun isAhead => ?_).bind heading
          · intro _ v v' _ skipped
            have there : ahead v → ahead s ∧ W.Beside v v' ∧ W.front v.cursor.position ∧
                s.cursor.position ≤ v.cursor.position := by
              intro isAhead
              obtain ⟨isAhead, beside, front, onward⟩ := skipped isAhead
              obtain ⟨isAhead, stays⟩ := added isAhead
              obtain ⟨isAhead, parsed⟩ := parsed isAhead
              rw [stays.cursor] at onward
              exact ⟨isAhead, beside, front, Nat.le_trans parsed.further onward⟩
            apply (lock_behindParameter lawful heading (fun isAhead => ?_) fun w w' known =>
              ih fun isAhead => ?_).imp
            · rintro _ w w' grown isAhead _ ⟨beside, further⟩
              have := (there (heading.later grown isAhead)).2.2.2
              exact ⟨beside, by omega⟩
            · obtain ⟨isAhead, beside, front, _⟩ := there isAhead
              exact ⟨beside, front, (given isAhead).2.2.1⟩
            · obtain ⟨isAhead, beside, position⟩ := known isAhead
              obtain ⟨isAhead, _, _, onward⟩ := there isAhead
              obtain ⟨before, behind, known, enough, enough'⟩ := given isAhead
              have fewer := before.fewer lawful beside (by omega)
              exact ⟨beside, by omega, known, by omega, by omega⟩
          · obtain ⟨isAhead, stays⟩ := added isAhead
            exact (parsed isAhead).2.toBeside.of_stays stays
        · obtain ⟨isAhead, parsed⟩ := parsed isAhead
          exact ⟨parsed.toNear, (given isAhead).2.2.1, (parsed.known item found).1⟩
      · obtain ⟨beside, behind, _⟩ := given isAhead
        exact ⟨beside, behind⟩

omit heading inside in
theorem fold_opening (kind : BraceKind) : W.fold kind.opening = kind.opening := by
  apply (lawful.fold _ _ (Or.inl ?_)).mpr rfl
  cases kind <;> simp [BraceKind.opening]

omit lawful heading inside in
theorem opening_of_ofOpening {c : Char} {kind : BraceKind} (opens : BraceKind.ofOpening? c = some kind) :
    c = kind.opening := by
  unfold BraceKind.ofOpening? at opens
  split at opens <;> cases opens <;> rfl

/-- What `braces` does with the item that it has made. -/
def fillBraces (inner : Inner) (kind : BraceKind) (name : Option ItemId) (opening item : ItemId) :
    Parse ItemId := do
  name.forM (addChild item)
  addRegular item opening
  skip 1
  let (parameters, closing) ← parameters inner item kind ((← remaining) + 1) [] false
  changeForest (·.setKind item (.braces kind name opening closing parameters))
  return item

theorem lock_fillBraces {kind : BraceKind} {name : Option ItemId} {opening item : Nat}
    (complex : ∃ found, s.forest.get? item = some found ∧ found.isToken = false)
    (given : ahead s → W.Beside s s' ∧ W.front s.cursor.position ∧ start ≤ s.cursor.position ∧
      Known s item ∧ opening ≠ 0 ∧ (∀ part, name = some part → part ≠ 0) ∧
      W.expects s.cursor.position 1 ∧ s.cursor.position + 1 ≤ W.text.size) :
    W.Locked ahead W.rename s s' (fillBraces inner kind name opening item)
      (fillBraces inner' kind (name.map W.rename) (W.rename opening) (W.rename item)) (W.Took s) := by
  apply (lock_option_forM (fun isAhead => (given isAhead).1.toNear) fun part found =>
    lock_addChild lawful heading fun isAhead => ?_).bind heading
  · intro _ t t' named attachedName
    apply (lock_addRegular lawful heading fun isAhead => ?_).bind heading
    · intro _ u u' opened attached
      apply lock_skip_bind
      rw [lock_remaining_bind]
      have there : ahead u → ahead s ∧
          W.Beside { u with cursor := u.cursor.skip 1 } { u' with cursor := u'.cursor.skip 1 } ∧
          (u.cursor.skip 1).position = s.cursor.position + 1 := by
        intro isAhead
        obtain ⟨isAhead, second⟩ := attached isAhead
        obtain ⟨isAhead, first⟩ := attachedName isAhead
        obtain ⟨beside, front, _, _, _, _, expects, within⟩ := given isAhead
        exact ⟨isAhead, beside.behind lawful (first.trans second) front expects within⟩
      have back : ahead { u with cursor := u.cursor.skip 1 } → ahead u :=
        heading.later (later_moved u _)
      apply (lock_parameters lawful heading inside _ fun isAhead => ?_).bind heading
      · rintro ⟨parameters, closing⟩ v v' filled parsed
        have grown : Later s v := (named.trans opened).trans ((later_moved u _).trans filled)
        apply (lock_setKind heading rfl ?_ fun isAhead => ?_).bind heading
        · intro _ w w' last set
          refine lock_pure fun isAhead _ => ⟨rfl, ?_⟩
          obtain ⟨isAhead, stays⟩ := set isAhead
          obtain ⟨isAhead, beside, further⟩ := parsed isAhead
          obtain ⟨isAhead, _, position⟩ := there (back isAhead)
          refine ⟨beside.of_stays stays, ((given isAhead).2.2.2.1.later grown).later last, ?_⟩
          rw [stays.cursor]
          exact Nat.lt_of_lt_of_le (position ▸ Nat.lt_succ_self _) further
        · obtain ⟨found, here, none⟩ := complex
          obtain ⟨other, found', _, _, same⟩ := grown.items item found here
          exact ⟨other, found', same.trans none⟩
        · obtain ⟨isAhead, beside, _⟩ := parsed isAhead
          obtain ⟨isAhead, _⟩ := there (back isAhead)
          exact ⟨beside.toNear, (given isAhead).2.2.2.1.1, rfl⟩
      · obtain ⟨isAhead, beside, position⟩ := there (back isAhead)
        obtain ⟨_, _, behind, known, _⟩ := given isAhead
        refine ⟨beside, ?_, known.1, Nat.lt_succ_self _, Nat.lt_succ_self _⟩
        exact Nat.lt_of_le_of_lt behind (position ▸ Nat.lt_succ_self _)
    · obtain ⟨isAhead, stays⟩ := attachedName isAhead
      obtain ⟨_, _, _, known, knownOpening, _⟩ := given isAhead
      exact ⟨stays.near, known.1, knownOpening⟩
  · obtain ⟨beside, _, _, known, _, knownName, _⟩ := given isAhead
    exact ⟨beside.toNear, known.1, knownName part found⟩

theorem lock_braces {name : Option ItemId}
    (given : ahead s → W.Beside s s' ∧ W.front s.cursor.position ∧ start ≤ s.cursor.position ∧
      ∀ item, name = some item → Known s item) :
    W.Locked ahead W.rename s s' (braces inner name) (braces inner' (name.map W.rename)) (W.Took s) := by
  unfold braces
  rw [Locked, lock_position_bind, lock_current_bind]
  generalize current_' : s'.cursor.text[s'.cursor.position]? = current'
  generalize current_ : s.cursor.text[s.cursor.position]? = current
  cases kind_ : current.bind BraceKind.ofOpening? with
  | none => exact lock_broken heading
  | some kind =>
      obtain ⟨c, rfl, opens⟩ := Option.bind_eq_some_iff.mp kind_
      obtain rfl := opening_of_ofOpening opens
      obtain ⟨within, _⟩ := Array.getElem?_eq_some_iff.mp current_
      have same : ahead s → current' = some kind.opening := by
        intro isAhead
        obtain ⟨beside, front, _⟩ := given isAhead
        rw [← current_', beside.current_some lawful front current_, fold_opening lawful kind]
      apply lock_subst heading same
      rw [kind_]
      dsimp only
      apply (lock_sign heading 1 fun isAhead => ?_).bind heading
      · intro opening t t' openingMade opened
        apply (lock_create heading rfl fun isAhead => ?_).bind_at heading rfl
        · intro u' itemMade created
          apply (lock_fillBraces lawful heading inside ⟨_, Forest.get_push_new _, rfl⟩ fun isAhead => ?_).imp
          · intro item v v' filled isAhead _ took
            obtain ⟨isAhead, _, second⟩ := created (heading.later filled isAhead)
            obtain ⟨_, _, first, _⟩ := opened isAhead
            have further := took.further
            rw [second.cursor, first.cursor] at further
            exact ⟨took.toBeside, took.known, further⟩
          · obtain ⟨isAhead, known, second⟩ := created isAhead
            obtain ⟨isAhead, knownOpening, first, expects⟩ := opened isAhead
            obtain ⟨beside, front, behind, knownName⟩ := given isAhead
            have stays := first.trans second
            have inside : s.cursor.position + 1 ≤ W.text.size := by
              rw [← beside.text]
              exact within
            rw [← stays.cursor] at front behind expects inside
            exact ⟨beside.of_stays stays, front, behind, known, knownOpening.1,
              fun part found => (knownName part found).1, expects, inside⟩
        · obtain ⟨isAhead, known, stays, _⟩ := opened isAhead
          obtain ⟨beside, front, _⟩ := given isAhead
          exact ⟨stays.near, front, beside.position, rfl⟩
      · obtain ⟨beside, front, _⟩ := given isAhead
        refine ⟨beside.toNear, front, beside.position, String.length_singleton, Nat.one_pos, fun _ => ?_⟩
        rw [word_singleton, fold_opening lawful kind]

/-- A name may have braces behind a gap. -/
theorem lock_literal
    (given : ahead s → W.Beside s s' ∧ W.front s.cursor.position ∧ start ≤ s.cursor.position) :
    W.Locked ahead (Option.map W.rename) s s' (literal? W.grammar inner) (literal? W.grammar inner')
      (W.TookIfAny s s') := by
  unfold literal?
  apply (lock_name lawful heading fun isAhead => ?_).bind heading
  · intro found t t' grown named
    cases found with
    | none => exact lock_pure fun isAhead _ => ⟨rfl, (named isAhead).2⟩
    | some name =>
        have took : ahead t → ahead s ∧ W.Took s name t t' := named
        rw [Option.map_some]
        dsimp only
        rw [lock_get_bind]
        apply lock_ite heading
        · intro isAhead
          obtain ⟨_, took⟩ := took isAhead
          obtain ⟨front, moved⟩ := lawful.gap _ took.rest
          rw [Cursor.gapEnd, Cursor.gapEnd, took.text, took.other, took.markers, took.markersOther,
            took.position, moved, lawful.opening _ front]
        · intro _
          apply (lock_skipGap lawful heading fun isAhead => (took isAhead).2.toBeside).bind heading
          intro _ u u' more skipped
          apply lock_map
          apply (lock_braces lawful heading inside fun isAhead => ?_).imp
          · intro item v v' filled isAhead _ braced _
            obtain ⟨isAhead, _, _, onward⟩ := skipped (heading.later filled isAhead)
            have further := (took isAhead).2.further
            exact ⟨rfl, braced.toBeside, braced.known,
              Nat.lt_trans further (Nat.lt_of_le_of_lt onward braced.further)⟩
          · obtain ⟨isAhead, beside, front, onward⟩ := skipped isAhead
            obtain ⟨isAhead, took⟩ := took isAhead
            refine ⟨beside, front, ?_, ?_⟩
            · exact Nat.le_trans (given isAhead).2.2 (Nat.le_trans (Nat.le_of_lt took.further) onward)
            · rintro _ ⟨⟩
              exact took.known.later more
        · exact fun _ => lock_pure fun isAhead _ => ⟨rfl, (took isAhead).2⟩
  · obtain ⟨beside, front, _⟩ := given isAhead
    exact ⟨beside, front⟩

end ExprLang.Tandem
