import ExprLang.Proofs.Tandem.Enclosed

/-!
Code blocks of two parses in lockstep: their statements, the separators between them and what has no
place there.
-/

namespace ExprLang.Tandem

open Parse
open ParseState (Later)

variable {W : Tandem} {ahead : ParseState → Prop} {s s' t t' : ParseState}
  (lawful : W.Lawful) (heading : W.Heading ahead) {start : Nat} {inner inner' : Inner}

/-! Parts of a block -/

section Kinds

variable {kind kind' : ItemKind} (part : Nat) (same : W.Kind kind kind')

include same

theorem kind_noteStatement : W.Kind (noteStatement part kind) (noteStatement (W.rename part) kind') := by
  cases kind with
  | constantText =>
      obtain ⟨_, alike, rfl⟩ := same
      exact ⟨_, alike, rfl⟩
  | _ =>
      cases same
      simp [noteStatement, Kind, carryKind]

theorem kind_noteSeparator : W.Kind (noteSeparator part kind) (noteSeparator (W.rename part) kind') := by
  cases kind with
  | constantText =>
      obtain ⟨_, alike, rfl⟩ := same
      exact ⟨_, alike, rfl⟩
  | _ =>
      cases same
      simp [noteSeparator, Kind, carryKind]

theorem kind_noteBlockEnd : W.Kind (noteBlockEnd part kind) (noteBlockEnd (W.rename part) kind') := by
  cases kind with
  | constantText =>
      obtain ⟨_, alike, rfl⟩ := same
      exact ⟨_, alike, rfl⟩
  | _ =>
      cases same
      simp [noteBlockEnd, Kind, carryKind]

end Kinds

/-- A note of a new part that the root can take, too. -/
structure Notes (W : Tandem) (change changeOther : ItemKind → ItemKind) : Prop where
  keeps : ∀ kind, (change kind).isToken = kind.isToken
  keepsOther : ∀ kind, (changeOther kind).isToken = kind.isToken
  alike : ∀ kind kind', W.Kind kind kind' → W.Kind (change kind) (changeOther kind')
  root : ∀ before others statements separators, ∃ more rest,
    change (.root statements separators) = .root more rest ∧
      changeOther ((ItemKind.root before others).append (W.carryKind (.root statements separators))) =
        (ItemKind.root before others).append (W.carryKind (.root more rest))

theorem notes_statement (W : Tandem) (statement : Nat) :
    W.Notes (noteStatement statement) (noteStatement (W.rename statement)) where
  keeps kind := by cases kind <;> rfl
  keepsOther kind := by cases kind <;> rfl
  alike _ _ := kind_noteStatement statement
  root before others statements separators :=
    ⟨statements ++ [statement], separators, rfl, by simp [noteStatement, carryKind, ItemKind.append]⟩

theorem notes_separator (W : Tandem) (separator : Nat) :
    W.Notes (noteSeparator separator) (noteSeparator (W.rename separator)) where
  keeps kind := by cases kind <;> rfl
  keepsOther kind := by cases kind <;> rfl
  alike _ _ := kind_noteSeparator separator
  root before others statements separators :=
    ⟨statements, separators ++ [separator], rfl, by simp [noteSeparator, carryKind, ItemKind.append]⟩

include heading

theorem lock_note {owner : Nat} {change change' : ItemKind → ItemKind} (notes : W.Notes change change')
    (given : ahead s → W.Near s s' ∧ W.Hosts owner) :
    W.Locked ahead id s s' (changeKind owner change) (changeKind (W.rename owner) change')
      fun _ t t' => W.Stays s s' t t' := by
  have grown := growing_changeKind owner notes.keeps s
  refine lock_ok rfl rfl grown fun isAhead _ => ?_
  obtain ⟨near, hosts⟩ := given (heading.later grown isAhead)
  refine ⟨rfl, near.withForest ?_⟩
  rcases hosts with known | ⟨rfl, _⟩
  · exact near.forest.changeKind known (fun item _ kind same => notes.alike _ kind same)
      fun item _ => notes.keeps _
  · exact near.forest.changeRoot notes.keeps notes.keepsOther notes.root

include lawful

theorem lock_addStatement {owner item : Nat} (given : ahead s → W.Near s s' ∧ W.Hosts owner ∧ item ≠ 0) :
    W.Locked ahead id s s' (addStatement owner item) (addStatement (W.rename owner) (W.rename item))
      fun _ t t' => W.Stays s s' t t' := by
  apply (lock_attachTo lawful heading given).bind heading
  intro _ t t' _ added
  apply (lock_note heading (notes_statement W item) fun isAhead => ?_).imp
  · intro _ u u' grown isAhead _ stays
    exact (added (heading.later grown isAhead)).2.trans stays
  · obtain ⟨isAhead, stays⟩ := added isAhead
    exact ⟨stays.near, (given isAhead).2.1⟩

theorem lock_addSeparator {owner place place' : Nat}
    (given : ahead s → W.Beside s s' ∧ W.front s.cursor.position ∧ place = s.cursor.position ∧
      place' = s'.cursor.position ∧ W.Hosts owner ∧ place < W.text.size) :
    W.Locked ahead id s s' (addSeparator owner place) (addSeparator (W.rename owner) place')
      fun _ t t' => W.Beside t t' ∧ t.cursor.position = s.cursor.position + 1 := by
  unfold addSeparator
  rw [Locked, lock_slice_bind]
  apply (lock_sign heading 1 fun isAhead => ?_).bind heading
  · intro token t t' _ made
    apply (lock_attachTo lawful heading fun isAhead => ?_).bind heading
    · intro _ u u' _ added
      apply (lock_note heading (notes_separator W token) fun isAhead => ?_).bind heading
      · intro _ v v' _ noted
        refine lock_ok rfl rfl (later_moved v _) fun isAhead _ => ⟨rfl, ?_⟩
        obtain ⟨isAhead, third⟩ := noted (heading.later (later_moved v _) isAhead)
        obtain ⟨isAhead, second⟩ := added isAhead
        obtain ⟨isAhead, _, first, expects⟩ := made isAhead
        obtain ⟨beside, front, here, _, _, inside⟩ := given isAhead
        rw [here] at expects inside
        exact beside.behind lawful ((first.trans second).trans third) front expects inside
      · obtain ⟨isAhead, second⟩ := added isAhead
        obtain ⟨isAhead, _⟩ := made isAhead
        exact ⟨second.near, (given isAhead).2.2.2.2.1⟩
    · obtain ⟨isAhead, known, first, _⟩ := made isAhead
      exact ⟨first.near, (given isAhead).2.2.2.2.1, known.1⟩
  · obtain ⟨beside, front, rfl, rfl, _, inside⟩ := given isAhead
    refine ⟨beside.toNear, front, beside.position, ?_, Nat.one_pos, fun expects => ?_⟩
    · rw [Text.length_slice, beside.text]
      omega
    · rw [beside.text, beside.other, beside.position]
      exact lawful.slice _ 1 expects front inside

/-- Something is skipped, and so a fault. -/
theorem lock_unexpected {place place' length : Nat}
    (given : ahead s → W.Beside s s' ∧ W.front s.cursor.position ∧ place = s.cursor.position ∧
      place' = s'.cursor.position ∧ place + length ≤ W.text.size) :
    W.Locked ahead id s s' (unexpected place length) (unexpected place' length)
      fun _ t t' => W.Beside t t' ∧ t.cursor.position = s.cursor.position + length := by
  unfold unexpected
  rw [Locked, lock_slice_bind]
  apply (lock_report heading fun isAhead => ?_).bind heading
  · intro _ t t' _ reported
    refine lock_ok rfl rfl (later_moved t _) fun isAhead _ => ⟨rfl, ?_⟩
    obtain ⟨isAhead, stays, rigid⟩ := reported (heading.later (later_moved t _) isAhead)
    obtain ⟨beside, front, here, _, inside⟩ := given isAhead
    rw [here] at inside
    exact beside.behind lawful stays front (lawful.expects rigid _ _) inside
  · obtain ⟨beside, front, rfl, rfl, inside⟩ := given isAhead
    refine ⟨beside.toNear, fun rigid => ⟨beside.position, rfl, ?_⟩⟩
    rw [beside.text, beside.other, beside.position,
      lawful.slice _ length (lawful.expects rigid _ _) front inside]
    rfl

/-! The statements of a block -/

/-- What `blockStatements` does behind a statement and the gap that follows it. -/
def behindStatement (grammar : Grammar) (block : ItemId) (markers : MarkerPair)
    (blockStart start : Nat) (closedByBlock : Bool) (again : Parse Unit) : Parse Unit := do
  let place ← position
  match ← current? with
  | none => report blockStart markers.start.length (.codeBlockEndMarkerMissing markers.stop)
  | some c =>
      if grammar.isBlockEndAt (← Parse.text) place then
        let length := markers.stop.length
        let token ← createToken .codeBlockEnd (← slice place (place + length)) place
        addRegular block token
        changeKind block (noteBlockEnd token)
        skip length
      else if some c = grammar.separator then
        addSeparator block place
        again
      else if closedByBlock then again
      else if isStrayTerminator c then
        unexpected place 1
        again
      else if place = start then stuck place
      else again

omit lawful heading in
theorem blockStatements_succ (grammar : Grammar) (inner : Inner) (block : ItemId)
    (markers : MarkerPair) (blockStart passes : Nat) :
    blockStatements grammar inner block markers blockStart (passes + 1) = (do
      let start ← position
      let segment ← inner .codeBlock
      segment.item.forM (addStatement block)
      skipGap
      behindStatement grammar block markers blockStart start segment.closedByBlock
        (blockStatements grammar inner block markers blockStart passes)) := rfl

theorem lock_blockEnd {block : Nat} {markers : MarkerPair} {place place' : Nat}
    (given : ahead s → W.Beside s s' ∧ W.front s.cursor.position ∧ place = s.cursor.position ∧
      place' = s'.cursor.position ∧ block ≠ 0 ∧ 0 < markers.stop.length ∧
      place + markers.stop.length ≤ W.text.size) :
    W.Locked ahead id s s'
      (do
        let token ← createToken .codeBlockEnd (← slice place (place + markers.stop.length)) place
        addRegular block token
        changeKind block (noteBlockEnd token)
        skip markers.stop.length)
      (do
        let token ← createToken .codeBlockEnd (← slice place' (place' + markers.stop.length)) place'
        addRegular (W.rename block) token
        changeKind (W.rename block) (noteBlockEnd token)
        skip markers.stop.length)
      fun _ t t' => W.Beside t t' ∧ s.cursor.position ≤ t.cursor.position := by
  rw [Locked, lock_slice_bind]
  apply (lock_sign heading markers.stop.length fun isAhead => ?_).bind heading
  · intro token t t' _ made
    apply (lock_addRegular lawful heading fun isAhead => ?_).bind heading
    · intro _ u u' _ added
      apply (lock_changeKind heading (fun kind => by cases kind <;> rfl) fun isAhead => ?_).bind heading
      · intro _ v v' _ noted
        refine lock_ok rfl rfl (later_moved v _) fun isAhead _ => ⟨rfl, ?_⟩
        obtain ⟨isAhead, third⟩ := noted (heading.later (later_moved v _) isAhead)
        obtain ⟨isAhead, second⟩ := added isAhead
        obtain ⟨isAhead, _, first, expects⟩ := made isAhead
        obtain ⟨beside, front, here, _, _, _, inside⟩ := given isAhead
        rw [here] at expects inside
        have behind := beside.behind lawful ((first.trans second).trans third) front expects inside
        exact ⟨behind.1, behind.2 ▸ Nat.le_add_right _ _⟩
      · obtain ⟨isAhead, second⟩ := added isAhead
        obtain ⟨isAhead, _⟩ := made isAhead
        exact ⟨second.near, (given isAhead).2.2.2.2.1, fun _ _ => kind_noteBlockEnd token⟩
    · obtain ⟨isAhead, known, first, _⟩ := made isAhead
      exact ⟨first.near, (given isAhead).2.2.2.2.1, known.1⟩
  · obtain ⟨beside, front, rfl, rfl, _, filled, inside⟩ := given isAhead
    refine ⟨beside.toNear, front, beside.position, ?_, filled, fun expects => ?_⟩
    · rw [beside.text]
      exact Grammar.length_slice_of_inside inside
    · rw [beside.text, beside.other, beside.position]
      exact lawful.slice _ _ expects front inside

omit heading in
theorem stray_fold (c : Char) : isStrayTerminator (W.fold c) = isStrayTerminator c := by
  have same : ∀ d ∈ [',', '(', ')', '[', ']'], (W.fold c == d) = (c == d) := by
    intro d member
    rw [Bool.eq_iff_iff, beq_iff_eq, beq_iff_eq]
    exact lawful.fold c d (Or.inl member)
  simp only [isStrayTerminator, same ',' (by simp), same ')' (by simp), same ']' (by simp)]

omit heading in
theorem separator_fold (c : Char) : some (W.fold c) = W.grammar.separator ↔ some c = W.grammar.separator := by
  cases separator : W.grammar.separator with
  | none => simp
  | some d =>
      rw [Option.some_inj, Option.some_inj]
      exact lawful.fold c d (Or.inr (Or.inr separator.symm))

theorem lock_behindStatement {block : Nat} {markers : MarkerPair} {blockStart blockStart' origin origin' : Nat}
    {closedByBlock : Bool} {again again' : Parse Unit}
    (marks : W.grammar.codeBlock = some markers)
    (given : ahead s → W.Beside s s' ∧ W.front s.cursor.position ∧ block ≠ 0 ∧
      (W.rigid → blockStart' = W.move blockStart) ∧ W.rest origin ∧ origin' = W.move origin ∧
      origin ≤ s.cursor.position ∧ (closedByBlock = true → origin < s.cursor.position))
    (goesOn : ∀ t t', (ahead t → ahead s ∧ W.Beside t t' ∧ origin < t.cursor.position) →
      W.Locked ahead id t t' again again'
        fun _ u u' => W.Beside u u' ∧ t.cursor.position ≤ u.cursor.position) :
    W.Locked ahead id s s'
      (behindStatement W.grammar block markers blockStart origin closedByBlock again)
      (behindStatement W.grammar (W.rename block) markers blockStart' origin' closedByBlock again')
      fun _ t t' => W.Beside t t' ∧ s.cursor.position ≤ t.cursor.position := by
  unfold behindStatement
  rw [Locked, lock_position_bind, lock_current_bind]
  generalize current_' : s'.cursor.text[s'.cursor.position]? = current'
  cases current_ : s.cursor.text[s.cursor.position]? with
  | none =>
      -- At the end of the text the same fault is reported, if the other text ends there as well.
      have reports : Ends (report blockStart markers.start.length (.codeBlockEndMarkerMissing markers.stop)) s
          (fun _ t => ahead t → True → W.rigid) fun _ t => W.rigid → ahead t → W.rigid :=
        ends_ok rfl fun isAhead _ =>
          rigid_of_fault heading isAhead (List.mem_append_right _ List.mem_cons_self)
      apply lock_given _ ?_ reports
      have heading := heading.given W.rigid
      have same : ahead s ∧ W.rigid → current' = none := by
        rintro ⟨isAhead, rigid⟩
        obtain ⟨beside, front, _⟩ := given isAhead
        rw [← current_', beside.current_none lawful front rigid current_]
      apply lock_subst heading same
      apply (lock_report heading fun known => ?_).imp
      · intro _ t t' grown known _ reported
        obtain ⟨beside, _⟩ := given (heading.later grown known).1
        exact ⟨beside.of_stays reported.1, Nat.le_of_eq (congrArg Cursor.position reported.1.cursor.symm)⟩
      · obtain ⟨beside, _, _, moves, _⟩ := given known.1
        exact ⟨beside.toNear, fun rigid => ⟨moves rigid, rfl, rfl⟩⟩
  | some c =>
      obtain ⟨inside, _⟩ := Array.getElem?_eq_some_iff.mp current_
      have same : ahead s → current' = some (W.fold c) := by
        intro isAhead
        obtain ⟨beside, front, _⟩ := given isAhead
        rw [← current_', beside.current_some lawful front current_]
      have goesOnHere : ∀ t t', (ahead t → ahead s ∧ W.Beside t t' ∧
            s.cursor.position + 1 = t.cursor.position) →
          W.Locked ahead id t t' again again'
            fun _ u u' => W.Beside u u' ∧ s.cursor.position ≤ u.cursor.position := by
        intro t t' known
        apply (goesOn t t' fun isAhead => ?_).imp
        · rintro _ u u' grown isAhead _ ⟨beside, further⟩
          have := (known (heading.later grown isAhead)).2.2
          exact ⟨beside, by omega⟩
        · obtain ⟨isAhead, beside, further⟩ := known isAhead
          obtain ⟨_, _, _, _, _, _, onward, _⟩ := given isAhead
          exact ⟨isAhead, beside, by omega⟩
      apply lock_subst heading same
      dsimp only
      rw [lock_text_bind]
      apply lock_ite heading
      · intro isAhead
        obtain ⟨beside, front, _⟩ := given isAhead
        rw [beside.text, beside.other, beside.position, lawful.blockEnd _ front]
      -- The end marker of the block.
      · intro ends
        apply lock_blockEnd lawful heading
        intro isAhead
        obtain ⟨beside, front, known, _⟩ := given isAhead
        obtain ⟨others, found, filled, bound⟩ := Grammar.isBlockEndAt_inside ends
        cases marks.symm.trans found
        exact ⟨beside, front, rfl, rfl, known, filled, beside.text ▸ bound⟩
      · intro _
        apply lock_ite heading fun _ => separator_fold lawful c
        -- A separator.
        · intro _
          apply (lock_addSeparator lawful heading fun isAhead => ?_).bind heading
          · intro _ t t' _ added
            exact goesOnHere t t' fun isAhead => ⟨(added isAhead).1, (added isAhead).2.1, (added isAhead).2.2.symm⟩
          · obtain ⟨beside, front, known, _⟩ := given isAhead
            exact ⟨beside, front, rfl, rfl, Or.inl known, beside.text ▸ inside⟩
        · intro _
          apply lock_ite heading fun _ => Iff.rfl
          -- A statement that ends with a block of its own needs no separator.
          · intro closed
            apply goesOn s s'
            intro isAhead
            obtain ⟨beside, _, _, _, _, _, _, beyond⟩ := given isAhead
            exact ⟨isAhead, beside, beyond closed⟩
          · intro _
            apply lock_ite heading
            · intro _
              rw [stray_fold lawful]
            -- A terminator of something that is not open here.
            · intro _
              apply (lock_unexpected lawful heading fun isAhead => ?_).bind heading
              · intro _ t t' _ skipped
                exact goesOnHere t t' fun isAhead =>
                  ⟨(skipped isAhead).1, (skipped isAhead).2.1, (skipped isAhead).2.2.symm⟩
              · obtain ⟨beside, front, _⟩ := given isAhead
                exact ⟨beside, front, rfl, rfl, beside.text ▸ inside⟩
            · intro _
              apply lock_ite heading
              · intro isAhead
                obtain ⟨beside, front, _, _, rest, rfl, _⟩ := given isAhead
                rw [beside.position]
                exact move_eq_iff lawful beside.rest rest
              -- Nothing has been read since the statement before.
              · exact fun _ => lock_stuck heading
              -- The next statement.
              · intro different
                apply goesOn s s'
                intro isAhead
                obtain ⟨beside, _, _, _, _, _, onward, _⟩ := given isAhead
                exact ⟨isAhead, beside, by omega⟩

variable (inside : W.Inside start inner inner')

include inside

theorem lock_blockStatements {block : Nat} {markers : MarkerPair} {blockStart blockStart' : Nat}
    (marks : W.grammar.codeBlock = some markers) (passes : Nat) :
    ∀ {passes' : Nat} {s s' : ParseState},
      (ahead s → W.Beside s s' ∧ start < s.cursor.position ∧ block ≠ 0 ∧
        (W.rigid → blockStart' = W.move blockStart) ∧
        s.cursor.remaining < passes ∧ s'.cursor.remaining < passes') →
      W.Locked ahead id s s' (blockStatements W.grammar inner block markers blockStart passes)
        (blockStatements W.grammar inner' (W.rename block) markers blockStart' passes')
        fun _ t t' => W.Beside t t' ∧ s.cursor.position ≤ t.cursor.position := by
  induction passes with
  | zero => exact fun _ => lock_stuckHere heading
  | succ passes ih =>
      intro passes' s s' given
      have filled : ahead s → passes' = passes' - 1 + 1 := by
        intro isAhead
        obtain ⟨_, _, _, _, _, enough⟩ := given isAhead
        omega
      apply lock_subst heading filled
      rw [blockStatements_succ, blockStatements_succ, lock_position_bind]
      apply (inside ahead heading .codeBlock s s' fun isAhead => ?_).bind heading
      · intro segment t t' _ parsed
        apply (lock_option_forM (fun isAhead => (parsed isAhead).2.toNear) fun item found =>
          lock_addStatement lawful heading fun isAhead => ?_).bind heading
        · intro _ u u' _ added
          apply (lock_skipGap lawful heading fun isAhead => ?_).bind heading
          · intro _ v v' _ skipped
            -- From the statement before, each step goes further in both texts.
            have there : ahead v → ahead s ∧ W.Beside v v' ∧ W.front v.cursor.position ∧
                s.cursor.position ≤ v.cursor.position ∧
                (segment.closedByBlock = true → s.cursor.position < v.cursor.position) := by
              intro isAhead
              obtain ⟨isAhead, beside, front, onward⟩ := skipped isAhead
              obtain ⟨isAhead, stays⟩ := added isAhead
              obtain ⟨isAhead, parsed⟩ := parsed isAhead
              rw [stays.cursor] at onward
              exact ⟨isAhead, beside, front, Nat.le_trans parsed.further onward,
                fun closed => Nat.lt_of_lt_of_le (parsed.beyond closed) onward⟩
            apply (lock_behindStatement lawful heading marks (fun isAhead => ?_) fun w w' known =>
              ih fun isAhead => ?_).imp
            · rintro _ w w' grown isAhead _ ⟨beside, further⟩
              exact ⟨beside, Nat.le_trans (there (heading.later grown isAhead)).2.2.2.1 further⟩
            · obtain ⟨isAhead, beside, front, onward, beyond⟩ := there isAhead
              obtain ⟨before, _, known, moves, _⟩ := given isAhead
              exact ⟨beside, front, known, moves, before.rest, before.position, onward, beyond⟩
            · obtain ⟨isAhead, beside, beyond⟩ := known isAhead
              obtain ⟨isAhead, _⟩ := there isAhead
              obtain ⟨before, behind, known, moves, enough, enough'⟩ := given isAhead
              have fewer := before.fewer lawful beside beyond
              exact ⟨beside, by omega, known, moves, by omega, by omega⟩
          · obtain ⟨isAhead, stays⟩ := added isAhead
            exact (parsed isAhead).2.toBeside.of_stays stays
        · obtain ⟨isAhead, parsed⟩ := parsed isAhead
          exact ⟨parsed.toNear, Or.inl (given isAhead).2.2.1, (parsed.known item found).1⟩
      · obtain ⟨beside, behind, _⟩ := given isAhead
        exact ⟨beside, behind⟩

theorem lock_codeBlock
    (given : ahead s → W.Beside s s' ∧ W.front s.cursor.position ∧ start ≤ s.cursor.position ∧
      W.grammar.isBlockStartAt s.cursor.text s.cursor.position = true) :
    W.Locked ahead W.rename s s' (codeBlock W.grammar inner) (codeBlock W.grammar inner') (W.Took s) := by
  unfold codeBlock
  rw [Locked, lock_position_bind]
  cases marks : W.grammar.codeBlock with
  | none => exact lock_stuck heading
  | some markers =>
      have length : ahead s → 0 < markers.start.length ∧
          s.cursor.position + markers.start.length ≤ W.text.size := by
        intro isAhead
        obtain ⟨beside, _, _, starts⟩ := given isAhead
        obtain ⟨others, found, filled, bound⟩ := Grammar.isBlockStartAt_inside starts
        cases marks.symm.trans found
        exact ⟨filled, beside.text ▸ bound⟩
      dsimp only
      rw [lock_slice_bind]
      apply (lock_sign heading markers.start.length fun isAhead => ?_).bind heading
      · intro token t t' _ made
        apply (lock_create heading rfl fun isAhead => ?_).bind heading
        · intro block u u' _ created
          apply (lock_addRegular lawful heading fun isAhead => ?_).bind heading
          · intro _ v v' attached added
            apply lock_skip_bind
            rw [lock_remaining_bind]
            have back := heading.later (later_moved v (v.cursor.skip markers.start.length))
            have there : ahead v → ahead s ∧ Known v block ∧
                W.Beside { v with cursor := v.cursor.skip markers.start.length }
                  { v' with cursor := v'.cursor.skip markers.start.length } ∧
                (v.cursor.skip markers.start.length).position =
                  s.cursor.position + markers.start.length := by
              intro isAhead
              obtain ⟨isAhead, third⟩ := added isAhead
              obtain ⟨isAhead, known, second⟩ := created isAhead
              obtain ⟨isAhead, _, first, expects⟩ := made isAhead
              obtain ⟨beside, front, _⟩ := given isAhead
              exact ⟨isAhead, known.later attached,
                beside.behind lawful ((first.trans second).trans third) front expects (length isAhead).2⟩
            apply (lock_blockStatements lawful heading inside marks _ fun isAhead => ?_).bind heading
            · intro _ w w' filled parsed
              refine lock_pure fun isAhead _ => ⟨rfl, ?_⟩
              obtain ⟨isAhead, beside, further⟩ := parsed isAhead
              obtain ⟨isAhead, known, _, position⟩ := there (back isAhead)
              refine ⟨beside, (known.later (later_moved v _)).later filled, ?_⟩
              refine Nat.lt_of_lt_of_le ?_ further
              exact position ▸ Nat.lt_add_of_pos_right (length isAhead).1
            · obtain ⟨isAhead, known, beside, position⟩ := there (back isAhead)
              obtain ⟨before, _, behind, _⟩ := given isAhead
              refine ⟨beside, ?_, known.1, fun _ => before.position, Nat.lt_succ_self _,
                Nat.lt_succ_self _⟩
              refine Nat.lt_of_le_of_lt behind ?_
              exact position ▸ Nat.lt_add_of_pos_right (length isAhead).1
          · obtain ⟨isAhead, known, stays⟩ := created isAhead
            exact ⟨stays.near, known.1, (made isAhead).2.1.1⟩
        · obtain ⟨isAhead, _, stays, _⟩ := made isAhead
          obtain ⟨beside, front, _⟩ := given isAhead
          exact ⟨stays.near, front, beside.position, rfl⟩
      · obtain ⟨beside, front, _⟩ := given isAhead
        obtain ⟨filled, within⟩ := length isAhead
        refine ⟨beside.toNear, front, beside.position, ?_, filled, fun expects => ?_⟩
        · rw [beside.text]
          exact Grammar.length_slice_of_inside within
        · rw [beside.text, beside.other, beside.position]
          exact lawful.slice _ _ expects front within

end ExprLang.Tandem
