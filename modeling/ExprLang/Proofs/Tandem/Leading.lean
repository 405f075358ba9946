import ExprLang.Proofs.Tandem.Blocks
import ExprLang.Proofs.Tandem.Resolve

/-!
What stands before an operand, and the operand itself, of two parses in lockstep: keywords and prefixes,
and whatever can be found where an operand can stand. A language without extensions has no custom
expressions.
-/

namespace ExprLang

namespace Parse

/-- What `keywordRun` does with a keyword. -/
def takeKeyword (grammar : Grammar) (passes : Nat) (keywords : List ItemId) (keyword : Keyword)
    (start : Nat) : Parse (List ItemId) := do
  let length := keyword.text.length
  let written ← slice start (start + length)
  skip length
  let forest ← forest
  if keywords.any fun k => forest.tokenKind? k == some (.keyword keyword.id) then
    report start length (.multipleOccurrencesOfKeyword written)
    return keywords
  else
    let token ← createToken (.keyword keyword.id) written start
    keywordRun grammar true passes (keywords ++ [token])

theorem keywordRun_succ (grammar : Grammar) (passes : Nat) (keywords : List ItemId) :
    keywordRun grammar true (passes + 1) keywords = (do
      skipGap
      let start ← position
      match grammar.keywordAt? (← text) start with
      | none => return keywords
      | some keyword => takeKeyword grammar passes keywords keyword start) := by
  rfl

variable {grammar : Grammar} (plain : grammar.extensions = [])

theorem keywordId_run (token : ItemId) (s : ParseState) :
    ∃ keyword, keywordId? token s = .ok keyword s := by
  unfold keywordId?
  rw [forest_bind_run]
  cases s.forest.tokenKind? token with
  | none => exact ⟨none, rfl⟩
  | some kind => cases kind <;> exact ⟨_, rfl⟩

include plain

theorem custom_of_plain (inner : Inner) (prefixes keywords : List ItemId) :
    custom? grammar inner prefixes keywords = pure none := by
  unfold custom?
  cases keywords.getLast? with
  | none => rfl
  | some token =>
      funext s
      obtain ⟨keyword, run⟩ := keywordId_run token s
      dsimp only
      rw [bind_run, run]
      cases keyword with
      | none => rfl
      | some keyword =>
          simp only [extensionsFor_eq_nil plain]
          rfl

theorem operand_of_plain (inner : Inner) (draft : Draft) : operand grammar inner draft = (do
    skipGap
    return (← plainOperand grammar inner draft.terms, draft.pending)) := by
  unfold operand
  simp only [custom_of_plain plain, pure_bind]

end Parse

namespace Tandem

open Parse
open ParseState (Later)

variable {W : Tandem} {ahead : ParseState → Prop} {s s' t t' : ParseState}
  (lawful : W.Lawful) (heading : W.Heading ahead) {start : Nat} {inner inner' : Inner}
  (inside : W.Inside start inner inner')

/-! Keywords -/

def carryModifiers (W : Tandem) (modifiers : Modifiers) : Modifiers :=
  ⟨modifiers.prefixes.map W.rename, modifiers.keywords.map W.rename⟩

def KnownAll (s : ParseState) (items : List Nat) : Prop := ∀ item ∈ items, Known s item

structure KnownModifiers (s : ParseState) (modifiers : Modifiers) : Prop where
  prefixes : KnownAll s modifiers.prefixes
  keywords : KnownAll s modifiers.keywords

theorem KnownAll.later {items : List Nat} (known : KnownAll s items) (grown : Later s t) :
    KnownAll t items := fun item member => (known item member).later grown

theorem KnownAll.snoc {items : List Nat} {item : Nat} (known : KnownAll s items) (also : Known s item) :
    KnownAll s (items ++ [item]) := by
  intro other member
  rcases List.mem_append.mp member with old | new
  · exact known other old
  · exact List.mem_singleton.mp new ▸ also

theorem KnownModifiers.later {modifiers : Modifiers} (known : KnownModifiers s modifiers)
    (grown : Later s t) : KnownModifiers t modifiers :=
  ⟨known.prefixes.later grown, known.keywords.later grown⟩

/-- Keywords have been parsed behind others. -/
structure Keywords (W : Tandem) (s : ParseState) (before keywords : List Nat) (t t' : ParseState) : Prop
    extends Beside W t t' where
  known : KnownAll t keywords
  further : s.cursor.position ≤ t.cursor.position
  beyond : before.length < keywords.length → s.cursor.position < t.cursor.position

include lawful heading

theorem lock_takeKeyword {passes passes' : Nat} {keywords : List Nat} {keyword : Keyword}
    (given : ahead s → W.Beside s s' ∧ W.front s.cursor.position ∧ KnownAll s keywords ∧
      0 < keyword.text.length ∧ s.cursor.position + keyword.text.length ≤ W.text.size)
    (goesOn : ∀ token t t', (ahead t → ahead s ∧ W.Beside t t' ∧ KnownAll t (keywords ++ [token]) ∧
        s.cursor.position < t.cursor.position) →
      W.Locked ahead (List.map W.rename) t t' (keywordRun W.grammar true passes (keywords ++ [token]))
        (keywordRun W.grammar true passes' ((keywords ++ [token]).map W.rename))
        (W.Keywords t (keywords ++ [token]))) :
    W.Locked ahead (List.map W.rename) s s'
      (takeKeyword W.grammar passes keywords keyword s.cursor.position)
      (takeKeyword W.grammar passes' (keywords.map W.rename) keyword s'.cursor.position)
      (W.Keywords s keywords) := by
  unfold takeKeyword
  rw [Locked, lock_slice_bind]
  apply lock_skip_bind
  rw [lock_forest_bind]
  let length := keyword.text.length
  let passed : ParseState := { s with cursor := s.cursor.skip length }
  let passed' : ParseState := { s' with cursor := s'.cursor.skip length }
  have back : ahead passed → ahead s := heading.later (later_moved s _)
  have word : ahead s → W.expects s.cursor.position length →
      s'.cursor.text.slice s'.cursor.position (s'.cursor.position + length) =
        W.word (s.cursor.text.slice s.cursor.position (s.cursor.position + length)) := by
    intro isAhead expects
    obtain ⟨beside, front, _, _, within⟩ := given isAhead
    rw [beside.text, beside.other, beside.position]
    exact lawful.slice _ _ expects front within
  have taken : ∀ t t', Later passed t → (ahead t → ahead passed ∧ W.Stays passed passed' t t' ∧
      W.expects s.cursor.position length) → ahead t →
      ahead s ∧ W.Beside t t' ∧ t.cursor.position = s.cursor.position + length := by
    intro t t' _ there isAhead
    obtain ⟨isAhead, stays, expects⟩ := there isAhead
    obtain ⟨beside, front, _, _, within⟩ := given (back isAhead)
    exact ⟨back isAhead, beside.after lawful stays.near stays.cursor stays.cursorOther front expects within⟩
  apply lock_ite heading
  · intro isAhead
    have near := (given (back isAhead)).1.toNear
    simp only [List.any_map, Function.comp_def, near.forest.tokenKind_rename]
  -- A keyword that is in the run already is reported and dropped.
  · intro _
    apply (lock_report heading fun isAhead => ?_).bind heading
    · intro _ t t' grown reported
      refine lock_pure fun isAhead _ => ⟨rfl, ?_⟩
      obtain ⟨isPassed, stays, rigid⟩ := reported isAhead
      obtain ⟨isAhead, beside, position⟩ := taken t t' grown (fun isAhead =>
        ⟨isPassed, stays, lawful.expects rigid _ _⟩) isAhead
      refine ⟨beside, ?_, by omega, fun more => absurd more (Nat.lt_irrefl _)⟩
      exact (given isAhead).2.2.1.later ((later_moved s _).trans grown)
    · obtain ⟨beside, _⟩ := given (back isAhead)
      refine ⟨beside.toNear.moved _ _, fun rigid => ⟨beside.position, rfl, ?_⟩⟩
      rw [word (back isAhead) (lawful.expects rigid _ _)]
      rfl
  -- Another keyword; the run goes on behind its token.
  · intro _
    apply (lock_sign heading length fun isAhead => ?_).bind heading
    · intro token t t' grown made
      have known : ahead t → KnownAll t (keywords ++ [token]) := by
        intro isAhead
        obtain ⟨isPassed, known, _⟩ := made isAhead
        exact ((given (back isPassed)).2.2.1.later ((later_moved s _).trans grown)).snoc known
      have there : ahead t → ahead s ∧ W.Beside t t' ∧ t.cursor.position = s.cursor.position + length :=
        taken t t' grown fun isAhead => ⟨(made isAhead).1, (made isAhead).2.2⟩
      have lock := goesOn token t t' fun isAhead => by
        obtain ⟨isAhead', beside, position⟩ := there isAhead
        have filled := (given isAhead').2.2.2.1
        exact ⟨isAhead', beside, known isAhead, by omega⟩
      rw [List.map_append] at lock
      apply lock.imp
      intro result u u' more isAhead _ taken
      obtain ⟨isAhead, _, position⟩ := there (heading.later more isAhead)
      have filled := (given isAhead).2.2.2.1
      have further := taken.further
      exact ⟨taken.toBeside, taken.known, by omega, fun _ => by omega⟩
    · obtain ⟨beside, front, _, filled, within⟩ := given (back isAhead)
      refine ⟨beside.toNear.moved _ _, front, beside.position, ?_, filled, word (back isAhead)⟩
      rw [beside.text, Text.length_slice]
      omega

theorem lock_keywordRun (passes : Nat) : ∀ {passes' : Nat} {keywords : List Nat} {s s' : ParseState},
    (ahead s → W.Beside s s' ∧ KnownAll s keywords ∧ s.cursor.remaining < passes ∧
      s'.cursor.remaining < passes') →
    W.Locked ahead (List.map W.rename) s s' (keywordRun W.grammar true passes keywords)
      (keywordRun W.grammar true passes' (keywords.map W.rename)) (W.Keywords s keywords) := by
  induction passes with
  | zero =>
      -- With no rounds left the step is not ahead of anything.
      intro passes' keywords s s' given
      have never : ¬ ahead s := fun isAhead => Nat.not_lt_zero _ (given isAhead).2.2.1
      have lock : W.Locked ahead (List.map W.rename) s s' (pure keywords) (pure (keywords.map W.rename))
          (W.Keywords s keywords) := lock_pure fun isAhead _ => absurd isAhead never
      exact lock_other heading lock fun isAhead => absurd isAhead never
  | succ passes ih =>
      intro passes' keywords s s' given
      have filled : ahead s → passes' = passes' - 1 + 1 := by
        intro isAhead
        obtain ⟨_, _, _, enough⟩ := given isAhead
        omega
      apply lock_subst heading filled
      rw [keywordRun_succ, keywordRun_succ]
      apply (lock_skipGap lawful heading fun isAhead => (given isAhead).1).bind heading
      intro _ t t' grown skipped
      rw [lock_position_bind, lock_text_bind]
      have same : ahead t → W.grammar.keywordAt? t'.cursor.text t'.cursor.position =
          W.grammar.keywordAt? t.cursor.text t.cursor.position := by
        intro isAhead
        obtain ⟨_, beside, front, _⟩ := skipped isAhead
        rw [beside.text, beside.other, beside.position, lawful.keyword _ front]
      generalize W.grammar.keywordAt? t'.cursor.text t'.cursor.position = found' at same ⊢
      apply lock_subst heading same
      cases found : W.grammar.keywordAt? t.cursor.text t.cursor.position with
      | none =>
          refine lock_pure fun isAhead _ => ⟨rfl, ?_⟩
          obtain ⟨isAhead, beside, _, further⟩ := skipped isAhead
          exact ⟨beside, (given isAhead).2.1.later grown, further, fun more =>
            absurd more (Nat.lt_irrefl _)⟩
      | some keyword =>
          apply (lock_takeKeyword lawful heading (fun isAhead => ?_) fun token u u' known =>
            ih fun isAhead => ?_).imp
          · intro result u u' more isAhead _ taken
            have further := (skipped (heading.later more isAhead)).2.2.2
            exact ⟨taken.toBeside, taken.known, Nat.le_trans further taken.further, fun more =>
              Nat.lt_of_le_of_lt further (taken.beyond more)⟩
          · obtain ⟨isAhead, beside, front, _⟩ := skipped isAhead
            obtain ⟨filled, within⟩ := Grammar.keywordAt_inside found
            exact ⟨beside, front, (given isAhead).2.1.later grown, filled, beside.text ▸ within⟩
          · obtain ⟨isAhead, beside, knownAll, beyond⟩ := known isAhead
            obtain ⟨isAhead, _, _, further⟩ := skipped isAhead
            obtain ⟨before, _, enough, enough'⟩ := given isAhead
            have fewer := before.fewer lawful beside (by omega)
            exact ⟨beside, knownAll, by omega, by omega⟩

/-! Modifiers -/

theorem lock_attachModifiers {owner : Nat} (modifiers : Modifiers)
    (given : ahead s → W.Near s s' ∧ owner ≠ 0 ∧ KnownModifiers s modifiers) :
    W.Locked ahead id s s' (attachModifiers owner modifiers)
      (attachModifiers (W.rename owner) (W.carryModifiers modifiers)) fun _ t t' => W.Stays s s' t t' := by
  unfold attachModifiers
  apply (lock_forM heading (fun isAhead => (given isAhead).1) fun item member t t' _ there =>
    lock_addPrefix lawful heading fun isAhead => ?_).bind heading
  · intro _ t t' _ attached
    apply (lock_forM heading (fun isAhead => (attached isAhead).2.near) fun item member u u' _ there =>
      lock_addKeyword lawful heading fun isAhead => ?_).imp
    · intro _ u u' more isAhead _ second
      exact (attached (heading.later more isAhead)).2.trans second
    · obtain ⟨isAhead, near⟩ := there isAhead
      obtain ⟨_, known, all⟩ := given (attached isAhead).1
      exact ⟨near, known, (all.keywords item member).1⟩
  · obtain ⟨isAhead, near⟩ := there isAhead
    obtain ⟨_, known, all⟩ := given isAhead
    exact ⟨near, known, (all.prefixes item member).1⟩

omit heading in
/-- Items in a row begin and end at places that correspond. -/
theorem ends_of_items (near : W.Near s s') {items : List Nat} (known : KnownAll s items)
    (filled : items ≠ []) {first last : Nat} (first_ : (items.head?.map s.forest.start).getD 0 = first)
    (last_ : (items.getLast?.map s.forest.stop).getD first = last) {first' last' : Nat}
    (first_' : ((items.map W.rename).head?.map s'.forest.start).getD 0 = first')
    (last_' : ((items.map W.rename).getLast?.map s'.forest.stop).getD first' = last') :
    W.front first ∧ first' = W.move first ∧ (W.rigid → last' - first' = last - first) := by
  obtain ⟨head, isHead⟩ := Option.ne_none_iff_exists'.mp (mt List.head?_eq_none_iff.mp filled)
  obtain ⟨tail, isTail⟩ := Option.ne_none_iff_exists'.mp (mt List.getLast?_eq_none_iff.mp filled)
  obtain ⟨knownHead, insideHead⟩ := known head (List.mem_of_mem_head? isHead)
  obtain ⟨knownTail, insideTail⟩ := known tail (List.mem_of_mem_getLast? isTail)
  obtain ⟨start, front⟩ := near.forest.start_rename knownHead insideHead
  rw [isHead, Option.map_some, Option.getD_some] at first_
  rw [isTail, Option.map_some, Option.getD_some] at last_
  rw [List.head?_map, isHead, Option.map_some, Option.map_some, Option.getD_some, start, first_] at first_'
  rw [List.getLast?_map, isTail, Option.map_some, Option.map_some, Option.getD_some] at last_'
  refine ⟨first_ ▸ front, first_'.symm, fun rigid => ?_⟩
  obtain ⟨distance, moves, _⟩ := lawful.distance rigid
  rw [near.forest.stop_rename moves knownTail insideTail, last_] at last_'
  rw [← last_', ← first_', moves, moves]
  omega

theorem lock_misplaced (modifiers : Modifiers)
    (given : ahead s → W.Near s s' ∧ KnownModifiers s modifiers ∧ modifiers.isEmpty = false) :
    W.Locked ahead W.rename s s' (misplaced modifiers) (misplaced (W.carryModifiers modifiers))
      fun id t t' => Known t id ∧ W.Stays s s' t t' := by
  unfold misplaced
  rw [Locked, lock_forest_bind]
  dsimp only
  have same : (W.carryModifiers modifiers).prefixes ++ (W.carryModifiers modifiers).keywords =
      (modifiers.prefixes ++ modifiers.keywords).map W.rename := (List.map_append ..).symm
  rw [same]
  generalize first_ : ((modifiers.prefixes ++ modifiers.keywords).head?.map s.forest.start).getD 0 = first
  generalize last_ : ((modifiers.prefixes ++ modifiers.keywords).getLast?.map s.forest.stop).getD first = last
  generalize first_' :
    (((modifiers.prefixes ++ modifiers.keywords).map W.rename).head?.map s'.forest.start).getD 0 = first'
  generalize last_' :
    (((modifiers.prefixes ++ modifiers.keywords).map W.rename).getLast?.map s'.forest.stop).getD first' = last'
  have places : ahead s → W.front first ∧ first' = W.move first ∧ (W.rigid → last' - first' = last - first) := by
    intro isAhead
    obtain ⟨near, known, filled⟩ := given isAhead
    have all : KnownAll s (modifiers.prefixes ++ modifiers.keywords) := fun item member =>
      (List.mem_append.mp member).elim (known.prefixes item) (known.keywords item)
    refine ends_of_items lawful near all ?_ first_ last_ first_' last_'
    intro none
    obtain ⟨noPrefixes, noKeywords⟩ := List.append_eq_nil_iff.mp none
    simp [Modifiers.isEmpty, noPrefixes, noKeywords] at filled
  apply (lock_report heading fun isAhead => ?_).bind heading
  · intro _ t t' noted reported
    apply (lock_create heading rfl fun isAhead => ?_).bind heading
    · intro series u u' grown created
      apply (lock_giving heading (fun isAhead => (created isAhead).2.1) ?_).imp
      · rintro id v v' more isAhead _ ⟨known, third⟩
        obtain ⟨isAhead, _, second⟩ := created (heading.later more isAhead)
        exact ⟨known, ((reported isAhead).2.1.trans second).trans third⟩
      · apply lock_attachModifiers lawful heading modifiers
        intro isAhead
        obtain ⟨isAhead, known, second⟩ := created isAhead
        obtain ⟨isAhead, _⟩ := reported isAhead
        exact ⟨second.near, known.1, (given isAhead).2.1.later (noted.trans grown)⟩
    · obtain ⟨isAhead, stays, _⟩ := reported isAhead
      obtain ⟨front, start, _⟩ := places isAhead
      exact ⟨stays.near, front, start, rfl⟩
  · obtain ⟨_, start, length⟩ := places isAhead
    exact ⟨(given isAhead).1, fun rigid => ⟨start, length rigid, rfl⟩⟩

omit heading in
theorem lock_operandFollows (given : ahead s → W.Beside s s') :
    W.Locked ahead id s s' (operandFollows W.grammar) (operandFollows W.grammar)
      fun _ t t' => t = s ∧ t' = s' := by
  refine lock_ok rfl rfl (.refl s) fun isAhead _ => ⟨?_, rfl, rfl⟩
  have beside := given isAhead
  obtain ⟨front, moved⟩ := lawful.gap _ beside.rest
  have place : s.cursor.gapEnd s.cursor.position =
      W.grammar.comments.gapEnd W.text s.cursor.position := by
    rw [Cursor.gapEnd, beside.text, beside.markers]
  have place' : s'.cursor.gapEnd s'.cursor.position =
      W.move (W.grammar.comments.gapEnd W.text s.cursor.position) := by
    rw [Cursor.gapEnd, beside.other, beside.markersOther, beside.position, moved]
  simp only [place, place', beside.text, beside.other, lawful.terminator _ front,
    lawful.blockStart _ front, lawful.operator _ true front, Option.isSome_map, id]

/-- What `modifiers` does behind a gap. -/
def takeModifier (grammar : Grammar) (inner : Inner) (passes : Nat) (pending : Modifiers) :
    Parse (Modifiers × Option ItemId) := do
  if grammar.supportsPrefixes && pending.keywords.isEmpty &&
      Grammar.isOpeningBraceAt (← Parse.text) (← position) then
    let item ← braces inner none
    if ← operandFollows grammar then
      modifiers grammar inner passes { pending with prefixes := pending.prefixes ++ [item] }
    else return (pending, some item)
  else if grammar.supportsKeywords then
    let keywords ← keywordRun grammar true ((← remaining) + 1) pending.keywords
    if pending.keywords.length < keywords.length then
      modifiers grammar inner passes { pending with keywords }
    else return (pending, none)
  else return (pending, none)

omit lawful heading in
theorem modifiers_succ (grammar : Grammar) (inner : Inner) (passes : Nat) (pending : Modifiers) :
    modifiers grammar inner (passes + 1) pending =
      (skipGap >>= fun _ => takeModifier grammar inner passes pending) := rfl

/-- Modifiers have been parsed, and the operand if it is braces without a name. -/
structure Modified (W : Tandem) (s : ParseState) (read : Modifiers × Option ItemId) (t t' : ParseState) :
    Prop extends Beside W t t' where
  known : KnownModifiers t read.1
  further : s.cursor.position ≤ t.cursor.position
  operand : ∀ item, read.2 = some item → Known t item ∧ s.cursor.position < t.cursor.position

def carryModified (W : Tandem) : Modifiers × Option ItemId → Modifiers × Option ItemId :=
  Prod.map W.carryModifiers (Option.map W.rename)

include inside

theorem lock_takeModifier {passes passes' : Nat} {pending : Modifiers}
    (given : ahead s → W.Beside s s' ∧ W.front s.cursor.position ∧ start ≤ s.cursor.position ∧
      KnownModifiers s pending)
    (goesOn : ∀ more t t', (ahead t → ahead s ∧ W.Beside t t' ∧ KnownModifiers t more ∧
        s.cursor.position < t.cursor.position) →
      W.Locked ahead W.carryModified t t' (modifiers W.grammar inner passes more)
        (modifiers W.grammar inner' passes' (W.carryModifiers more)) (W.Modified t)) :
    W.Locked ahead W.carryModified s s' (takeModifier W.grammar inner passes pending)
      (takeModifier W.grammar inner' passes' (W.carryModifiers pending)) (W.Modified s) := by
  have further : ∀ more t t', (ahead t → ahead s ∧ W.Beside t t' ∧ KnownModifiers t more ∧
      s.cursor.position < t.cursor.position) →
      W.Locked ahead W.carryModified t t' (modifiers W.grammar inner passes more)
        (modifiers W.grammar inner' passes' (W.carryModifiers more)) (W.Modified s) := by
    intro more t t' known
    apply (goesOn more t t' known).imp
    intro read u u' grown isAhead _ modified
    obtain ⟨_, _, _, before⟩ := known (heading.later grown isAhead)
    have onward := modified.further
    exact ⟨modified.toBeside, modified.known, by omega, fun item found =>
      ⟨(modified.operand item found).1, by omega⟩⟩
  have done : W.Locked ahead W.carryModified s s' (pure (pending, none))
      (pure (W.carryModifiers pending, none)) (W.Modified s) :=
    lock_pure fun isAhead _ =>
      ⟨rfl, (given isAhead).1, (given isAhead).2.2.2, Nat.le_refl _, fun _ => by rintro ⟨⟩⟩
  unfold takeModifier
  rw [Locked, lock_text_bind, lock_position_bind]
  apply lock_ite heading
  · intro isAhead
    obtain ⟨beside, front, _⟩ := given isAhead
    rw [beside.text, beside.other, beside.position, lawful.opening _ front]
    simp [carryModifiers]
  -- Braces in front: a prefix if an operand follows them.
  · intro _
    apply (lock_braces lawful heading inside fun isAhead => ?_).bind heading
    · intro item t t' grown took
      apply (lock_operandFollows lawful fun isAhead => (took isAhead).2.toBeside).bind_at heading rfl
      intro u' _ same
      have there : ahead t → ahead s ∧ W.Took s item t u' := by
        intro isAhead
        obtain ⟨_, _, rfl⟩ := same isAhead
        exact took isAhead
      apply lock_ite heading fun _ => Iff.rfl
      · intro _
        have lock := further { pending with prefixes := pending.prefixes ++ [item] } t u' fun isAhead => by
            obtain ⟨isAhead, took⟩ := there isAhead
            have known := (given isAhead).2.2.2.later grown
            exact ⟨isAhead, took.toBeside, ⟨known.prefixes.snoc took.known, known.keywords⟩, took.further⟩
        rw [carryModifiers, List.map_append] at lock
        exact lock
      · intro _
        refine lock_pure fun isAhead _ => ⟨rfl, ?_⟩
        obtain ⟨isAhead, took⟩ := there isAhead
        refine ⟨took.toBeside, (given isAhead).2.2.2.later grown, Nat.le_of_lt took.further, ?_⟩
        rintro _ ⟨⟩
        exact ⟨took.known, took.further⟩
    · obtain ⟨beside, front, behind, _⟩ := given isAhead
      exact ⟨beside, front, behind, by rintro _ ⟨⟩⟩
  · intro _
    apply lock_ite heading fun _ => Iff.rfl
    -- A run of keywords; with a new one in it the loop goes on.
    · intro _
      rw [lock_remaining_bind]
      apply (lock_keywordRun lawful heading _ fun isAhead => ?_).bind heading
      · intro keywords t t' grown run
        apply lock_ite heading
        · intro _
          simp [carryModifiers]
        · intro longer
          apply further { pending with keywords }
          intro isAhead
          obtain ⟨isAhead, run⟩ := run isAhead
          have known := (given isAhead).2.2.2.later grown
          exact ⟨isAhead, run.toBeside, ⟨known.prefixes, run.known⟩, run.beyond longer⟩
        · intro _
          refine lock_pure fun isAhead _ => ⟨rfl, ?_⟩
          obtain ⟨isAhead, run⟩ := run isAhead
          exact ⟨run.toBeside, (given isAhead).2.2.2.later grown, run.further, fun _ => by rintro ⟨⟩⟩
      · obtain ⟨beside, _, _, known⟩ := given isAhead
        exact ⟨beside, known.keywords, Nat.lt_succ_self _, Nat.lt_succ_self _⟩
    · exact fun _ => done

theorem lock_modifiers (passes : Nat) : ∀ {passes' : Nat} {pending : Modifiers} {s s' : ParseState},
    (ahead s → W.Beside s s' ∧ start ≤ s.cursor.position ∧ KnownModifiers s pending ∧
      s.cursor.remaining < passes ∧ s'.cursor.remaining < passes') →
    W.Locked ahead W.carryModified s s' (modifiers W.grammar inner passes pending)
      (modifiers W.grammar inner' passes' (W.carryModifiers pending)) (W.Modified s) := by
  induction passes with
  | zero =>
      intro passes' pending s s' given
      have never : ¬ ahead s := fun isAhead => Nat.not_lt_zero _ (given isAhead).2.2.2.1
      have lock : W.Locked ahead W.carryModified s s' (pure (pending, none))
          (pure (W.carryModifiers pending, none)) (W.Modified s) :=
        lock_pure fun isAhead _ => absurd isAhead never
      exact lock_other heading lock fun isAhead => absurd isAhead never
  | succ passes ih =>
      intro passes' pending s s' given
      have filled : ahead s → passes' = passes' - 1 + 1 := by
        intro isAhead
        obtain ⟨_, _, _, _, enough⟩ := given isAhead
        omega
      apply lock_subst heading filled
      rw [modifiers_succ, modifiers_succ]
      apply (lock_skipGap lawful heading fun isAhead => (given isAhead).1).bind heading
      intro _ t t' grown skipped
      apply (lock_takeModifier lawful heading inside (fun isAhead => ?_) fun more u u' known =>
        ih fun isAhead => ?_).imp
      · intro read u u' more isAhead _ modified
        have further := (skipped (heading.later more isAhead)).2.2.2
        exact ⟨modified.toBeside, modified.known, Nat.le_trans further modified.further,
          fun item found => ⟨(modified.operand item found).1,
            Nat.lt_of_le_of_lt further (modified.operand item found).2⟩⟩
      · obtain ⟨isAhead, beside, front, further⟩ := skipped isAhead
        obtain ⟨_, behind, known, _⟩ := given isAhead
        exact ⟨beside, front, Nat.le_trans behind further, known.later grown⟩
      · obtain ⟨isAhead, beside, knownAll, beyond⟩ := known isAhead
        obtain ⟨isAhead, _, _, further⟩ := skipped isAhead
        obtain ⟨before, behind, _, enough, enough'⟩ := given isAhead
        have fewer := before.fewer lawful beside (by omega)
        exact ⟨beside, by omega, knownAll, by omega, by omega⟩

/-! Operands -/

def carryFound (W : Tandem) : Found → Found
  | .operand item => .operand (W.rename item)
  | .operators written => .operators (W.carryMatch written)
  | .stray item => .stray (W.rename item)
  | .prefixed item => .prefixed (W.rename item)
  | .nothing => .nothing

/-- An operator is due if its words are to become tokens. -/
def DueFound (W : Tandem) (found : Found) : Prop :=
  ∀ written, found = .operators written → W.Awaits written

/-- What has been found from `s` on, in a language without extensions. -/
def FoundFrom (W : Tandem) (s : ParseState) (found : Found) (t t' : ParseState) : Prop :=
  match found with
  | .operand item => W.Took s item t t'
  | .operators written => W.Stands written ∧ W.Beside t t' ∧ s.cursor.position < t.cursor.position
  | .nothing => W.Beside t t' ∧ s.cursor.position ≤ t.cursor.position
  | .stray _ | .prefixed _ => False

omit inside lawful heading in
theorem FoundFrom.before {found : Found} {u u' : ParseState} (from_ : W.FoundFrom t found u u')
    (further : s.cursor.position ≤ t.cursor.position) : W.FoundFrom s found u u' := by
  cases found with
  | operand item => exact ⟨from_.toBeside, from_.known, Nat.lt_of_le_of_lt further from_.further⟩
  | operators written => exact ⟨from_.1, from_.2.1, Nat.lt_of_le_of_lt further from_.2.2⟩
  | nothing => exact ⟨from_.1, Nat.le_trans further from_.2⟩
  | stray item => exact from_
  | prefixed item => exact from_

omit inside lawful heading in
theorem FoundFrom.beyond {found : Found} (from_ : W.FoundFrom s found t t') (some : found ≠ .nothing) :
    s.cursor.position < t.cursor.position := by
  cases found with
  | operand item => exact from_.further
  | operators written => exact from_.2.2
  | nothing => exact absurd rfl some
  | stray item => exact from_.elim
  | prefixed item => exact from_.elim

omit inside lawful heading in
theorem isAfterOperand_map (terms : List Term) :
    isAfterOperand (terms.map W.carryTerm) = isAfterOperand terms := by
  unfold isAfterOperand
  rw [List.getLast?_map]
  cases terms.getLast? with
  | none => rfl
  | some term => cases term <;> rfl

omit inside lawful in
/-- An operand has been parsed. -/
theorem lock_asOperand {step step' : Parse ItemId}
    (lock : W.Locked ahead W.rename s s' step step' (W.Took s)) :
    W.Lock ahead W.DueFound W.carryFound s s' (do return .operand (← step))
      (do return .operand (← step')) (W.FoundFrom s) := by
  apply lock.bind heading
  intro item t t' _ took
  exact lock_pure fun isAhead _ => ⟨rfl, (took isAhead).2⟩

omit inside heading in
/-- Behind an operator whose words are to become tokens. -/
theorem stop_of_awaits {written : OperatorMatch} (stands : W.Stands written) (awaits : W.Awaits written) :
    W.rest written.stop ∧ (W.carryMatch written).stop = W.move written.stop := by
  obtain ⟨filled, each⟩ := stands
  obtain ⟨last, isLast⟩ := Option.ne_none_iff_exists'.mp (mt List.getLast?_eq_none_iff.mp filled)
  have member := List.mem_of_getLast? isLast
  obtain ⟨front, within, long⟩ := each last member
  have stop : written.stop = last.1 + last.2.length := by
    rw [OperatorMatch.stop, isLast, Option.map_some, Option.getD_some]
  have stop' : (W.carryMatch written).stop = W.move last.1 + last.2.length := by
    rw [OperatorMatch.stop, carryMatch, List.getLast?_map, isLast, Option.map_some, Option.map_some,
      Option.getD_some, length_word]
  obtain ⟨rest, moved⟩ := lawful.consume _ _ (awaits last member long) front within
  exact ⟨stop ▸ rest, by rw [stop', stop, moved]⟩

omit inside heading in
/-- The cursors go on behind an operator. -/
theorem Beside.behindOperator (beside : W.Beside s s') {written : OperatorMatch} (stands : W.Stands written)
    (awaits : W.Awaits written) (beyond : s.cursor.position < written.stop) :
    W.Beside { s with cursor := s.cursor.moveTo written.stop }
        { s' with cursor := s'.cursor.moveTo (W.carryMatch written).stop } ∧
      s.cursor.position < (s.cursor.moveTo written.stop).position := by
  obtain ⟨rest, stop⟩ := stop_of_awaits lawful stands awaits
  obtain ⟨there, position⟩ := beside.toNear.beside_moveTo lawful rest
  exact ⟨stop ▸ there, position.symm ▸ beyond⟩

/-- What `plainOperand` does where no constant and no number stands. -/
def wordOperand (grammar : Grammar) (inner : Inner) (terms : List Term) (c : Char) (text : Text)
    (place : Nat) : Parse Found := do
  if Grammar.isOpeningBraceAt text place then return .operand (← braces inner none)
  if grammar.isBlockStartAt text place then return .operand (← codeBlock grammar inner)
  match grammar.operatorAt? text place (isAfterOperand terms) with
  | some written =>
      moveTo written.stop
      return .operators written
  | none =>
      match ← literal? grammar inner with
      | some item => return .operand item
      | none => stop place 1 (.invalidSymbol c)

theorem lock_wordOperand {terms : List Term} {c : Char}
    (given : ahead s → W.Beside s s' ∧ W.front s.cursor.position ∧ start ≤ s.cursor.position) :
    W.Lock ahead W.DueFound W.carryFound s s'
      (wordOperand W.grammar inner terms c s.cursor.text s.cursor.position)
      (wordOperand W.grammar inner' (terms.map W.carryTerm) (W.fold c) s'.cursor.text s'.cursor.position)
      (W.FoundFrom s) := by
  unfold wordOperand
  rw [isAfterOperand_map]
  apply lock_ite heading
  · intro isAhead
    obtain ⟨beside, front, _⟩ := given isAhead
    rw [beside.text, beside.other, beside.position, lawful.opening _ front]
  · intro _
    apply lock_asOperand heading
    apply lock_braces lawful heading inside
    intro isAhead
    obtain ⟨beside, front, behind⟩ := given isAhead
    exact ⟨beside, front, behind, nofun⟩
  · intro _
    apply lock_ite heading
    · intro isAhead
      obtain ⟨beside, front, _⟩ := given isAhead
      rw [beside.text, beside.other, beside.position, lawful.blockStart _ front]
    · intro isBlock
      apply lock_asOperand heading
      apply lock_codeBlock lawful heading inside
      intro isAhead
      obtain ⟨beside, front, behind⟩ := given isAhead
      exact ⟨beside, front, behind, isBlock⟩
    · intro _
      have operator_' : ahead s →
          W.grammar.operatorAt? s'.cursor.text s'.cursor.position (isAfterOperand terms) =
            (W.grammar.operatorAt? s.cursor.text s.cursor.position (isAfterOperand terms)).map
              W.carryMatch := by
        intro isAhead
        obtain ⟨beside, front, _⟩ := given isAhead
        rw [beside.text, beside.other, beside.position, lawful.operator _ _ front]
      generalize W.grammar.operatorAt? s'.cursor.text s'.cursor.position (isAfterOperand terms) = operator'
        at operator_' ⊢
      apply lock_subst heading operator_'
      cases operator_ : W.grammar.operatorAt? s.cursor.text s.cursor.position (isAfterOperand terms) with
      | some written =>
          apply lock_moveTo_bind
          refine lock_pure fun isAhead due => ⟨rfl, ?_⟩
          obtain ⟨beside, front, _⟩ := given (heading.later (later_moved s _) isAhead)
          have stands := lawful.stands _ _ _ front (beside.text ▸ operator_) (due written rfl)
          exact ⟨stands.1, beside.behindOperator lawful stands.1 (due written rfl) stands.2⟩
      | none =>
          apply (lock_literal lawful heading inside given).bind heading
          intro found t t' grown literal
          cases found with
          | some item => exact lock_pure fun isAhead _ => ⟨rfl, (literal isAhead).2⟩
          | none =>
              apply lock_stop heading
              intro isAhead
              obtain ⟨isAhead, rfl, rfl⟩ := literal isAhead
              obtain ⟨beside, _⟩ := given isAhead
              exact ⟨beside.toNear, fun _ => ⟨beside.position, rfl, rfl⟩⟩

theorem lock_plainOperand (terms : List Term)
    (given : ahead s → W.Beside s s' ∧ W.front s.cursor.position ∧ start ≤ s.cursor.position) :
    W.Lock ahead W.DueFound W.carryFound s s' (plainOperand W.grammar inner terms)
      (plainOperand W.grammar inner' (terms.map W.carryTerm)) (W.FoundFrom s) := by
  unfold plainOperand
  rw [lock_position_bind, lock_text_bind]
  have nothing : W.Lock ahead W.DueFound W.carryFound s s' (pure .nothing) (pure .nothing)
      (W.FoundFrom s) := lock_pure fun isAhead _ => ⟨rfl, (given isAhead).1, Nat.le_refl _⟩
  apply lock_ite heading
  · intro isAhead
    obtain ⟨beside, front, _⟩ := given isAhead
    rw [beside.text, beside.other, beside.position, lawful.terminator _ front]
  · exact fun _ => nothing
  · intro goesOn
    cases current_ : s.cursor.text[s.cursor.position]? with
    | none => exact absurd (by simp [Grammar.isTerminatorAt, current_]) goesOn
    | some c =>
        have current_' : ahead s → s'.cursor.text[s'.cursor.position]? = some (W.fold c) := by
          intro isAhead
          obtain ⟨beside, front, _⟩ := given isAhead
          exact beside.current_some lawful front current_
        generalize s'.cursor.text[s'.cursor.position]? = current' at current_' ⊢
        apply lock_subst heading current_'
        apply lock_ite heading
        · intro _
          simp only [List.contains_iff_mem]
          constructor
          · intro isQuote
            rwa [(lawful.fold c (W.fold c) (Or.inr (Or.inl isQuote))).mp rfl]
          · intro isQuote
            rwa [(lawful.fold c c (Or.inr (Or.inl isQuote))).mpr rfl]
        · intro isQuote
          have isQuote : c ∈ W.grammar.quotes := List.contains_iff_mem.mp isQuote
          rw [(lawful.fold c c (Or.inr (Or.inl isQuote))).mpr rfl]
          apply lock_asOperand heading
          apply lock_textConstant lawful heading
          intro isAhead
          obtain ⟨beside, front, _⟩ := given isAhead
          exact ⟨beside, front, current_, isQuote⟩
        · intro _
          have number_' : ahead s → W.grammar.numberAt? s'.cursor.text s'.cursor.position =
              W.grammar.numberAt? s.cursor.text s.cursor.position := by
            intro isAhead
            obtain ⟨beside, front, _⟩ := given isAhead
            rw [beside.text, beside.other, beside.position, lawful.number _ front]
          generalize W.grammar.numberAt? s'.cursor.text s'.cursor.position = number' at number_' ⊢
          apply lock_subst heading number_'
          cases number_ : W.grammar.numberAt? s.cursor.text s.cursor.position with
          | some written =>
              apply lock_asOperand heading
              apply lock_number lawful heading
              intro isAhead
              obtain ⟨beside, front, _⟩ := given isAhead
              exact ⟨beside, front, number_⟩
          | none => exact lock_wordOperand lawful heading inside given

def carryDraft (W : Tandem) (draft : Draft) : Draft where
  terms := draft.terms.map W.carryTerm
  pending := W.carryModifiers draft.pending
  lead := W.carryModifiers draft.lead

theorem lock_operand (draft : Draft) (given : ahead s → W.Beside s s' ∧ start ≤ s.cursor.position) :
    W.Lock ahead (fun read => W.DueFound read.1) (Prod.map W.carryFound W.carryModifiers) s s'
      (operand W.grammar inner draft) (operand W.grammar inner' (W.carryDraft draft))
      fun read t t' => read.2 = draft.pending ∧ W.FoundFrom s read.1 t t' := by
  rw [operand_of_plain lawful.plain, operand_of_plain lawful.plain]
  apply (lock_skipGap lawful heading fun isAhead => (given isAhead).1).bind heading
  intro _ t t' _ skipped
  apply (lock_plainOperand lawful heading inside draft.terms fun isAhead => ?_).bind_due heading
    (ends_somehow _ t)
  · exact fun found u _ => ends_pure fun _ due => due
  · intro found u u' grown known
    refine lock_pure fun isAhead _ => ⟨rfl, rfl, ?_⟩
    obtain ⟨isAhead, due⟩ := isAhead
    exact (known isAhead due).2.before (skipped (heading.later grown isAhead)).2.2.2
  · obtain ⟨isAhead, beside, front, further⟩ := skipped isAhead
    exact ⟨beside, front, Nat.le_trans (given isAhead).2 further⟩

end Tandem

end ExprLang
