import ExprLang.Proofs.Stopping
import ExprLang.Proofs.Tandem.Segments

/-!
Whole parses in lockstep. The first parse ends where its text does; the other one is then at the place
that corresponds, and if its text goes on, so does the parse.
-/

namespace ExprLang.Tandem

open Parse
open ParseState (Later)

variable {W : Tandem} {ahead : ParseState → Prop} {s s' : ParseState} {α : Type}

/-- What `rootStatements` does with the symbol behind a statement and the gap that follows it. -/
def behindRootAt (grammar : Grammar) (root start : Nat) (closedByBlock : Bool) (again : Parse Unit)
    (place : Nat) (c : Char) : Parse Unit := do
  if some c = grammar.separator then
    addSeparator root place
    again
  else if closedByBlock then again
  else if grammar.isBlockEndAt (← Parse.text) place then
    unexpected place ((grammar.codeBlock.map (·.stop.length)).getD 1)
    again
  else if isStrayTerminator c then
    unexpected place 1
    again
  else if place = start then stuck place
  else again

def behindRoot (grammar : Grammar) (root start : Nat) (closedByBlock : Bool) (again : Parse Unit) :
    Parse Unit := do
  let place ← position
  match ← current? with
  | none => pure ()
  | some c => behindRootAt grammar root start closedByBlock again place c

theorem behindRoot_run {grammar : Grammar} {root start : Nat} {closedByBlock : Bool}
    {again : Parse Unit} : behindRoot grammar root start closedByBlock again s =
      match s.cursor.text[s.cursor.position]? with
      | none => .ok () s
      | some c => behindRootAt grammar root start closedByBlock again s.cursor.position c s := by
  unfold behindRoot
  rw [bind_run]
  change ((current? >>= fun c? => match c? with
    | none => pure ()
    | some c => behindRootAt grammar root start closedByBlock again s.cursor.position c) : Parse Unit) s = _
  rw [bind_run]
  change (match s.cursor.text[s.cursor.position]? with
    | none => pure ()
    | some c => behindRootAt grammar root start closedByBlock again s.cursor.position c : Parse Unit) s = _
  cases s.cursor.text[s.cursor.position]? <;> rfl

theorem rootStatements_succ (grammar : Grammar) (inner : Inner) (root passes : Nat) :
    rootStatements grammar inner root (passes + 1) = (do
      let start ← position
      let segment ← inner .root
      segment.item.forM (addStatement root)
      skipGap
      behindRoot grammar root start segment.closedByBlock
        (rootStatements grammar inner root passes)) := by
  simp only [rootStatements, afterStatement, behindRoot, behindRootAt, bind_assoc]
  refine bind_congr fun start => bind_congr fun segment => bind_congr fun _ => bind_congr fun _ =>
    bind_congr fun place => bind_congr fun current => ?_
  have stuck_bind : ∀ next : Bool → Parse Unit, (stuck place >>= next) = stuck place := fun _ => rfl
  have ite_bind : ∀ (c : Prop) [Decidable c] (yes no : Parse Bool) (next : Bool → Parse Unit),
      ((if c then yes else no) >>= next) = if c then yes >>= next else no >>= next :=
    fun c _ _ _ _ => apply_ite (· >>= _) c _ _
  cases current with
  | none => simp
  | some c => simp only [ite_bind, bind_assoc, pure_bind, stuck_bind, if_true]

/-! The rules of lockstep for a parse that ends where the other one goes on -/

section Leads

variable (W) (ahead) (inner' : Inner)

/-- The first parse ends its text, and the other one looks at the same place how its own goes on. -/
structure Landed (t t' : ParseState) (passes : Nat) : Prop extends W.Beside t t' where
  front : W.front t.cursor.position
  atEnd : t.cursor.text[t.cursor.position]? = none
  enough : t'.cursor.remaining ≤ passes

def Leads (s s' : ParseState) (step step' : Parse Unit) : Prop :=
  Ends step s
    (fun _ t => Later s t ∧ (ahead t → ∃ t' origin closedByBlock passes, W.Landed t t' passes ∧
      step' s' = behindRoot W.grammar 0 origin closedByBlock
        (rootStatements W.grammar inner' 0 passes) t'))
    (fun _ t => Later s t ∧
      (W.rigid → ahead t → ∃ error t', step' s' = .error error t' ∧ W.Near t t'))

variable {W} {ahead} {inner'} {carry : α → α} {good : α → ParseState → ParseState → Prop}
  {first first' : Parse α} {next next' : α → Parse Unit} {step step' step'' other other' : Parse Unit}
  (heading : W.Heading ahead)

include heading

theorem Lock.leads (lock : W.Locked ahead carry s s' first first' good)
    (rest : ∀ value t t', Later s t → (ahead t → ahead s ∧ good value t t') →
      W.Leads ahead inner' t t' (next value) (next' (carry value))) :
    W.Leads ahead inner' s s' (first >>= next) (first' >>= next') := by
  apply Ends.bind lock
  · rintro value t ⟨grown, reaches⟩
    have known : ∃ t', (ahead t → first' s' = .ok (carry value) t' ∧ ahead s ∧ good value t t') := by
      by_cases isAhead : ahead t
      · obtain ⟨t', run', holds⟩ := reaches isAhead trivial
        exact ⟨t', fun _ => ⟨run', heading.later grown isAhead, holds⟩⟩
      · exact ⟨t, fun holds => absurd holds isAhead⟩
    obtain ⟨t', known⟩ := known
    apply (rest value t t' grown fun isAhead => (known isAhead).2).imp
    · rintro _ u ⟨more, lands⟩
      refine ⟨grown.trans more, fun isAhead => ?_⟩
      rw [bind_run, (known (heading.later more isAhead)).1]
      exact lands isAhead
    · rintro _ u ⟨more, halts⟩
      refine ⟨grown.trans more, fun rigid isAhead => ?_⟩
      rw [bind_run, (known (heading.later more isAhead)).1]
      exact halts rigid isAhead
  · rintro error t ⟨grown, halts⟩
    refine ⟨grown, fun rigid isAhead => ?_⟩
    obtain ⟨error', t', run', near⟩ := halts rigid isAhead
    exact ⟨error', t', by rw [bind_run, run'], near⟩

theorem leads_other (leads : W.Leads ahead inner' s s' step step')
    (same : ahead s → step'' s' = step' s') : W.Leads ahead inner' s s' step step'' := by
  apply Ends.imp leads
  · rintro _ t ⟨grown, lands⟩
    refine ⟨grown, fun isAhead => ?_⟩
    rw [same (heading.later grown isAhead)]
    exact lands isAhead
  · rintro _ t ⟨grown, halts⟩
    refine ⟨grown, fun rigid isAhead => ?_⟩
    rw [same (heading.later grown isAhead)]
    exact halts rigid isAhead

theorem leads_ite {c c' : Prop} [Decidable c] [Decidable c'] (same : ahead s → (c' ↔ c))
    (yes : c → W.Leads ahead inner' s s' step step')
    (no : ¬ c → W.Leads ahead inner' s s' other other') :
    W.Leads ahead inner' s s' (if c then step else other) (if c' then step' else other') := by
  by_cases holds : c
  · rw [if_pos holds]
    exact leads_other heading (yes holds) fun isAhead => by rw [if_pos ((same isAhead).mpr holds)]
  · rw [if_neg holds]
    exact leads_other heading (no holds) fun isAhead => by rw [if_neg (mt (same isAhead).mp holds)]

omit heading in
theorem leads_run (run : step s = other s) (leads : W.Leads ahead inner' s s' other step') :
    W.Leads ahead inner' s s' step step' := by
  unfold Leads Ends at *
  rwa [run]

omit heading in
theorem leads_text_bind {next next' : Text → Parse Unit} :
    W.Leads ahead inner' s s' (Parse.text >>= next) (Parse.text >>= next') =
      W.Leads ahead inner' s s' (next s.cursor.text) (next' s'.cursor.text) := rfl

omit heading in
theorem leads_position_bind {next next' : Nat → Parse Unit} :
    W.Leads ahead inner' s s' (position >>= next) (position >>= next') =
      W.Leads ahead inner' s s' (next s.cursor.position) (next' s'.cursor.position) := rfl

/-- The guards of the parser are never met. -/
theorem leads_stuck {place : Nat} : W.Leads ahead inner' s s' (stuck place) step' := by
  refine ends_error rfl ⟨growing_addFault _ s, fun _ isAhead => ?_⟩
  exact absurd rfl (heading.sane isAhead _ (List.mem_append_right _ (List.mem_singleton_self _)))

end Leads

/-! The statements of the root -/

variable (lawful : W.Lawful) (heading : W.Heading ahead) {inner' : Inner}

include lawful heading

theorem leads_behindRoot {origin origin' : Nat} {closedByBlock : Bool} {again : Parse Unit} {passes : Nat}
    (given : ahead s → W.Beside s s' ∧ W.front s.cursor.position ∧ W.Founded ∧ W.rest origin ∧
      origin' = W.move origin ∧ origin ≤ s.cursor.position ∧
      (closedByBlock = true → origin < s.cursor.position) ∧ s'.cursor.remaining ≤ passes)
    (goesOn : ∀ t t', (ahead t → ahead s ∧ W.Beside t t' ∧ origin < t.cursor.position) →
      W.Leads ahead inner' t t' again (rootStatements W.grammar inner' 0 passes)) :
    W.Leads ahead inner' s s' (behindRoot W.grammar 0 origin closedByBlock again)
      (behindRoot W.grammar 0 origin' closedByBlock (rootStatements W.grammar inner' 0 passes)) := by
  cases current_ : s.cursor.text[s.cursor.position]? with
  | none =>
      -- The run that comes first has ended, and the other one is where it goes on from.
      have run : behindRoot W.grammar 0 origin closedByBlock again s = .ok () s := by
        rw [behindRoot_run, current_]
      refine ends_ok run ⟨.refl s, fun isAhead => ?_⟩
      obtain ⟨beside, front, _, _, _, _, _, enough⟩ := given isAhead
      exact ⟨s', origin', closedByBlock, passes, ⟨beside, front, current_, enough⟩, rfl⟩
  | some c =>
      obtain ⟨inside, _⟩ := Array.getElem?_eq_some_iff.mp current_
      have goesOnHere : ∀ t t', (ahead t → ahead s ∧ W.Beside t t' ∧
            s.cursor.position < t.cursor.position) →
          W.Leads ahead inner' t t' again (rootStatements W.grammar inner' 0 passes) := by
        intro t t' known
        refine goesOn t t' fun isAhead => ?_
        obtain ⟨isAhead, beside, further⟩ := known isAhead
        obtain ⟨_, _, _, _, _, onward, _⟩ := given isAhead
        exact ⟨isAhead, beside, Nat.lt_of_le_of_lt onward further⟩
      have lead : W.Leads ahead inner' s s'
          (behindRootAt W.grammar 0 origin closedByBlock again s.cursor.position c)
          (behindRootAt W.grammar 0 origin' closedByBlock (rootStatements W.grammar inner' 0 passes)
            s'.cursor.position (W.fold c)) := by
        unfold behindRootAt
        apply leads_ite heading fun _ => separator_fold lawful c
        -- A separator.
        · intro _
          apply (lock_addSeparator lawful heading fun isAhead => ?_).leads heading
          · intro _ t t' _ added
            exact goesOnHere t t' fun isAhead => ⟨(added isAhead).1, (added isAhead).2.1,
              (added isAhead).2.2 ▸ Nat.lt_succ_self _⟩
          · obtain ⟨beside, front, founded, _⟩ := given isAhead
            exact ⟨beside, front, rfl, rfl, Or.inr ⟨rfl, founded⟩, beside.text ▸ inside⟩
        · intro _
          apply leads_ite heading fun _ => Iff.rfl
          -- A statement that ends with a block needs no separator.
          · intro closed
            apply goesOn s s'
            intro isAhead
            obtain ⟨beside, _, _, _, _, _, beyond, _⟩ := given isAhead
            exact ⟨isAhead, beside, beyond closed⟩
          · intro _
            rw [leads_text_bind]
            apply leads_ite heading
            · intro isAhead
              obtain ⟨beside, front, _⟩ := given isAhead
              rw [beside.text, beside.other, beside.position, lawful.blockEnd _ front]
            -- The end marker of a block that is not open.
            · intro ends
              apply (lock_unexpected lawful heading fun isAhead => ?_).leads heading
              · intro _ t t' _ skipped
                refine goesOnHere t t' fun isAhead => ⟨(skipped isAhead).1, (skipped isAhead).2.1, ?_⟩
                obtain ⟨markers, found, filled, _⟩ := Grammar.isBlockEndAt_inside ends
                rw [(skipped isAhead).2.2, found]
                exact Nat.lt_add_of_pos_right filled
              · obtain ⟨beside, front, _⟩ := given isAhead
                obtain ⟨markers, found, _, bound⟩ := Grammar.isBlockEndAt_inside ends
                rw [found]
                exact ⟨beside, front, rfl, rfl, beside.text ▸ bound⟩
            · intro _
              apply leads_ite heading fun _ => by rw [stray_fold lawful]
              -- A terminator of something that is not open.
              · intro _
                apply (lock_unexpected lawful heading fun isAhead => ?_).leads heading
                · intro _ t t' _ skipped
                  exact goesOnHere t t' fun isAhead => ⟨(skipped isAhead).1, (skipped isAhead).2.1,
                    (skipped isAhead).2.2 ▸ Nat.lt_succ_self _⟩
                · obtain ⟨beside, front, _⟩ := given isAhead
                  exact ⟨beside, front, rfl, rfl, beside.text ▸ inside⟩
              · intro _
                apply leads_ite heading
                · intro isAhead
                  obtain ⟨beside, _, _, rest, rfl, _⟩ := given isAhead
                  rw [beside.position]
                  exact move_eq_iff lawful beside.rest rest
                -- Nothing has been read since the statement before.
                · exact fun _ => leads_stuck heading
                -- The next statement.
                · intro different
                  apply goesOn s s'
                  intro isAhead
                  obtain ⟨beside, _, _, _, _, onward, _⟩ := given isAhead
                  exact ⟨isAhead, beside, by omega⟩
      apply leads_run (by rw [behindRoot_run, current_])
      apply leads_other heading lead
      intro isAhead
      obtain ⟨beside, front, _⟩ := given isAhead
      rw [behindRoot_run, beside.current_some lawful front current_]

theorem leads_rootStatements {depth depth' : Nat} (count : Nat) :
    ∀ {count' : Nat} {s s' : ParseState},
      (ahead s → W.Beside s s' ∧ W.Founded ∧ s'.cursor.remaining < count' ∧
        s'.cursor.remaining < depth') →
      W.Leads ahead (segment W.grammar depth') s s'
        (rootStatements W.grammar (segment W.grammar depth) 0 count)
        (rootStatements W.grammar (segment W.grammar depth') 0 count') := by
  induction count with
  | zero =>
      intro count' s s' _
      have stops : W.Leads ahead (segment W.grammar depth') s s' (stuck s.cursor.position)
          (rootStatements W.grammar (segment W.grammar depth') 0 count') := leads_stuck heading
      exact leads_run rfl stops
  | succ count ih =>
      intro count' s s' given
      have filled : ahead s → rootStatements W.grammar (segment W.grammar depth') 0 count' s' =
          rootStatements W.grammar (segment W.grammar depth') 0 (count' - 1 + 1) s' := by
        intro isAhead
        obtain ⟨_, _, enough, _⟩ := given isAhead
        rw [Nat.sub_add_cancel (by omega)]
      apply leads_other heading ?_ filled
      rw [rootStatements_succ, rootStatements_succ, leads_position_bind]
      apply (lock_segment lawful heading depth fun isAhead =>
        ⟨(given isAhead).1, (given isAhead).2.2.2⟩).leads heading
      intro segment t t' _ parsed
      apply (lock_option_forM (fun isAhead => (parsed isAhead).2.toNear) fun item found =>
        @lock_addStatement W ahead t t' lawful heading 0 item fun isAhead => ?_).leads heading
      · intro _ u u' _ added
        apply (lock_skipGap lawful heading fun isAhead => ?_).leads heading
        · intro _ v v' _ skipped
          have there : ahead v → ahead s ∧ W.Beside v v' ∧ W.front v.cursor.position ∧
              s.cursor.position ≤ v.cursor.position ∧
              (segment.closedByBlock = true → s.cursor.position < v.cursor.position) := by
            intro isAhead
            obtain ⟨isAhead, beside, front, onward⟩ := skipped isAhead
            obtain ⟨isAhead, stays⟩ := added isAhead
            obtain ⟨isAhead, parsed⟩ := parsed isAhead
            rw [stays.cursor] at onward
            exact ⟨isAhead, beside, front, Nat.le_trans parsed.further onward,
              fun closed => Nat.lt_of_lt_of_le (parsed.beyond closed) onward⟩
          apply leads_behindRoot lawful heading (fun isAhead => ?_) fun w w' known => ih fun isAhead => ?_
          · obtain ⟨isAhead, beside, front, onward, beyond⟩ := there isAhead
            obtain ⟨before, founded, enough, _⟩ := given isAhead
            refine ⟨beside, front, founded, before.rest, before.position, onward, beyond, ?_⟩
            have := before.closer lawful beside onward
            omega
          · obtain ⟨isAhead, beside, beyond⟩ := known isAhead
            obtain ⟨isAhead, _⟩ := there isAhead
            obtain ⟨before, founded, enough, room⟩ := given isAhead
            have fewer := before.fewer lawful beside beyond
            exact ⟨beside, founded, by omega, by omega⟩
        · obtain ⟨isAhead, stays⟩ := added isAhead
          exact (parsed isAhead).2.toBeside.of_stays stays
      · obtain ⟨isAhead, parsed⟩ := parsed isAhead
        exact ⟨parsed.toNear, Or.inr ⟨rfl, (given isAhead).2.1⟩, (parsed.known item found).1⟩

/-! Whole parses -/

omit heading

omit lawful in
/-- The states that come before a final one are on the way to it. -/
theorem heading_before {t : ParseState} (sane : ∀ fault ∈ t.faults, fault.code ≠ .parserImplementation)
    (clean : ¬ W.rigid → t.faults = [])
    (awaited : ∀ {id item}, t.forest.get? id = some item → item.isToken = true → 0 < item.length →
      W.expects item.start item.length) : W.Heading (Later · t) where
  later grown known := grown.trans known
  sane known fault member := sane fault (known.faults.subset member)
  clean known loose := List.prefix_nil.mp (clean loose ▸ known.faults)
  awaited known id item found isToken filled := by
    obtain ⟨last, foundLast, start, length, isTokenLast⟩ := known.items id item found
    exact start ▸ length ▸ awaited foundLast (isTokenLast.trans isToken) (length.symm ▸ filled)

theorem leads_whole {count depth : Nat} (heading : W.Heading ahead) (founded : W.Founded)
    (beside : W.Beside (W.grammar.initialState W.text) s')
    (room : s'.cursor.remaining < count ∧ s'.cursor.remaining < depth) :
    W.Leads ahead (segment W.grammar depth) (W.grammar.initialState W.text) s'
      (W.grammar.rootLoop W.text.size)
      (rootStatements W.grammar (segment W.grammar depth) 0 count) :=
  leads_rootStatements lawful heading _ fun _ => ⟨beside, founded, room.1, room.2⟩

section Whole

variable {count depth : Nat} (founded : W.Founded)
  (sane : ∀ fault ∈ (W.grammar.finalState W.text).faults, fault.code ≠ .parserImplementation)
  (beside : W.Beside (W.grammar.initialState W.text) s')
  (room : s'.cursor.remaining < count ∧ s'.cursor.remaining < depth)

include founded sane beside room

/-- Where every place is moved by the same distance the other parse ends like the first. -/
theorem Lawful.rigid_run (rigid : W.rigid) : ∃ t', W.Near (W.grammar.finalState W.text) t' ∧
    (rootStatements W.grammar (segment W.grammar depth) 0 count s' = .ok () t' ∨
      ∃ error, rootStatements W.grammar (segment W.grammar depth) 0 count s' = .error error t') := by
  have heading : W.Heading (Later · (W.grammar.finalState W.text)) :=
    heading_before sane (fun loose => absurd rigid loose) fun _ _ _ => lawful.expects rigid _ _
  have leads := leads_whole lawful heading founded beside room
  cases run : W.grammar.rootLoop W.text.size (W.grammar.initialState W.text) with
  | ok _ t =>
      obtain ⟨_, lands⟩ := leads.of_ok run
      obtain ⟨t', _, _, _, landed, run'⟩ := lands (W.grammar.finalState_of_ok run ▸ .refl t)
      refine ⟨t', W.grammar.finalState_of_ok run ▸ landed.toNear, Or.inl ?_⟩
      rw [run', behindRoot_run, landed.toBeside.current_none lawful landed.front rigid landed.atEnd]
  | error stopped t =>
      obtain ⟨_, halts⟩ := leads.of_error run
      obtain ⟨error, t', run', near⟩ := halts rigid (W.grammar.finalState_of_error run ▸ .refl t)
      exact ⟨t', W.grammar.finalState_of_error run ▸ near, Or.inr ⟨error, run'⟩⟩

/-- Where the first parse has no fault the other one comes as far. -/
theorem Lawful.clean_run (clean : (W.grammar.finalState W.text).faults = [])
    (awaited : ∀ {id item}, (W.grammar.finalState W.text).forest.get? id = some item →
      item.isToken = true → 0 < item.length → W.expects item.start item.length) :
    ∃ t' origin closedByBlock passes, W.Landed (W.grammar.finalState W.text) t' passes ∧
      rootStatements W.grammar (segment W.grammar depth) 0 count s' =
        behindRoot W.grammar 0 origin closedByBlock
          (rootStatements W.grammar (segment W.grammar depth) 0 passes) t' := by
  have heading : W.Heading (Later · (W.grammar.finalState W.text)) :=
    heading_before sane (fun _ => clean) awaited
  have leads := leads_whole lawful heading founded beside room
  cases run : W.grammar.rootLoop W.text.size (W.grammar.initialState W.text) with
  | ok _ t =>
      obtain ⟨_, lands⟩ := leads.of_ok run
      have final := W.grammar.finalState_of_ok run
      exact final ▸ lands (final ▸ .refl t)
  | error stopped t =>
      have critical := (Grammar.hasCritical_iff_stopsEarly W.text).mpr ⟨stopped, t, run⟩
      rw [clean] at critical
      cases critical

end Whole

end ExprLang.Tandem
