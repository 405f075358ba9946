import ExprLang.Proofs.Parse.Degrading
import ExprLang.Proofs.Tandem.Mirror

/-!
Two parses in lockstep. From states that lie beside one another a step of the first parse and the same
step of the other one lead to states that lie beside one another again. What the texts must have in
common for that is said once, place by place; the rules below follow the way steps are put together.

What the result of the first parse tells is known before the result is there: `ahead` holds of the
states on the way to it. Everything that is said of two states is said for the case that the first of
them is ahead. So a rule can also be read for no state at all, and then it says that a step only adds
to what is written.
-/

namespace ExprLang

open ParseState (Later)

namespace Tandem

variable (W : Tandem)

/-! Images -/

def carryCause : Fault.Cause → Fault.Cause
  | .invalidSymbol symbol => .invalidSymbol (W.fold symbol)
  | .unexpectedSymbol symbol => .unexpectedSymbol (W.word symbol)
  | .operandMissing operator => .operandMissing (W.word operator)
  | .multipleOccurrencesOfKeyword keyword => .multipleOccurrencesOfKeyword (W.word keyword)
  | cause => cause

def carryFault (fault : Fault) : Fault :=
  { fault with start := W.move fault.start, cause := W.carryCause fault.cause }

/-- Where places move by different distances no faults are compared. -/
def FaultAlike (fault other : Fault) : Prop := W.rigid → other = W.carryFault fault

def carryMatch (written : OperatorMatch) : OperatorMatch :=
  { written with parts := written.parts.map fun part => (W.move part.1, W.word part.2) }

/-- The words of the operator stand at places behind gaps. -/
def Stands (written : OperatorMatch) : Prop :=
  written.parts ≠ [] ∧ ∀ part ∈ written.parts,
    W.front part.1 ∧ part.1 + part.2.length ≤ W.text.size ∧ 0 < part.2.length

/-- The words of the operator are to become tokens. -/
def Awaits (written : OperatorMatch) : Prop :=
  ∀ part ∈ written.parts, 0 < part.2.length → W.expects part.1 part.2.length

/-! The texts -/

/-- What is behind an opening quote. -/
def constantAt (grammar : Grammar) (quote : Char) (text : Text) (place : Nat) : Constant :=
  Constant.decode grammar.textEscape quote (text.rest (place + 1))

/-- At places that correspond the same can be read in both texts. -/
structure Lawful : Prop where
  plain : W.grammar.extensions = []
  named : W.grammar.Named
  rest_of_front : ∀ p, W.front p → W.rest p
  inside : ∀ p, W.rest p → p ≤ W.text.size ∧ W.move p ≤ W.other.size
  ascends : ∀ p q, W.rest p → W.rest q → p < q → W.move p < W.move q
  distance : W.rigid → ∃ distance, (∀ p, W.move p = p + distance) ∧
    W.other.size = W.text.size + distance
  expects : W.rigid → ∀ p length, W.expects p length
  consume : ∀ p length, W.expects p length → W.front p → p + length ≤ W.text.size →
    W.rest (p + length) ∧ W.move (p + length) = W.move p + length
  slice : ∀ p length, W.expects p length → W.front p → p + length ≤ W.text.size →
    W.other.slice (W.move p) (W.move p + length) = W.word (W.text.slice p (p + length))
  gap : ∀ p, W.rest p → W.front (W.grammar.comments.gapEnd W.text p) ∧
    W.grammar.comments.gapEnd W.other (W.move p) = W.move (W.grammar.comments.gapEnd W.text p)
  unclosed : ∀ c d : Cursor, c.text = W.text → d.text = W.other → c.markers = W.grammar.comments →
    d.markers = W.grammar.comments → W.rest c.position → d.position = W.move c.position →
    (W.rigid ∨ c.skipGap.2 = none) → d.skipGap.2 = c.skipGap.2.map W.move
  char : ∀ p, W.front p → W.other[W.move p]? = W.text[p]?.map W.fold ∨
    ¬ W.rigid ∧ W.text[p]? = none ∧ ∃ c, W.other[W.move p]? = some c ∧ some c = W.grammar.separator
  blank : W.fold ' ' = ' '
  fold : ∀ c d, (d ∈ [',', '(', ')', '[', ']'] ∨ d ∈ W.grammar.quotes ∨ some d = W.grammar.separator) →
    (W.fold c = d ↔ c = d)
  opening : ∀ p, W.front p →
    Grammar.isOpeningBraceAt W.other (W.move p) = Grammar.isOpeningBraceAt W.text p
  terminator : ∀ p, W.front p →
    W.grammar.isTerminatorAt W.other (W.move p) = W.grammar.isTerminatorAt W.text p
  blockStart : ∀ p, W.front p →
    W.grammar.isBlockStartAt W.other (W.move p) = W.grammar.isBlockStartAt W.text p
  blockEnd : ∀ p, W.front p →
    W.grammar.isBlockEndAt W.other (W.move p) = W.grammar.isBlockEndAt W.text p
  keyword : ∀ p, W.front p →
    W.grammar.keywordAt? W.other (W.move p) = W.grammar.keywordAt? W.text p
  operator : ∀ p afterOperand, W.front p →
    W.grammar.operatorAt? W.other (W.move p) afterOperand =
      (W.grammar.operatorAt? W.text p afterOperand).map W.carryMatch
  stands : ∀ p afterOperand written, W.front p →
    W.grammar.operatorAt? W.text p afterOperand = some written → W.Awaits written →
      W.Stands written ∧ p < written.stop
  number : ∀ p, W.front p → W.grammar.numberAt? W.other (W.move p) = W.grammar.numberAt? W.text p
  digits : ∀ p written, W.grammar.numberAt? W.text p = some written →
    p + written.length ≤ W.text.size
  name : ∀ p, W.front p →
    W.grammar.nameEnd W.other (W.move p) = W.move p + (W.grammar.nameEnd W.text p - p)
  constant : ∀ p quote, W.front p → W.text[p]? = some quote → quote ∈ W.grammar.quotes →
    W.expects p (1 + (constantAt W.grammar quote W.text p).length) →
    (W.rigid ∨ (constantAt W.grammar quote W.text p).closed = true) →
    ∃ decoded, constantAt W.grammar quote W.other (W.move p) =
        { constantAt W.grammar quote W.text p with text := decoded } ∧
      W.decoded (String.ofList (constantAt W.grammar quote W.text p).text) (String.ofList decoded)

/-! States -/

/-- What is known of the states on the way to the result. -/
structure Heading (ahead : ParseState → Prop) : Prop where
  later : ∀ {s t}, Later s t → ahead t → ahead s
  sane : ∀ {t}, ahead t → ∀ fault ∈ t.faults, fault.code ≠ .parserImplementation
  clean : ∀ {t}, ahead t → ¬ W.rigid → t.faults = []
  awaited : ∀ {t}, ahead t → ∀ {id item}, t.forest.get? id = some item → item.isToken = true →
    0 < item.length → W.expects item.start item.length

/-- All but the places of the cursors and the comments. -/
structure Near (s s' : ParseState) : Prop where
  text : s.cursor.text = W.text
  other : s'.cursor.text = W.other
  markers : s.cursor.markers = W.grammar.comments
  markersOther : s'.cursor.markers = W.grammar.comments
  forest : W.Mirror s.forest s'.forest
  faults : List.Forall₂ W.FaultAlike s.faults s'.faults

structure Beside (s s' : ParseState) : Prop extends Near W s s' where
  rest : W.rest s.cursor.position
  position : s'.cursor.position = W.move s.cursor.position

/-- The cursors have not moved. -/
structure Stays (s s' t t' : ParseState) : Prop where
  near : W.Near t t'
  cursor : t.cursor = s.cursor
  cursorOther : t'.cursor = s'.cursor

/-- An item that is not the root. -/
def Known (s : ParseState) (id : Nat) : Prop := id ≠ 0 ∧ id < s.forest.size

/-! Steps -/

variable (ahead : ParseState → Prop) {α β : Type}

/-- A step only adds to what is written. Where the first parse goes on with a result that is `due`, the
other one goes on with the image of the result; where the first stops, the other one stops. -/
def Lock (due : α → Prop) (carry : α → α) (s s' : ParseState) (step step' : Parse α)
    (good : α → ParseState → ParseState → Prop) : Prop :=
  Ends step s
    (fun value t => Later s t ∧
      (ahead t → due value → ∃ t', step' s' = .ok (carry value) t' ∧ good value t t'))
    (fun _ t => Later s t ∧
      (W.rigid → ahead t → ∃ error t', step' s' = .error error t' ∧ W.Near t t'))

/-- Nothing is asked of the result. -/
abbrev Locked (carry : α → α) (s s' : ParseState) (step step' : Parse α)
    (good : α → ParseState → ParseState → Prop) : Prop :=
  W.Lock ahead (fun _ => True) carry s s' step step' good

variable {W ahead} {due : α → Prop} {owed : β → Prop} {carry : α → α} {carryNext : β → β}
  {s s' t t' u u' : ParseState} {step step' : Parse α} {next next' : α → Parse β}
  {good better : α → ParseState → ParseState → Prop} {fine : β → ParseState → ParseState → Prop}

theorem Heading.given (heading : W.Heading ahead) (fact : Prop) :
    W.Heading fun t => ahead t ∧ fact where
  later grown known := ⟨heading.later grown known.1, known.2⟩
  sane known := heading.sane known.1
  clean known := heading.clean known.1
  awaited known := heading.awaited known.1

theorem Stays.trans (first : W.Stays s s' t t') (second : W.Stays t t' u u') : W.Stays s s' u u' :=
  ⟨second.near, second.cursor.trans first.cursor, second.cursorOther.trans first.cursorOther⟩

theorem Near.stays (near : W.Near s s') : W.Stays s s' s s' := ⟨near, rfl, rfl⟩

theorem Beside.of_stays (beside : W.Beside s s') (stays : W.Stays s s' t t') : W.Beside t t' where
  toNear := stays.near
  rest := stays.cursor ▸ beside.rest
  position := by rw [stays.cursor, stays.cursorOther]; exact beside.position

theorem Known.later {id : Nat} (known : Known s id) (grown : Later s t) : Known t id := by
  obtain ⟨item, found⟩ := Forest.get_of_lt known.2
  obtain ⟨_, there, _⟩ := grown.items id item found
  exact ⟨known.1, Forest.get_lt_size there⟩

/-! Rules -/

theorem ends_somehow (step : Parse α) (s : ParseState) :
    Ends step s (fun _ _ => True) fun _ _ => True := by
  unfold Ends
  split <;> trivial

theorem lock_ok {value value' : α} (run : step s = .ok value t) (run' : step' s' = .ok value' t')
    (grown : Later s t) (holds : ahead t → due value → value' = carry value ∧ good value t t') :
    W.Lock ahead due carry s s' step step' good := by
  refine ends_ok run ⟨grown, fun isAhead isDue => ?_⟩
  obtain ⟨rfl, good⟩ := holds isAhead isDue
  exact ⟨t', run', good⟩

theorem lock_pure {value value' : α}
    (holds : ahead s → due value → value' = carry value ∧ good value s s') :
    W.Lock ahead due carry s s' (pure value) (pure value') good := lock_ok rfl rfl (.refl s) holds

theorem Lock.imp (lock : W.Lock ahead due carry s s' step step' good)
    (stronger : ∀ value t t', Later s t → ahead t → due value → good value t t' → better value t t') :
    W.Lock ahead due carry s s' step step' better := by
  apply Ends.imp lock
  · rintro value t ⟨grown, reaches⟩
    refine ⟨grown, fun isAhead isDue => ?_⟩
    obtain ⟨t', run', holds⟩ := reaches isAhead isDue
    exact ⟨t', run', stronger value t t' grown isAhead isDue holds⟩
  · exact fun _ _ stopped => stopped

/-- Steps that come to other steps at later states. -/
theorem Lock.before {after after' : Parse α} (lock : W.Lock ahead due carry t t' after after' good)
    (grown : Later s t) (run : step s = after t) (run' : step' s' = after' t') :
    W.Lock ahead due carry s s' step step' good := by
  unfold Lock Ends at *
  rw [run, run']
  split
  · rename_i value u reached
    rw [reached] at lock
    exact ⟨grown.trans lock.1, lock.2⟩
  · rename_i error u reached
    rw [reached] at lock
    exact ⟨grown.trans lock.1, lock.2⟩

/-- Whatever the result owes may be taken for granted from the start. -/
theorem lock_given (fact : Prop) (lock : W.Lock (fun t => ahead t ∧ fact) due carry s s' step step' good)
    (gives : Ends step s (fun value t => ahead t → due value → fact)
      fun _ t => W.rigid → ahead t → fact) : W.Lock ahead due carry s s' step step' good := by
  apply (Ends.and lock gives).imp
  · rintro value t ⟨⟨grown, reaches⟩, holds⟩
    exact ⟨grown, fun isAhead isDue => reaches ⟨isAhead, holds isAhead isDue⟩ isDue⟩
  · rintro _ t ⟨⟨grown, reaches⟩, holds⟩
    exact ⟨grown, fun rigid isAhead => reaches rigid ⟨isAhead, holds rigid isAhead⟩⟩

variable (heading : W.Heading ahead)

include heading

/-- Only the run of the first parse decides which states are ahead. -/
theorem lock_other {step'' : Parse α} (lock : W.Lock ahead due carry s s' step step' good)
    (same : ahead s → step'' s' = step' s') : W.Lock ahead due carry s s' step step'' good := by
  apply Ends.imp lock
  · rintro value t ⟨grown, reaches⟩
    refine ⟨grown, fun isAhead isDue => ?_⟩
    rw [same (heading.later grown isAhead)]
    exact reaches isAhead isDue
  · rintro _ t ⟨grown, reaches⟩
    refine ⟨grown, fun rigid isAhead => ?_⟩
    rw [same (heading.later grown isAhead)]
    exact reaches rigid isAhead

/-- What the second step owes for its result may make the result of the first one due. -/
theorem Lock.bind_due {known : α → Prop} (first : W.Lock ahead due carry s s' step step' good)
    (surely : Ends step s (fun value _ => known value) fun _ _ => True)
    (pays : ∀ value t, known value → Ends (next value) t
      (fun result u => ahead u → owed result → due value) fun _ u => W.rigid → ahead u → due value)
    (rest : ∀ value t t', Later s t → (ahead t → due value → ahead s ∧ good value t t') →
      W.Lock (fun u => ahead u ∧ due value) owed carryNext t t' (next value) (next' (carry value)) fine) :
    W.Lock ahead owed carryNext s s' (step >>= next) (step' >>= next') fine := by
  apply Ends.bind (Ends.and first surely)
  · rintro value t ⟨⟨grown, reaches⟩, sure⟩
    have known : ∃ t', (ahead t → due value →
        step' s' = .ok (carry value) t' ∧ ahead s ∧ good value t t') := by
      by_cases there : ahead t ∧ due value
      · obtain ⟨t', run', holds⟩ := reaches there.1 there.2
        exact ⟨t', fun isAhead _ => ⟨run', heading.later grown isAhead, holds⟩⟩
      · exact ⟨t, fun isAhead isDue => absurd ⟨isAhead, isDue⟩ there⟩
    obtain ⟨t', known⟩ := known
    apply (Ends.and (rest value t t' grown fun isAhead isDue => (known isAhead isDue).2)
      (pays value t sure)).imp
    · rintro result u ⟨⟨more, goesOn⟩, pay⟩
      refine ⟨grown.trans more, fun isAhead isOwed => ?_⟩
      have isDue := pay isAhead isOwed
      obtain ⟨run', _⟩ := known (heading.later more isAhead) isDue
      rw [bind_run, run']
      exact goesOn ⟨isAhead, isDue⟩ isOwed
    · rintro _ u ⟨⟨more, halts⟩, pay⟩
      refine ⟨grown.trans more, fun rigid isAhead => ?_⟩
      have isDue := pay rigid isAhead
      obtain ⟨run', _⟩ := known (heading.later more isAhead) isDue
      rw [bind_run, run']
      exact halts rigid ⟨isAhead, isDue⟩
  · rintro error t ⟨⟨grown, halts⟩, _⟩
    refine ⟨grown, fun rigid isAhead => ?_⟩
    obtain ⟨error', t', run', near⟩ := halts rigid isAhead
    exact ⟨error', t', by rw [bind_run, run'], near⟩

theorem Lock.bind (first : W.Locked ahead carry s s' step step' good)
    (rest : ∀ value t t', Later s t → (ahead t → ahead s ∧ good value t t') →
      W.Lock ahead owed carryNext t t' (next value) (next' (carry value)) fine) :
    W.Lock ahead owed carryNext s s' (step >>= next) (step' >>= next') fine := by
  refine first.bind_due heading (ends_somehow _ s) (fun value t _ => ?_) fun value t t' grown known => ?_
  · exact (ends_somehow _ t).imp (fun _ _ _ _ _ => trivial) fun _ _ _ _ _ => trivial
  · have lock := rest value t t' grown fun isAhead => known isAhead trivial
    simpa only [and_true] using lock

/-- The same for a step that always runs in one way. -/
theorem Lock.bind_at {value : α} (first : W.Locked ahead carry s s' step step' good)
    (run : step s = .ok value t)
    (rest : ∀ t', Later s t → (ahead t → ahead s ∧ good value t t') →
      W.Lock ahead owed carryNext t t' (next value) (next' (carry value)) fine) :
    W.Lock ahead owed carryNext s s' (step >>= next) (step' >>= next') fine := by
  obtain ⟨grown, reaches⟩ := first.of_ok run
  have known : ∃ t', (ahead t →
      step' s' = .ok (carry value) t' ∧ ahead s ∧ good value t t') := by
    by_cases there : ahead t
    · obtain ⟨t', run', holds⟩ := reaches there trivial
      exact ⟨t', fun isAhead => ⟨run', heading.later grown isAhead, holds⟩⟩
    · exact ⟨t, fun isAhead => absurd isAhead there⟩
  obtain ⟨t', known⟩ := known
  have lock := rest t' grown fun isAhead => (known isAhead).2
  unfold Lock Ends at lock ⊢
  rw [bind_run, run]
  dsimp only at lock ⊢
  split
  · rename_i result u second
    rw [second] at lock
    refine ⟨grown.trans lock.1, fun isAhead isOwed => ?_⟩
    rw [bind_run, (known (heading.later lock.1 isAhead)).1]
    exact lock.2 isAhead isOwed
  · rename_i error u second
    rw [second] at lock
    refine ⟨grown.trans lock.1, fun rigid isAhead => ?_⟩
    rw [bind_run, (known (heading.later lock.1 isAhead)).1]
    exact lock.2 rigid isAhead

omit heading in
theorem lock_map {f f' : α → β} (first : W.Locked ahead carry s s' step step' fun value t t' =>
      owed (f value) → f' (carry value) = carryNext (f value) ∧ fine (f value) t t') :
    W.Lock ahead owed carryNext s s' (f <$> step) (f' <$> step') fine := by
  rw [map_eq_pure_bind, map_eq_pure_bind]
  apply Ends.bind first
  · rintro value t ⟨grown, reaches⟩
    refine ends_pure ⟨grown, fun isAhead isOwed => ?_⟩
    obtain ⟨t', run', holds⟩ := reaches isAhead trivial
    obtain ⟨image, fine⟩ := holds isOwed
    exact ⟨t', by rw [bind_run, run', ← image]; rfl, fine⟩
  · rintro error t ⟨grown, halts⟩
    refine ⟨grown, fun rigid isAhead => ?_⟩
    obtain ⟨error', t', run', near⟩ := halts rigid isAhead
    exact ⟨error', t', by rw [bind_run, run'], near⟩

theorem lock_subst {γ : Type} {x y : γ} {body : γ → Parse α} (same : ahead s → x = y)
    (lock : W.Lock ahead due carry s s' step (body y) good) :
    W.Lock ahead due carry s s' step (body x) good :=
  lock_other heading lock fun isAhead => by rw [same isAhead]

/-- Both parses take the same branch. -/
theorem lock_ite {c c' : Prop} [Decidable c] [Decidable c'] {other other' : Parse α}
    (same : ahead s → (c' ↔ c)) (yes : c → W.Lock ahead due carry s s' step step' good)
    (no : ¬ c → W.Lock ahead due carry s s' other other' good) :
    W.Lock ahead due carry s s' (if c then step else other) (if c' then step' else other') good := by
  by_cases holds : c
  · rw [if_pos holds]
    exact lock_other heading (yes holds) fun isAhead => by rw [if_pos ((same isAhead).mpr holds)]
  · rw [if_neg holds]
    exact lock_other heading (no holds) fun isAhead => by rw [if_neg (mt (same isAhead).mp holds)]

/-! Steps that read the state -/

section Reading

omit heading

theorem lock_position_bind {next next' : Nat → Parse β} :
    W.Lock ahead owed carryNext s s' (Parse.position >>= next) (Parse.position >>= next') fine =
      W.Lock ahead owed carryNext s s' (next s.cursor.position) (next' s'.cursor.position) fine := rfl

theorem lock_text_bind {next next' : Text → Parse β} :
    W.Lock ahead owed carryNext s s' (Parse.text >>= next) (Parse.text >>= next') fine =
      W.Lock ahead owed carryNext s s' (next s.cursor.text) (next' s'.cursor.text) fine := rfl

theorem lock_current_bind {next next' : Option Char → Parse β} :
    W.Lock ahead owed carryNext s s' (Parse.current? >>= next) (Parse.current? >>= next') fine =
      W.Lock ahead owed carryNext s s' (next s.cursor.text[s.cursor.position]?)
        (next' s'.cursor.text[s'.cursor.position]?) fine := rfl

theorem lock_slice_bind {start stop start' stop' : Nat} {next next' : String → Parse β} :
    W.Lock ahead owed carryNext s s' (Parse.slice start stop >>= next)
        (Parse.slice start' stop' >>= next') fine =
      W.Lock ahead owed carryNext s s' (next (s.cursor.text.slice start stop))
        (next' (s'.cursor.text.slice start' stop')) fine := rfl

theorem lock_forest_bind {next next' : Forest → Parse β} :
    W.Lock ahead owed carryNext s s' (Parse.forest >>= next) (Parse.forest >>= next') fine =
      W.Lock ahead owed carryNext s s' (next s.forest) (next' s'.forest) fine := rfl

theorem lock_remaining_bind {next next' : Nat → Parse β} :
    W.Lock ahead owed carryNext s s' (Parse.remaining >>= next) (Parse.remaining >>= next') fine =
      W.Lock ahead owed carryNext s s' (next s.cursor.remaining) (next' s'.cursor.remaining) fine := rfl

theorem lock_get_bind {next next' : ParseState → Parse β} :
    W.Lock ahead owed carryNext s s' (get >>= next) (get >>= next') fine =
      W.Lock ahead owed carryNext s s' (next s) (next' s') fine := rfl

end Reading

end Tandem

end ExprLang
