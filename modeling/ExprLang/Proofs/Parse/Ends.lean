import ExprLang.Parse.Document

/-!
Reasoning about the steps of a parse. From a given state a step either gives a value or stops, and
`Ends` says what holds at both ends. The rules follow the way steps are put together; a step that
only reads the state is replaced by what it reads.
-/

namespace ExprLang

variable {ε α β : Type}

/-- What holds where a step from `s` ends, with a value or without one. -/
def Ends (step : EStateM ε ParseState α) (s : ParseState) (ok : α → ParseState → Prop)
    (stopped : ε → ParseState → Prop) : Prop :=
  match step s with
  | .ok value t => ok value t
  | .error error t => stopped error t

variable {s : ParseState} {ok : α → ParseState → Prop} {stopped : ε → ParseState → Prop}

instance {step : EStateM ε ParseState α} [∀ value t, Decidable (ok value t)]
    [∀ error t, Decidable (stopped error t)] : Decidable (Ends step s ok stopped) := by
  unfold Ends
  exact match step s with
    | .ok value t => inferInstanceAs (Decidable (ok value t))
    | .error error t => inferInstanceAs (Decidable (stopped error t))

theorem ends_ok {step : EStateM ε ParseState α} {value : α} {t : ParseState}
    (run : step s = .ok value t) (holds : ok value t) : Ends step s ok stopped := by
  rw [Ends, run]
  exact holds

theorem ends_error {step : EStateM ε ParseState α} {error : ε} {t : ParseState}
    (run : step s = .error error t) (holds : stopped error t) : Ends step s ok stopped := by
  rw [Ends, run]
  exact holds

theorem Ends.of_ok {step : EStateM ε ParseState α} {value : α} {t : ParseState}
    (ends : Ends step s ok stopped) (run : step s = .ok value t) : ok value t := by
  rwa [Ends, run] at ends

theorem Ends.of_error {step : EStateM ε ParseState α} {error : ε} {t : ParseState}
    (ends : Ends step s ok stopped) (run : step s = .error error t) : stopped error t := by
  rwa [Ends, run] at ends

theorem Ends.imp {step : EStateM ε ParseState α} {ok' : α → ParseState → Prop}
    {stopped' : ε → ParseState → Prop} (ends : Ends step s ok stopped)
    (onOk : ∀ value t, ok value t → ok' value t)
    (onStop : ∀ error t, stopped error t → stopped' error t) : Ends step s ok' stopped' := by
  unfold Ends at *
  cases run : step s with
  | ok value t => exact onOk value t (by rwa [run] at ends)
  | error error t => exact onStop error t (by rwa [run] at ends)

/-- What has been shown in two ways holds together. -/
theorem Ends.and {step : EStateM ε ParseState α} {ok' : α → ParseState → Prop}
    {stopped' : ε → ParseState → Prop} (left : Ends step s ok stopped)
    (right : Ends step s ok' stopped') :
    Ends step s (fun value t => ok value t ∧ ok' value t)
      (fun error t => stopped error t ∧ stopped' error t) := by
  unfold Ends at *
  cases run : step s with
  | ok value t => exact ⟨by rwa [run] at left, by rwa [run] at right⟩
  | error error t => exact ⟨by rwa [run] at left, by rwa [run] at right⟩

/-- A step that never stops gives a value. -/
theorem Ends.exists_ok {step : EStateM ε ParseState α} (ends : Ends step s ok fun _ _ => False) :
    ∃ value t, step s = .ok value t ∧ ok value t := by
  unfold Ends at ends
  cases run : step s with
  | ok value t => exact ⟨value, t, rfl, by rwa [run] at ends⟩
  | error error t =>
      rw [run] at ends
      exact ends.elim

theorem Ends.all {ι : Type} {step : EStateM ε ParseState α} {ok : ι → α → ParseState → Prop}
    (each : ∀ i, Ends step s (ok i) fun _ _ => True) :
    Ends step s (fun value t => ∀ i, ok i value t) fun _ _ => True := by
  unfold Ends at *
  cases run : step s with
  | ok value t => exact fun i => by simpa only [run] using each i
  | error error t => trivial

theorem ends_pure {value : α} (holds : ok value s) :
    Ends (pure value : EStateM ε ParseState α) s ok stopped := holds

theorem ends_throw {error : ε} (holds : stopped error s) :
    Ends (throw error : EStateM ε ParseState α) s ok stopped := holds

section Sequence

variable {ok : β → ParseState → Prop}

theorem bind_run (step : EStateM ε ParseState α) (next : α → EStateM ε ParseState β) :
    (step >>= next) s = match step s with
      | .ok value t => next value t
      | .error error t => .error error t := by
  cases run : step s <;> simp only [bind, EStateM.bind, run]

theorem ends_bind {step : EStateM ε ParseState α} {next : α → EStateM ε ParseState β}
    (first : Ends step s (fun value t => Ends (next value) t ok stopped) stopped) :
    Ends (step >>= next) s ok stopped := by
  unfold Ends at *
  rw [bind_run]
  cases run : step s with
  | ok value t => simpa only [run] using first
  | error error t => simpa only [run] using first

/-- What follows a step can be shown for each of its possible ends. -/
theorem Ends.bind {step : EStateM ε ParseState α} {next : α → EStateM ε ParseState β}
    {mid : α → ParseState → Prop} {halted : ε → ParseState → Prop}
    (first : Ends step s mid halted)
    (rest : ∀ value t, mid value t → Ends (next value) t ok stopped)
    (halts : ∀ error t, halted error t → stopped error t) :
    Ends (step >>= next) s ok stopped :=
  ends_bind (first.imp rest halts)

/-! Steps that read the state. The laws are no definitional equations, so that a step that has been
replaced is not unfolded again. -/

variable {next : ParseState → EStateM ε ParseState β}

@[simp]
theorem ends_get_bind :
    Ends ((get : EStateM ε ParseState ParseState) >>= next) s ok stopped =
      Ends (next s) s ok stopped := propext Iff.rfl

@[simp]
theorem ends_modify_bind {change : ParseState → ParseState} {next : Unit → EStateM ε ParseState β} :
    Ends ((modify change : EStateM ε ParseState Unit) >>= next) s ok stopped =
      Ends (next ()) (change s) ok stopped := propext Iff.rfl

end Sequence

@[simp]
theorem ends_modify {change : ParseState → ParseState} {ok : Unit → ParseState → Prop} :
    Ends (modify change : EStateM ε ParseState Unit) s ok stopped = ok () (change s) := propext Iff.rfl

namespace Parse

variable {stopped : Stopped → ParseState → Prop} {ok : β → ParseState → Prop}

@[simp]
theorem ends_text_bind {next : Text → Parse β} :
    Ends (text >>= next) s ok stopped = Ends (next s.cursor.text) s ok stopped := propext Iff.rfl

@[simp]
theorem ends_position_bind {next : Nat → Parse β} :
    Ends (position >>= next) s ok stopped = Ends (next s.cursor.position) s ok stopped := propext Iff.rfl

@[simp]
theorem ends_current_bind {next : Option Char → Parse β} :
    Ends (current? >>= next) s ok stopped =
      Ends (next s.cursor.text[s.cursor.position]?) s ok stopped := propext Iff.rfl

@[simp]
theorem ends_slice_bind {start stop : Nat} {next : String → Parse β} :
    Ends (slice start stop >>= next) s ok stopped =
      Ends (next (s.cursor.text.slice start stop)) s ok stopped := propext Iff.rfl

theorem forest_bind_run {next : Forest → Parse β} : (forest >>= next) s = next s.forest s := rfl

@[simp]
theorem ends_forest_bind {next : Forest → Parse β} :
    Ends (forest >>= next) s ok stopped = Ends (next s.forest) s ok stopped := propext Iff.rfl

@[simp]
theorem ends_size_bind {next : Nat → Parse β} :
    Ends (size >>= next) s ok stopped = Ends (next s.forest.size) s ok stopped := propext Iff.rfl

@[simp]
theorem ends_remaining_bind {next : Nat → Parse β} :
    Ends (remaining >>= next) s ok stopped = Ends (next s.cursor.remaining) s ok stopped := propext Iff.rfl

@[simp]
theorem ends_criticalCount_bind {next : Nat → Parse β} :
    Ends (criticalCount >>= next) s ok stopped =
      Ends (next s.faults.criticalCount) s ok stopped := propext Iff.rfl

@[simp]
theorem ends_createToken_bind {kind : TokenKind} {word : String} {start : Nat}
    {next : ItemId → Parse β} :
    Ends (createToken kind word start >>= next) s ok stopped =
      Ends (next s.forest.size) { s with forest := (s.forest.createToken kind word start).2 } ok
        stopped := propext Iff.rfl

@[simp]
theorem ends_create_bind {kind : ItemKind} {start : Nat} {next : ItemId → Parse β} :
    Ends (create kind start >>= next) s ok stopped =
      Ends (next s.forest.size) { s with forest := (s.forest.create kind start).2 } ok stopped := by
  unfold Forest.create Forest.push
  exact propext Iff.rfl

/-- Skipping a gap moves the cursor and may report a comment. -/
theorem ends_skipGap : Ends skipGap s (fun _ t => t.forest = s.forest ∧ t.cursor = s.cursor.skipGap.1)
    (fun _ _ => False) := by
  unfold skipGap
  simp only [ends_get_bind]
  cases s.cursor.skipGap with
  | mk cursor unclosed =>
      refine ends_bind (ends_ok (t := { s with cursor }) rfl ?_)
      cases unclosed with
      | none => exact ends_pure ⟨rfl, rfl⟩
      | some start =>
          dsimp only
          split
          · exact ends_pure ⟨rfl, rfl⟩
          · exact ends_ok rfl ⟨rfl, rfl⟩

/-- A script ends with an outcome, however it is left. -/
theorem ends_runScript {script : Script (List CustomPart)}
    {finished : List CustomPart → ParseState → Prop} {left : ScriptExit → ParseState → Prop}
    (ends : Ends script s finished left) :
    Ends (runScript script) s
      (fun outcome t => match outcome with
        | .finished parts => finished parts t
        | .declined => left .declined t
        | .failed error => left (.failed error) t) (fun _ _ => False) := by
  unfold Ends runScript at *
  cases run : script s with
  | ok parts t => rwa [run] at ends
  | error exit t =>
      rw [run] at ends
      cases exit <;> exact ends

end Parse

end ExprLang
