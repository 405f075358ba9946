import ExprLang.Proofs.Parse.Ledger

/-!
Operands, enclosed lists and operator trees keep their accounts. Braces and code blocks owe their end
while they are open; where the end does not come the construct stays as it is, and the fault that is
reported settles the debt.
-/

namespace ExprLang

variable {s t u : ParseState}

/-- Neither items nor faults have come. -/
structure Still (s t : ParseState) : Prop where
  marks : t.forest.marks = s.forest.marks
  faults : t.faults = s.faults

theorem Still.trans (left : Still s t) (right : Still t u) : Still s u :=
  ⟨right.marks.trans left.marks, right.faults.trans left.faults⟩

theorem Still.settles (still : Still s t) : Settles [] s t :=
  settles_of_same still.marks still.faults

/-- The construct lacks something as long as it is open. -/
def Opened (flaw : Flaw) (item : Nat) (s : ParseState) : Prop :=
  s.forest.marks[item]? = some (.lacks flaw)

/-- Marks and faults of what has been added to `s`, where `item` is a construct that was open. In the
end it is closed, or it lacks its end and that is accounted for. -/
def Closes (flaw : Flaw) (item : Nat) (s t : ParseState) : Prop :=
  ∃ mark marks faults, t.forest.marks = s.forest.marks.set item mark ++ marks ∧
    t.faults = s.faults ++ faults ∧ (mark = .whole ∨ mark = .lacks flaw) ∧ Fair (mark :: marks) faults

variable {flaw : Flaw} {item : Nat}

theorem Opened.inside (opened : Opened flaw item s) : item < s.forest.marks.length :=
  (List.getElem?_eq_some_iff.mp opened).1

theorem Opened.stays {debts : List Mark} (opened : Opened flaw item s) (settles : Settles debts s t) :
    Opened flaw item t := by
  obtain ⟨_, _, grown, _, _⟩ := settles
  rw [Opened, grown, List.getElem?_append_left opened.inside]
  exact opened

theorem Opened.set_same (opened : Opened flaw item s) :
    s.forest.marks.set item (.lacks flaw) = s.forest.marks := by
  refine List.ext_getElem? fun other => ?_
  rw [List.getElem?_set]
  split
  · rename_i same
    rw [if_pos opened.inside, ← same]
    exact opened.symm
  · rfl

/-- What is owed is settled, and the construct gets its last mark. -/
theorem Settles.closes (closed : Bool) (opened : Opened flaw item s)
    (settles : Settles (if closed then [] else [.lacks flaw]) s t)
    (marks : u.forest.marks = t.forest.marks.set item (if closed then .whole else .lacks flaw))
    (faults : u.faults = t.faults) : Closes flaw item s u := by
  obtain ⟨later, added, grown, sameFaults, fair⟩ := settles
  rw [grown, List.set_append_left _ _ opened.inside] at marks
  refine ⟨_, later, added, marks, faults.trans sameFaults, ?_, ?_⟩
  · cases closed
    · exact Or.inr rfl
    · exact Or.inl rfl
  · cases closed
    · exact fair
    · exact Fair.whole.append fair

namespace Closes

theorem after (settles : Settles [] s t) (opened : Opened flaw item s)
    (closes : Closes flaw item t u) : Closes flaw item s u := by
  obtain ⟨marks, faults, sameMarks, sameFaults, fair⟩ := settles
  obtain ⟨mark, newMarks, newFaults, sameNew, sameNewFaults, either, fairNew⟩ := closes
  refine ⟨mark, marks ++ newMarks, faults ++ newFaults, ?_, ?_, either, ?_⟩
  · rw [sameNew, sameMarks, List.set_append_left _ _ opened.inside, List.append_assoc]
  · rw [sameNewFaults, sameFaults, List.append_assoc]
  · exact (fair.append fairNew).perm List.perm_middle

/-- The construct itself, which was made behind its opening token. -/
theorem settles {mark : Mark} (marks : t.forest.marks = s.forest.marks ++ [.token, mark])
    (faults : t.faults = s.faults) (closes : Closes flaw (s.forest.size + 1) t u) :
    u.forest.Takes (s.forest.size + 1) ∧ Settles [] s u := by
  obtain ⟨last, later, added, sameMarks, sameFaults, either, fair⟩ := closes
  have grown : u.forest.marks = s.forest.marks ++ (.token :: last :: later) := by
    rw [sameMarks, marks, List.set_append_right _ _ (by simp)]
    simp
  refine ⟨⟨last, ?_, ?_⟩, .token :: last :: later, added, grown, by rw [sameFaults, faults], ?_⟩
  · rw [grown, ← Forest.length_marks, List.getElem?_append_right (Nat.le_succ _)]
    simp
  · rcases either with rfl | rfl <;> exact ⟨nofun, nofun⟩
  · exact Fair.token.append fair

end Closes

namespace Parse

variable {grammar : Grammar} {inner : Inner} {α : Type} {P : α → ParseState → Prop}

/-! Single steps -/

theorem accounted_position : Accounted (fun _ _ => True) position :=
  accounted_quiet fun s => ⟨_, s, rfl, rfl, rfl⟩

theorem accounted_text : Accounted (fun _ _ => True) text :=
  accounted_quiet fun s => ⟨_, s, rfl, rfl, rfl⟩

theorem accounted_current : Accounted (fun _ _ => True) current? :=
  accounted_quiet fun s => ⟨_, s, rfl, rfl, rfl⟩

theorem accounted_slice {start stop : Nat} : Accounted (fun _ _ => True) (slice start stop) :=
  accounted_quiet fun s => ⟨_, s, rfl, rfl, rfl⟩

theorem accounted_forest : Accounted (fun _ _ => True) forest :=
  accounted_quiet fun s => ⟨_, s, rfl, rfl, rfl⟩

theorem accounted_remaining : Accounted (fun _ _ => True) remaining :=
  accounted_quiet fun s => ⟨_, s, rfl, rfl, rfl⟩

theorem accounted_get : Accounted (fun _ _ => True) (get : Parse ParseState) :=
  accounted_quiet fun s => ⟨_, s, rfl, rfl, rfl⟩

theorem accounted_moveTo {place : Nat} : Accounted (fun _ _ => True) (moveTo place) :=
  accounted_quiet fun _ => ⟨_, _, rfl, rfl, rfl⟩

theorem accounted_skip {count : Nat} : Accounted (fun _ _ => True) (skip count) :=
  accounted_quiet fun _ => ⟨_, _, rfl, rfl, rfl⟩

theorem accounted_stop {start length : Nat} {cause : Fault.Cause} :
    Accounted P (stop start length cause) := fun _ => trivial

theorem accounted_stuck {place : Nat} : Accounted P (stuck place) := accounted_stop

/-- Out of passes. -/
theorem accounted_stuckHere : Accounted P (do stuck (← position)) :=
  accounted_bind accounted_position fun _ => accounted_stuck

theorem accounted_report {start length : Nat} {cause : Fault.Cause} (neutral : cause.code.Neutral) :
    Accounted (fun _ _ => True) (report start length cause) := fun _ =>
  ⟨trivial, [], [_], (List.append_nil _).symm, rfl, Fair.fault neutral⟩

theorem accounted_skipGap : Accounted (fun _ _ => True) skipGap := by
  intro s
  unfold skipGap
  simp only [ends_get_bind]
  cases gap : s.cursor.skipGap with
  | mk cursor unclosed =>
      refine ends_bind (ends_ok (t := { s with cursor }) rfl ?_)
      cases unclosed with
      | none => exact ends_pure ⟨trivial, settles_of_same rfl rfl⟩
      | some start =>
          dsimp only
          split
          · exact ends_pure ⟨trivial, settles_of_same rfl rfl⟩
          · have neutral : Fault.Code.commentNotClosed.Neutral := ⟨rfl, fun flaw => by cases flaw <;> nofun⟩
            exact ⟨trivial, [], [_], (List.append_nil _).symm, rfl, Fair.fault neutral⟩

theorem accounted_createToken {kind : TokenKind} {text : String} {start : Nat} :
    Accounted (fun _ _ => True) (createToken kind text start) := fun s =>
  ⟨trivial, [.token], [], Forest.marks_createToken s.forest kind text start, by simp,
    Fair.sound (by simp)⟩

/-- An item to which nothing can be missing. -/
theorem accounted_create {kind : ItemKind} {start : Nat} (whole : kind.mark = .whole) :
    Accounted (fun id t => t.forest.Takes id) (create kind start) := by
  intro s
  have grown := Forest.marks_create s.forest kind start
  rw [whole] at grown
  refine ends_ok rfl ⟨Forest.takes_new grown nofun nofun, [.whole], [], grown, by simp, ?_⟩
  exact Fair.sound (by simp)

theorem still_changeKind {item : Nat} {change : ItemKind → ItemKind}
    (same : ∀ kind, (change kind).mark = kind.mark) :
    Ends (changeKind item change) s (fun _ t => Still s t) (fun _ _ => True) :=
  ⟨Forest.marks_changeKind same, rfl⟩

theorem still_attach {owner item : Nat} {place : Section} {isChild : Bool} :
    Ends (attach (·.attach owner item place isChild)) s (fun _ t => Still s t) (fun _ _ => True) := by
  unfold attach attachOr
  simp only [ends_forest_bind]
  cases attached : s.forest.attach owner item place isChild with
  | error error => exact trivial
  | ok next =>
      obtain ⟨rfl, _, _⟩ := Forest.attach_ok attached
      exact ends_ok rfl ⟨Forest.marks_link _ _ _ _ _, rfl⟩

theorem still_forM {β : Type} {items : List β} {step : β → Parse Unit}
    (each : ∀ item s, Ends (step item) s (fun _ t => Still s t) (fun _ _ => True)) :
    Ends (items.forM step) s (fun _ t => Still s t) (fun _ _ => True) := by
  induction items generalizing s with
  | nil => exact ends_pure ⟨rfl, rfl⟩
  | cons item rest ih =>
      refine (each item s).bind ?_ fun _ _ stopped => stopped
      exact fun _ t still => ih.imp (fun _ _ later => still.trans later) fun _ _ stopped => stopped

/-- Whatever keeps still keeps its accounts. -/
theorem accounted_still {step : Parse α}
    (still : ∀ s, Ends step s (fun _ t => Still s t) (fun _ _ => True)) :
    Accounted (fun _ _ => True) step := fun s =>
  (still s).imp (fun _ _ same => ⟨trivial, same.settles⟩) fun _ _ stopped => stopped

theorem accounted_attach {owner item : Nat} {place : Section} {isChild : Bool} :
    Accounted (fun _ _ => True) (attach (·.attach owner item place isChild)) :=
  accounted_still fun _ => still_attach

theorem accounted_addChild {owner item : Nat} : Accounted (fun _ _ => True) (addChild owner item) :=
  accounted_attach

theorem accounted_addRegular {owner item : Nat} : Accounted (fun _ _ => True) (addRegular owner item) :=
  accounted_attach

/-- A step that gives an item, and a last one that does not touch it. -/
theorem accounted_keep {step : Parse ItemId} {next : ItemId → Parse Unit}
    (first : Accounted (fun id t => t.forest.Takes id) step)
    (rest : ∀ id, Accounted (fun _ _ => True) (next id)) :
    Accounted (fun id t => t.forest.Takes id) (do
      let id ← step
      next id
      return id) := fun s =>
  ends_settled (first s) fun id t takes _ =>
    ends_settled (rest id t) fun _ _ _ settles => ends_pure ⟨settles.takes takes, settles_of_same rfl rfl⟩

/-! Operands -/

/-- A leaf and its token. -/
theorem ends_createLeaf_marks {kind : ItemKind} {token : TokenKind} {word : String} {start : Nat} :
    Ends (createLeaf kind token word start) s
      (fun id t => id = s.forest.size ∧ t.forest.marks = s.forest.marks ++ [kind.mark, .token] ∧
        t.faults = s.faults) (fun _ _ => True) := by
  simp only [createLeaf, ends_create_bind, ends_createToken_bind]
  refine still_attach.bind ?_ fun _ _ stopped => stopped
  rintro _ t still
  refine ends_pure ⟨rfl, ?_, still.faults⟩
  rw [still.marks]
  simp

theorem accounted_textConstant (grammar : Grammar) (quote : Char) :
    Accounted (fun id t => t.forest.Takes id) (textConstant grammar quote) := by
  intro s
  simp only [textConstant, ends_position_bind, ends_text_bind, ends_slice_bind]
  refine ends_createLeaf_marks.bind ?_ fun _ _ stopped => stopped
  rintro id t ⟨rfl, marks, faults⟩
  cases closed : (Constant.decode grammar.textEscape quote
      (s.cursor.text.rest (s.cursor.position + 1))).closed with
  | true =>
      simp only [closed, Bool.not_true, Bool.false_eq_true, if_false, moveTo, ends_modify_bind] at marks ⊢
      refine ends_pure ⟨Forest.takes_new marks nofun nofun, _, [], marks, by simp [faults], ?_⟩
      exact Fair.sound (by simp [ItemKind.mark])
  | false =>
      simp only [closed, Bool.not_false, if_true, report, addFault, moveTo, ends_modify_bind] at marks ⊢
      refine ends_pure ⟨Forest.takes_new marks nofun nofun, _, [_], marks, by rw [faults], ?_⟩
      exact (Fair.flawed .quote rfl).append Fair.token

theorem accounted_leaf {kind : ItemKind} {token : TokenKind} {word : String} {start : Nat}
    (whole : kind.mark = .whole) :
    Accounted (fun id t => t.forest.Takes id) (createLeaf kind token word start) := by
  intro s
  refine ends_createLeaf_marks.imp ?_ fun _ _ stopped => stopped
  rintro id t ⟨rfl, marks, faults⟩
  rw [whole] at marks
  exact ⟨Forest.takes_new marks nofun nofun, _, [], marks, by simp [faults], Fair.sound (by simp)⟩

theorem accounted_number (written : NumericMatch) :
    Accounted (fun id t => t.forest.Takes id) (number written) := by
  refine accounted_bind accounted_position fun start => ?_
  refine accounted_bind accounted_slice fun value => ?_
  exact accounted_keep (accounted_leaf rfl) fun _ => accounted_skip

theorem accounted_name (grammar : Grammar) :
    Accounted (fun found t => ∀ id ∈ found, t.forest.Takes id) (name? grammar) := by
  refine accounted_bind accounted_position fun start => ?_
  refine accounted_bind accounted_text fun text => ?_
  dsimp only
  split
  · exact accounted_pure fun _ => nofun
  · refine accounted_bind accounted_slice fun name s => ?_
    refine ends_settled (accounted_leaf rfl s) fun id t takes _ => ?_
    refine ends_settled (accounted_moveTo t) fun _ u _ settles => ?_
    refine ends_pure ⟨?_, settles_of_same rfl rfl⟩
    rintro _ ⟨⟩
    exact settles.takes takes

/-! Enclosed lists -/

theorem accounted_addStatement {owner item : Nat} :
    Accounted (fun _ _ => True) (addStatement owner item) := by
  refine accounted_bind accounted_addChild fun _ => accounted_still fun _ => still_changeKind ?_
  rintro (_ | _ | _ | _ | _ | ⟨_, _ | _, _⟩ | _ | _ | _ | _ | _) <;> rfl

theorem accounted_addSeparator {owner place : Nat} :
    Accounted (fun _ _ => True) (addSeparator owner place) := by
  refine accounted_bind accounted_slice fun _ => ?_
  refine accounted_bind accounted_createToken fun _ => ?_
  refine accounted_bind accounted_addRegular fun _ => ?_
  refine accounted_bind (accounted_still fun _ => still_changeKind ?_) fun _ => accounted_skip
  rintro (_ | _ | _ | _ | _ | _ | _ | _ | _ | _ | _) <;> rfl

theorem accounted_unexpected {place length : Nat} :
    Accounted (fun _ _ => True) (unexpected place length) := by
  refine accounted_bind accounted_slice fun _ => ?_
  exact accounted_bind (accounted_report ⟨rfl, fun flaw => by cases flaw <;> nofun⟩) fun _ => accounted_skip

theorem accounted_afterStatement {root start : Nat} {closedByBlock : Bool} :
    Accounted (fun _ _ => True) (afterStatement grammar root start closedByBlock) := by
  have again : ∀ {more : Bool}, Accounted (fun _ _ => True) (pure more : Parse Bool) :=
    accounted_pure fun _ => trivial
  refine accounted_bind accounted_skipGap fun _ => ?_
  refine accounted_bind accounted_position fun place => ?_
  refine accounted_bind accounted_current fun next => ?_
  split
  · exact again
  · split
    · exact accounted_bind accounted_addSeparator fun _ => again
    · split
      · exact again
      · refine accounted_bind accounted_text fun text => ?_
        split
        · exact accounted_bind accounted_unexpected fun _ => again
        · split
          · exact accounted_bind accounted_unexpected fun _ => again
          · split
            · exact accounted_stuck
            · exact again

theorem mark_noteBlockEnd (stop : ItemId) {kind : ItemKind} (opened : kind.mark = .lacks .blockEnd) :
    (noteBlockEnd stop kind).mark = .whole := by
  rcases kind with _ | _ | _ | ⟨_, _, _, _ | _⟩ | ⟨_, _, _, _ | _, _⟩ | ⟨_, _ | _, _⟩ | _ | _ | _ | _ | _ <;>
    first | rfl | cases opened

/-- While a construct is open everything else keeps its accounts. -/
theorem ends_closes {α β : Type} {P : α → ParseState → Prop} {Q : β → ParseState → Prop} {flaw : Flaw}
    {item : Nat} {step : Parse α} {next : α → Parse β} (opened : Opened flaw item s)
    (first : Accounted P step)
    (rest : ∀ value t, Opened flaw item t →
      Ends (next value) t (fun result u => Q result u ∧ Closes flaw item t u) (fun _ _ => True)) :
    Ends (step >>= next) s (fun result u => Q result u ∧ Closes flaw item s u) (fun _ _ => True) := by
  refine (first s).bind ?_ fun _ _ stopped => stopped
  rintro value t ⟨_, settles⟩
  refine (rest value t (opened.stays settles)).imp ?_ fun _ _ stopped => stopped
  rintro result u ⟨good, closes⟩
  exact ⟨good, closes.after settles opened⟩

/-- A construct is made open, behind its opening token, and then parsed to its end. -/
theorem ends_construct (flaw : Flaw) {step : Parse ItemId}
    (marks : t.forest.marks = s.forest.marks ++ [.token, .lacks flaw]) (faults : t.faults = s.faults)
    (closes : Opened flaw (s.forest.size + 1) t → Ends step t
      (fun id u => id = s.forest.size + 1 ∧ Closes flaw (s.forest.size + 1) t u) (fun _ _ => True)) :
    Ends step t (fun id u => u.forest.Takes id ∧ Settles [] s u) (fun _ _ => True) := by
  have opened : Opened flaw (s.forest.size + 1) t := by
    rw [Opened, marks, ← Forest.length_marks, List.getElem?_append_right (Nat.le_succ _)]
    simp
  refine (closes opened).imp ?_ fun _ _ stopped => stopped
  rintro _ u ⟨rfl, closed⟩
  exact closed.settles marks faults

/-- The steps inside a construct keep their accounts. -/
def InnerAccounted (inner : Inner) : Prop := ∀ context, Accounted (fun _ _ => True) (inner context)

section Enclosed

variable (inside : InnerAccounted inner)

include inside

/-- Without a closing brace the open one is accounted for. -/
theorem ends_parameters_settled (item : ItemId) (kind : BraceKind) (passes : Nat) :
    ∀ before seenComma s, Ends (parameters inner item kind passes before seenComma) s
      (fun read t => True ∧ Settles (if read.2.isSome then [] else [.lacks .brace]) s t)
      (fun _ _ => True) := by
  induction passes with
  | zero => exact fun _ _ _ => trivial
  | succ passes ih =>
      intro before seenComma s
      have missing : ∀ {place : Nat} {last : List (Option ItemId)} (t : ParseState),
          Ends (do report place 0 (.closingBraceMissing kind.closing); return (last, none)) t
            (fun read u => True ∧
              Settles (if (read : List (Option ItemId) × Option ItemId).2.isSome then []
                else [.lacks .brace]) t u) (fun _ _ => True) := fun t =>
        ⟨trivial, [], [_], (List.append_nil _).symm, rfl, Fair.flawed .brace rfl⟩
      unfold parameters
      refine ends_settled (inside .braces s) fun segment t _ _ => ?_
      refine ends_settled (accounted_optionForM (fun _ => accounted_addChild) t) fun _ t _ _ => ?_
      refine ends_settled (accounted_skipGap t) fun _ t _ _ => ?_
      refine ends_settled (accounted_position t) fun place t _ _ => ?_
      refine ends_settled (accounted_current t) fun next t _ _ => ?_
      split
      · split
        · refine ends_settled (accounted_createToken t) fun _ t _ _ => ?_
          refine ends_settled (accounted_addRegular t) fun _ t _ _ => ?_
          exact ends_settled (accounted_skip t) fun _ t _ _ => ih _ _ t
        · split
          · refine ends_settled (accounted_createToken t) fun _ t _ _ => ?_
            refine ends_settled (accounted_addRegular t) fun _ t _ _ => ?_
            refine ends_settled (accounted_skip t) fun _ t _ _ => ?_
            exact ends_pure ⟨trivial, settles_of_same rfl rfl⟩
          · exact missing t
      · exact missing t

theorem accounted_braces (name : Option ItemId) :
    Accounted (fun id t => t.forest.Takes id) (braces inner name) := by
  intro s
  unfold braces
  simp only [ends_position_bind, ends_current_bind]
  split
  · exact trivial
  · rename_i kind _
    simp only [ends_createToken_bind, ends_create_bind]
    have second : (s.forest.createToken (.openingBrace kind) (String.singleton kind.opening)
        s.cursor.position).2.size = s.forest.size + 1 := Forest.size_push _
    rw [second]
    refine ends_construct .brace ?_ rfl fun opened => ?_
    · simp [ItemKind.mark]
    refine ends_closes opened (accounted_optionForM fun _ => accounted_addChild) fun _ t opened => ?_
    refine ends_closes opened accounted_addRegular fun _ t opened => ?_
    refine ends_closes opened accounted_skip fun _ t opened => ?_
    refine ends_closes opened accounted_remaining fun _ t opened => ?_
    refine (ends_parameters_settled inside _ _ _ _ _ t).bind ?_ fun _ _ stopped => stopped
    rintro ⟨parameters, closing⟩ u ⟨_, settles⟩
    refine ends_ok rfl ⟨rfl, settles.closes closing.isSome opened ?_ rfl⟩
    refine (Forest.marks_setKind u.forest _ _).trans ?_
    cases closing <;> rfl

theorem accounted_literal :
    Accounted (fun found t => ∀ id ∈ found, t.forest.Takes id) (literal? grammar inner) := by
  intro s
  unfold literal?
  refine ends_settled (accounted_name grammar s) fun found t takes _ => ?_
  split
  · exact ends_pure ⟨nofun, settles_of_same rfl rfl⟩
  · simp only [ends_get_bind]
    split
    · refine ends_settled (accounted_skipGap t) fun _ t _ _ => ?_
      refine ends_settled (accounted_braces inside _ t) fun id u takes _ => ?_
      exact ends_pure ⟨by rintro _ ⟨⟩; exact takes, settles_of_same rfl rfl⟩
    · exact ends_pure ⟨takes, settles_of_same rfl rfl⟩

/-- Without an end marker the open block is accounted for. -/
theorem ends_blockStatements_closes {block : Nat} (markers : MarkerPair) (blockStart passes : Nat) :
    ∀ s, Opened .blockEnd block s →
      Ends (blockStatements grammar inner block markers blockStart passes) s
        (fun _ t => True ∧ Closes .blockEnd block s t) (fun _ _ => True) := by
  induction passes with
  | zero => exact fun _ _ => trivial
  | succ passes ih =>
      intro s opened
      unfold blockStatements
      refine ends_closes opened accounted_position fun start t opened => ?_
      refine ends_closes opened (inside .codeBlock) fun segment t opened => ?_
      refine ends_closes opened (accounted_optionForM fun _ => accounted_addStatement) fun _ t opened => ?_
      refine ends_closes opened accounted_skipGap fun _ t opened => ?_
      refine ends_closes opened accounted_position fun place t opened => ?_
      refine ends_closes opened accounted_current fun next t opened => ?_
      split
      · have missing : ∀ fault : Fault, fault.code = .codeBlockEndMarkerMissing →
            Settles [.lacks .blockEnd] t { t with faults := t.faults ++ [fault] } := fun fault code =>
          ⟨[], [fault], (List.append_nil _).symm, rfl, Fair.flawed .blockEnd code⟩
        exact ends_ok rfl ⟨trivial, (missing _ rfl).closes false opened opened.set_same.symm rfl⟩
      · refine ends_closes opened accounted_text fun text t opened => ?_
        split
        · refine ends_closes opened accounted_slice fun _ t opened => ?_
          refine ends_closes opened accounted_createToken fun token t opened => ?_
          refine ends_closes opened accounted_addRegular fun _ t opened => ?_
          refine ends_ok rfl ⟨trivial, (settles_of_same rfl rfl).closes true opened
            (Forest.marks_changeKind_set fun kind found => mark_noteBlockEnd token ?_) rfl⟩
          rw [Opened, Forest.getElem_marks, found] at opened
          exact Option.some.inj opened
        · split
          · exact ends_closes opened accounted_addSeparator fun _ t opened => ih t opened
          · split
            · exact ih t opened
            · split
              · exact ends_closes opened accounted_unexpected fun _ t opened => ih t opened
              · split
                · exact trivial
                · exact ih t opened

theorem accounted_codeBlock : Accounted (fun id t => t.forest.Takes id) (codeBlock grammar inner) := by
  intro s
  unfold codeBlock
  simp only [ends_position_bind]
  split
  · exact trivial
  · rename_i markers _
    simp only [ends_slice_bind, ends_createToken_bind, ends_create_bind]
    have second : (s.forest.createToken .codeBlockStart (s.cursor.text.slice s.cursor.position
        (s.cursor.position + markers.start.length)) s.cursor.position).2.size = s.forest.size + 1 :=
      Forest.size_push _
    rw [second]
    refine ends_construct .blockEnd ?_ rfl fun opened => ?_
    · simp [ItemKind.mark]
    refine ends_closes opened accounted_addRegular fun _ t opened => ?_
    refine ends_closes opened accounted_skip fun _ t opened => ?_
    refine ends_closes opened accounted_remaining fun _ t opened => ?_
    refine (ends_blockStatements_closes inside markers _ _ t opened).bind ?_ fun _ _ stopped => stopped
    rintro _ u ⟨_, closes⟩
    exact ends_pure ⟨rfl, closes⟩

theorem accounted_rootStatements {root : Nat} (passes : Nat) :
    Accounted (fun _ _ => True) (rootStatements grammar inner root passes) := by
  induction passes with
  | zero => exact accounted_stuckHere
  | succ passes ih =>
      refine accounted_bind accounted_position fun start => ?_
      refine accounted_bind (inside .root) fun segment => ?_
      refine accounted_bind (accounted_optionForM fun _ => accounted_addStatement) fun _ => ?_
      refine accounted_bind accounted_afterStatement fun again => ?_
      cases again with
      | true => exact ih
      | false => exact accounted_pure fun _ => trivial

end Enclosed

/-! Resolving -/

theorem accounted_createInfo (chosen : Chosen) :
    Accounted (fun _ _ => True) (createInfo chosen) := by
  refine accounted_bind (accounted_create rfl) fun info => ?_
  refine accounted_bind (accounted_forM fun part => ?_) fun _ => accounted_pure fun _ => trivial
  exact accounted_bind accounted_createToken fun _ => accounted_addRegular

theorem accounted_createOperator (chosen : Chosen) (operand : ItemId) (right : Option ItemId) :
    Accounted (fun _ _ => True) (createOperator chosen operand right) := by
  have done : ∀ {item : ItemId}, Accounted (fun _ _ => True) (pure item : Parse ItemId) :=
    accounted_pure fun _ => trivial
  refine accounted_bind (accounted_createInfo chosen) fun info => ?_
  refine accounted_bind (accounted_create rfl) fun item => ?_
  dsimp only
  split
  · refine accounted_bind accounted_addRegular fun _ => ?_
    exact accounted_bind accounted_addChild fun _ => done
  · refine accounted_bind accounted_addChild fun _ => ?_
    exact accounted_bind accounted_addRegular fun _ => done
  · refine accounted_bind accounted_addChild fun _ => ?_
    refine accounted_bind accounted_addRegular fun _ => ?_
    exact accounted_bind (accounted_optionForM fun _ => accounted_addChild) fun _ => done

theorem accounted_combineAt (priority : Int) {links : List (Chosen × ItemId)} :
    ∀ left, Accounted (fun _ _ => True) (Run.combineAt combine priority left links) := by
  induction links with
  | nil => exact fun _ => accounted_pure fun _ => trivial
  | cons link rest ih =>
      intro left
      unfold Run.combineAt
      split
      · exact accounted_bind (accounted_createOperator _ _ _) fun node => ih node
      · exact accounted_bind (ih _) fun run => accounted_pure fun _ => trivial

theorem accounted_fold (run : Run ItemId) : Accounted (fun _ _ => True) (Run.fold combine run) := by
  unfold Run.fold
  induction run.priorities generalizing run with
  | nil => exact accounted_pure fun _ => trivial
  | cons priority rest ih => exact accounted_bind (accounted_combineAt priority _) fun next => ih next

/-- A row without a cut is one run. -/
theorem split_of_linked {links : List (Option Chosen × ItemId)} (linked : ∀ link ∈ links, link.1 ≠ none) :
    ∀ node : ItemId, (Run.split node links).2 = [] := by
  induction links with
  | nil => exact fun _ => rfl
  | cons link rest ih =>
      obtain ⟨link | chosen, next⟩ := link
      · exact absurd rfl (linked _ List.mem_cons_self)
      · exact fun _ => ih (fun other member => linked other (List.mem_cons_of_mem _ member)) next

/-- Slots that are all linked make one node. -/
theorem accounted_foldSlots (slots : List Slot) :
    Accounted (fun nodes _ => slots ≠ [] → (∀ slot ∈ slots.tail, slot.link ≠ none) → nodes.length = 1)
      (foldSlots slots) := by
  have unary : ∀ slots : List Slot, Accounted
      (fun nodes _ => nodes.map Prod.fst = slots.map Slot.link)
      (slots.mapM fun slot => do return (slot.link, ← applyUnary slot)) := by
    intro slots
    induction slots with
    | nil =>
        rw [List.mapM_nil]
        exact accounted_pure fun _ => rfl
    | cons slot rest ih =>
        intro s
        rw [List.mapM_cons]
        refine ends_settled (P := fun node _ => node.1 = slot.link) ?_ fun node t same _ => ?_
        · refine ends_settled (accounted_foldlM (fun _ _ => accounted_createOperator _ _ _) s)
            fun _ t _ _ => ?_
          exact ends_pure ⟨rfl, settles_of_same rfl rfl⟩
        · refine ends_settled (ih t) fun nodes u others _ => ?_
          exact ends_pure ⟨by simp [same, others], settles_of_same rfl rfl⟩
  intro s
  refine ends_settled (unary slots s) fun nodes t links _ => ?_
  cases nodes with
  | nil =>
      have none : slots = [] := by simpa using links.symm
      exact ends_pure ⟨fun some => absurd none some, settles_of_same rfl rfl⟩
  | cons first rest =>
      cases slots with
      | nil => cases links
      | cons slot others =>
          refine (accounted_mapM (fun run => accounted_fold run) _ t).imp ?_ fun _ _ stopped => stopped
          rintro folded u ⟨count, settles⟩
          refine ⟨fun _ linked => ?_, settles⟩
          have linkedNodes : ∀ node ∈ rest, node.1 ≠ none := by
            intro node member
            have inLinks : node.1 ∈ others.map Slot.link := by
              rw [← (List.cons.inj links).2]
              exact List.mem_map_of_mem member
            obtain ⟨other, inOthers, same⟩ := List.mem_map.mp inLinks
            exact same ▸ linked other inOthers
          rw [count, List.length_cons, split_of_linked linkedNodes]
          rfl

/-- A series takes what could not be combined. -/
theorem ends_createSeries_marks {items : List ItemId} :
    Ends (createSeries items) s
      (fun _ t => t.forest.marks = s.forest.marks ++ [.series] ∧ t.faults = s.faults)
      (fun _ _ => True) := by
  simp only [createSeries, ends_forest_bind, ends_create_bind]
  refine (still_forM fun item _ => still_attach).bind ?_ fun _ _ stopped => stopped
  rintro _ t still
  refine ends_pure ⟨?_, still.faults⟩
  rw [still.marks]
  simp [ItemKind.mark]

theorem ends_addFaults_marks {faults : List Fault} :
    Ends (faults.forM addFault) s
      (fun _ t => t.forest = s.forest ∧ t.faults = s.faults ++ faults) (fun _ _ => True) := by
  induction faults generalizing s with
  | nil => exact ends_pure ⟨rfl, (List.append_nil _).symm⟩
  | cons fault rest ih =>
      rw [List.forM]
      simp only [addFault, ends_modify_bind]
      refine ih.imp ?_ fun _ _ stopped => stopped
      rintro _ t ⟨forest, faults⟩
      exact ⟨forest, by rw [faults, List.append_assoc]; rfl⟩

/-- A segment is resolved into one expression, or into a series for which a fault gives the reason. It
may be one of before, where a stray item was made. -/
theorem ends_resolve_settled {base : ParseState} {terms : List Term} (settles : Settles [] base s)
    (strays : ∀ item, Term.stray item ∈ terms → Marred base s) :
    Ends (resolve terms) s (fun _ t => Settles [] base t) (fun _ _ => True) := by
  unfold resolve
  simp only [ends_forest_bind]
  have shown := Reading.shown_ofTerms s.forest.start terms
  generalize Reading.ofTerms s.forest.start terms = reading at shown ⊢
  refine ends_addFaults_marks.bind ?_ fun _ _ stopped => stopped
  rintro _ t ⟨forest, faults⟩
  have still : reading.faults = [] → Settles [] base t := fun none =>
    settles.trans (settles_of_same (by rw [forest]) (by rw [faults, none, List.append_nil]))
  split
  · rename_i empty
    simp only [Reading.isEmpty, Bool.and_eq_true, List.isEmpty_iff] at empty
    obtain ⟨⟨noSlots, noOperators⟩, _⟩ := empty
    -- A report would stand for something in the reading, and that is empty.
    refine ends_pure (still ?_)
    by_contra some
    rcases shown.filled some with slots | operators
    · exact slots (by simp [Reading.links, noSlots])
    · exact operators noOperators
  · rename_i filled
    refine (accounted_foldSlots _ t).bind ?_ fun _ _ stopped => stopped
    rintro nodes u ⟨one, folded⟩
    split
    · rename_i node whole
      refine ends_pure ((still ?_).trans folded)
      simp only [Reading.isWhole, Bool.and_eq_true, List.isEmpty_iff] at whole
      exact whole.2
    · rename_i notWhole
      refine (accounted_mapM (fun chosen => accounted_createInfo chosen) _ u).bind ?_
        fun _ _ stopped => stopped
      rintro infos v ⟨_, made⟩
      refine ends_createSeries_marks.bind ?_ fun _ _ stopped => stopped
      rintro series w ⟨marks, same⟩
      have later := folded.trans made
      refine ends_pure ?_
      by_cases calm : reading.faults = []
      · by_cases stray : reading.leftItems = []
        · -- All there is has found its place in one node.
          have operators : reading.leftOperators = [] := by
            by_contra some
            exact shown.left some calm
          have some : reading.slots ≠ [] := fun none =>
            filled (by simp [Reading.isEmpty, none, operators, stray])
          have linked : ∀ slot ∈ reading.slots.reverse.tail, slot.link ≠ none := by
            intro slot member
            rw [List.tail_reverse, List.mem_reverse] at member
            refine shown.linked calm stray slot.link ?_
            rw [Reading.links, ← List.map_dropLast]
            exact List.mem_map_of_mem member
          obtain ⟨node, single⟩ := List.length_eq_one_iff.mp (one (by simpa using some) linked)
          exact (notWhole node single (by simp [Reading.isWhole, operators, stray, calm])).elim
        -- A stray item is marred, which accounts for the series.
        · obtain ⟨item, rest, isLeft⟩ := List.exists_cons_of_ne_nil stray
          have marred := strays item (shown.stray item (isLeft ▸ List.mem_cons_self))
          have before := (still calm).trans later
          refine before.series (marred.stays ?_) marks same
          have logged : s.faults <+: t.faults := ⟨reading.faults, faults.symm⟩
          exact logged.trans later.logged
      -- A report accounts for the series.
      · have owed : Settles [.series] base t := by
          refine settles.trans ⟨[], reading.faults, by rw [forest, List.append_nil], faults, ?_⟩
          obtain ⟨fault, rest, isFault⟩ := List.exists_cons_of_ne_nil calm
          have member : fault ∈ reading.faults := isFault ▸ List.mem_cons_self
          exact Fair.degraded ⟨fault, member, shown.degrades fault member⟩ shown.degrades
        exact (owed.trans later).pay marks same

end Parse

end ExprLang
