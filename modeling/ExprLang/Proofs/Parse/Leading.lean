import ExprLang.Proofs.Parse.Extending
import ExprLang.Proofs.Parse.Resolving

/-!
What stands where an operand can: keywords, prefixes, and the operand itself or an operator in its
place. All of it comes behind what is held already, and each character goes into the row or into a
fault that stands for it.
-/

namespace ExprLang

open Held (item hollow word ids)

namespace ParseState

variable {grammar : Grammar} {full : Prop} {base s t : ParseState} {row : List Held} {b c : Nat}

/-- An item takes up room. -/
theorem Standing.moved_of_item {id : Nat} (standing : Standing grammar full base s row)
    (member : item id ∈ row) :
    base.cursor.position < s.cursor.position := by
  obtain ⟨first, stands, last⟩ := standing.placed.inside member
  exact Nat.lt_of_le_of_lt first (Nat.lt_of_lt_of_le stands last)

end ParseState

open ParseState

namespace Parse

variable {grammar : Grammar} {full : Prop} {base s t u : ParseState} {left row : List Held}

/-- A repeated keyword has been dropped from `start` up to the cursor. -/
def Dropped (t : ParseState) (start : Nat) : Prop :=
  ∃ fault ∈ t.faults, fault.code = .multipleOccurrencesOfKeyword ∧ fault.start = start ∧
    fault.stop = t.cursor.position

/-- No keyword stands behind the gap at the cursor. -/
def NoKeyword (grammar : Grammar) (t : ParseState) : Prop :=
  grammar.keywordAt? t.cursor.text (grammar.comments.gapEnd t.cursor.text t.cursor.position) = none

/-- How a run of keywords from `s` to `t` ends: where no keyword stands, or with a repeated one. If
that is its first one, there were keywords before. -/
def RunEnds (grammar : Grammar) (s t : ParseState) (keywords added : List ItemId) : Prop :=
  NoKeyword grammar t ∨
    ∃ start, Dropped t start ∧ (added = [] → keywords ≠ [] ∧ ¬ NoKeyword grammar s ∧
      start = grammar.comments.gapEnd s.cursor.text s.cursor.position)

/-- Comments behind `s` that have been noted stand in the gap there, or behind a keyword. -/
def NotedBehind (grammar : Grammar) (s t : ParseState) : Prop :=
  ∀ comment ∈ t.cursor.comments, comment ∈ s.cursor.comments ∨
    comment ∈ grammar.comments.commentsFrom s.cursor.text s.cursor.position ∨
      (grammar.supportsKeywords = true → grammar.BehindKeyword s.cursor.text comment)

section Keyword

variable {keyword : Keyword} (standing : Standing grammar full base t row)
  (still : grammar.comments.gapEnd t.cursor.text t.cursor.position = t.cursor.position)
  (found : grammar.keywordAt? t.cursor.text t.cursor.position = some keyword)

include found

theorem skip_keyword : (t.cursor.skip keyword.text.length).position =
    t.cursor.position + keyword.text.length :=
  Nat.min_eq_left (Grammar.keywordAt_inside found).2

include standing

/-- A keyword that is dropped on trial leaves no trace. -/
theorem standing_ignored (idle : ¬ full) :
    Standing grammar full base { t with cursor := t.cursor.skip keyword.text.length } row :=
  (standing.toHolding.pass idle (Nat.le_add_right _ _)).moved (skip_keyword found)

include still

/-- A fault stands for a keyword that is dropped. -/
theorem standing_dropped :
    Standing grammar full base { t with
      cursor := t.cursor.skip keyword.text.length
      faults := t.faults ++ [⟨t.cursor.position, keyword.text.length,
        .multipleOccurrencesOfKeyword (t.cursor.text.slice t.cursor.position
          (t.cursor.position + keyword.text.length)), false⟩] } row := by
  obtain ⟨filled, inside⟩ := Grammar.keywordAt_inside found
  have ahead := Nat.lt_add_of_pos_right (n := t.cursor.position) filled
  have skipped := standing.toHolding.skipped ⟨t.cursor.position, keyword.text.length,
    .multipleOccurrencesOfKeyword (t.cursor.text.slice t.cursor.position
      (t.cursor.position + keyword.text.length)), false⟩ (Nat.le_add_right _ _)
    (fun _ => ⟨rfl, by simp [Fault.code, Fault.Cause.code]⟩)
    (fun _ => Fault.located_of_near inside rfl)
    (fun _ => by simp [Fault.piece?, Fault.code, Fault.Cause.code])
    (fun _ => ⟨rfl, standing.text ▸ still, ahead, standing.text ▸ Nat.lt_of_lt_of_le ahead inside⟩)
  exact skipped.moved (skip_keyword found)

/-- The token of a keyword is held behind the others. -/
theorem standing_taken :
    Standing grammar full base { t with
      cursor := t.cursor.skip keyword.text.length
      forest := (t.forest.createToken (.keyword keyword.id)
        (t.cursor.text.slice t.cursor.position (t.cursor.position + keyword.text.length))
        t.cursor.position).2 } (row ++ [item t.forest.size]) := by
  obtain ⟨filled, inside⟩ := Grammar.keywordAt_inside found
  have long := Grammar.length_slice_of_inside inside
  have same := Text.slice_eq t.cursor.text t.cursor.position (t.cursor.position + keyword.text.length)
  have written := standing.toHolding.token (.keyword keyword.id) (Nat.le_refl _) (long.symm ▸ filled)
    (fun _ => ⟨rfl, standing.text ▸ still, standing.text ▸ same⟩) fun _ => by rintro ⟨⟩
  rw [long] at written
  exact written.moved (skip_keyword found)

end Keyword

/-- A run of keywords. A repeated one is dropped, and a fault stands for it. -/
theorem ends_keywordRun {reportRepeats : Bool} {passes : Nat} (left : List Held) (keywords : List Nat)
    (reports : full → reportRepeats = true)
    (standing : Standing grammar full base s (left ++ keywords.map item)) :
    Ends (keywordRun grammar reportRepeats passes keywords) s
      (fun found t => ∃ added, found = keywords ++ added ∧
        Standing grammar full base t (left ++ found.map item) ∧
        s.cursor.position ≤ t.cursor.position ∧
        (added ≠ [] → s.cursor.position < t.cursor.position) ∧ s.faults ⊆ t.faults ∧
        (reportRepeats = true → s.cursor.remaining < passes → RunEnds grammar s t keywords added) ∧
        NotedBehind grammar s t)
      (fun _ _ => False) := by
  induction passes generalizing s keywords with
  | zero =>
      exact ends_pure ⟨[], by simp, standing, Nat.le_refl _, fun none => absurd rfl none,
        List.Subset.refl _, fun _ enough => absurd enough (Nat.not_lt_zero _), fun _ => Or.inl⟩
  | succ passes ih =>
      have comments := standing.markers.trans standing.ready.markers
      unfold keywordRun
      refine (standing_skipGap standing).bind ?_ fun _ _ never => never
      rintro _ t ⟨standing, settled, _, text, further, position, noted, heard⟩
      have markers := standing.markers.trans standing.ready.markers
      have inGap : NotedBehind grammar s t := fun comment member =>
        (heard comment member).imp_right Or.inl
      rw [Cursor.gapEnd, comments] at position
      have still : grammar.comments.gapEnd t.cursor.text t.cursor.position = t.cursor.position := by
        rw [← markers]
        exact CommentMarkers.gapEnd_of_settled settled
      simp only [ends_position_bind, ends_text_bind]
      split
      · rename_i noKeyword
        exact ends_pure ⟨[], by simp, standing, further, fun none => absurd rfl none, noted,
          fun _ _ => Or.inl (by rwa [NoKeyword, still]), inGap⟩
      · rename_i keyword isKeyword
        have reached := skip_keyword isKeyword
        have beyond : s.cursor.position < (t.cursor.skip keyword.text.length).position := by
          have filled := (Grammar.keywordAt_inside isKeyword).1
          omega
        simp only [ends_slice_bind, skip, ends_modify_bind, ends_forest_bind]
        split
        · -- The keyword is in the run already.
          rename_i repeated
          cases reportRepeats with
          | true =>
              simp only [if_true, report, addFault, ends_modify_bind]
              refine ends_pure ⟨[], by simp, standing_dropped standing still isKeyword, Nat.le_of_lt beyond,
                fun none => absurd rfl none, List.subset_append_of_subset_left _ noted,
                fun _ _ => Or.inr ⟨t.cursor.position, ?_, fun _ => ?_⟩, inGap⟩
              · exact ⟨_, List.mem_append_right _ (List.mem_singleton_self _), rfl, rfl, reached.symm⟩
              · refine ⟨?_, ?_, position⟩
                · rintro rfl
                  cases repeated
                · rw [NoKeyword, ← position, ← text, isKeyword]
                  rintro ⟨⟩
          | false =>
              have idle : ¬ full := fun strict => absurd (reports strict) (by simp)
              exact ends_pure ⟨[], by simp, standing_ignored standing isKeyword idle, Nat.le_of_lt beyond,
                fun none => absurd rfl none, noted, by rintro ⟨⟩, inGap⟩
        · -- The others of the run stand behind this one.
          simp only [ends_createToken_bind]
          have written := standing_taken standing still isKeyword
          have row : left ++ keywords.map item ++ [item t.forest.size] =
              left ++ (keywords ++ [t.forest.size]).map item := by simp
          rw [row] at written
          refine (ih _ written).imp ?_ fun _ _ never => never
          rintro found u ⟨added, rfl, standing, further, _, more, ends, behind⟩
          have later := Nat.lt_of_lt_of_le beyond further
          refine ⟨t.forest.size :: added, by simp, standing, Nat.le_of_lt later, fun _ => later,
            List.Subset.trans noted more, fun reports enough => ?_, fun comment member => ?_⟩
          · have fewer : (t.cursor.skip keyword.text.length).remaining < s.cursor.remaining :=
              Cursor.remaining_lt text beyond (Nat.min_le_right _ _)
            refine (ends reports (Nat.lt_of_lt_of_le fewer (Nat.le_of_lt_succ enough))).imp_right ?_
            rintro ⟨start, dropped, _⟩
            exact ⟨start, dropped, by rintro ⟨⟩⟩
          · rcases behind comment member with early | inNext | onTrial
            · exact inGap comment early
            · refine Or.inr (Or.inr fun supported => ⟨supported, t.cursor.position, keyword, ?_, ?_⟩)
              · rwa [← text]
              · rw [← text, ← reached]
                exact inNext
            · exact Or.inr (Or.inr fun supported => text ▸ onTrial supported)

theorem ends_operandFollows (grammar : Grammar) :
    Ends (operandFollows grammar) s (fun _ t => t = s) (fun _ _ => False) := by
  unfold operandFollows
  simp only [ends_get_bind]
  exact ends_pure rfl

/-- What prefixes and keywords leave behind, and the operand that may have been found among them. -/
structure Modified (grammar : Grammar) (full : Prop) (base s : ParseState) (left : List Held)
    (before after : Modifiers) (found : Option ItemId) (t : ParseState) : Prop where
  standing : Standing grammar full base t (left ++ after.held ++ found.toList.map item)
  further : s.cursor.position ≤ t.cursor.position
  moved : after ≠ before → s.cursor.position < t.cursor.position
  bare : ∀ id, found = some id → t.forest.Bare id ∧ s.cursor.position < t.cursor.position
  nameable : full → found = none → grammar.Nameable t.cursor.text t.faults
    (grammar.comments.gapEnd t.cursor.text t.cursor.position)

theorem Modified.stay {pending : Modifiers}
    (standing : Standing grammar full base t (left ++ pending.held))
    (further : s.cursor.position ≤ t.cursor.position)
    (nameable : full → grammar.Nameable t.cursor.text t.faults
      (grammar.comments.gapEnd t.cursor.text t.cursor.position)) :
    Modified grammar full base s left pending pending none t :=
  ⟨by simpa using standing, further, fun changed => absurd rfl changed, nofun,
    fun strict _ => nameable strict⟩

/-- Behind some progress. -/
theorem Modified.later {before mid after : Modifiers} {found : Option ItemId}
    (modified : Modified grammar full base t left mid after found u)
    (moved : s.cursor.position < t.cursor.position) :
    Modified grammar full base s left before after found u := by
  have beyond := Nat.lt_of_lt_of_le moved modified.further
  exact ⟨modified.standing, Nat.le_of_lt beyond, fun _ => beyond,
    fun id isFound => ⟨(modified.bare id isFound).1, beyond⟩, modified.nameable⟩

/-- If there are keywords, the run they come from has ended with one that was repeated, or no other
one follows. -/
def RunBehind (grammar : Grammar) (s : ParseState) (keywords : List ItemId) : Prop :=
  keywords ≠ [] → NoKeyword grammar s ∨ ∃ start, Dropped s start

/-- A gap before a run makes no difference. -/
theorem RunEnds.of_gap {keywords added : List ItemId} (text : t.cursor.text = s.cursor.text)
    (position : t.cursor.position = grammar.comments.gapEnd s.cursor.text s.cursor.position)
    (ends : RunEnds grammar t u keywords added) : RunEnds grammar s u keywords added := by
  rw [RunEnds, NoKeyword, NoKeyword, text, position, CommentMarkers.gapEnd_gapEnd] at ends
  exact ends

/-- A run that finds nothing new stops before a name or behind the second of two repeated keywords. -/
theorem nameable_of_runEnds {keywords : List ItemId} (behind : RunBehind grammar s keywords)
    (further : s.faults ⊆ t.faults) (text : t.cursor.text = s.cursor.text)
    (ends : RunEnds grammar s t keywords []) :
    grammar.Nameable t.cursor.text t.faults
      (grammar.comments.gapEnd t.cursor.text t.cursor.position) := by
  intro _
  rcases ends with none | ⟨start, ⟨second, isSecond, repeated, starts, stops⟩, first⟩
  · exact Or.inl none
  · obtain ⟨some, keyword, here⟩ := first rfl
    obtain ⟨_, before, isFirst, repeatedBefore, _, stopsBefore⟩ := (behind some).resolve_left keyword
    refine Or.inr ⟨before, further isFirst, second, isSecond, repeatedBefore, repeated, ?_, ?_⟩
    · rw [stopsBefore, starts, here, text]
    · rw [stops]

section Inner

variable {inner : Inner} {depth : Nat} {whole : Text} (parses : inner.Parses grammar full whole depth)

include parses

theorem ends_modifiers {passes : Nat} {pending : Modifiers} (left : List Held)
    (same : base.cursor.text = whole)
    (standing : Standing grammar full base s (left ++ pending.held))
    (behind : RunBehind grammar s pending.keywords) (shallow : s.cursor.remaining ≤ depth)
    (enough : s.cursor.remaining < passes) :
    Ends (modifiers grammar inner passes pending) s
      (fun found t => Modified grammar full base s left pending found.1 found.2 t)
      (fun _ t => Halted grammar full base t) := by
  induction passes generalizing s pending with
  | zero => exact absurd enough (Nat.not_lt_zero _)
  | succ passes ih =>
      have origin := standing.text
      have comments := standing.markers.trans standing.ready.markers
      unfold modifiers
      refine (standing_skipGap standing).bind ?_ fun _ _ never => never.elim
      rintro _ t ⟨standing, settled, _, text, further, position, noted, _⟩
      rw [Cursor.gapEnd, comments] at position
      have near := Nat.le_trans (Cursor.remaining_le text further) shallow
      simp only [ends_text_bind, ends_position_bind]
      split
      -- Braces without a name: a prefix if an operand follows them, and otherwise the operand itself.
      · rename_i isPrefix
        simp only [Bool.and_eq_true, List.isEmpty_iff] at isPrefix
        obtain ⟨⟨_, noKeywords⟩, here⟩ := isPrefix
        have braces := ends_braces parses none (standing.text.trans same) standing.next.standing settled
          here near
        refine (standing.after braces).bind ?_ fun _ _ halted => halted
        intro id u built
        have both := standing.append built.toStanding
        have beyond := built.toStanding.moved_of_item (List.mem_singleton_self _)
        refine (ends_operandFollows grammar).bind ?_ fun _ _ never => never.elim
        rintro follows v rfl
        split
        · have row : left ++ pending.held ++ [item id] =
              left ++ Modifiers.held { pending with prefixes := pending.prefixes ++ [id] } := by
            simp [Modifiers.held, noKeywords]
          rw [row] at both
          have deeper := Nat.le_trans (Cursor.remaining_le built.text (Nat.le_of_lt beyond)) near
          have fewer := Cursor.remaining_lt (built.text.trans text) (Nat.lt_of_le_of_lt further beyond)
            built.within
          refine (ih both (fun some => absurd noKeywords some) deeper (by omega)).imp ?_
            fun _ _ halted => halted
          exact fun found w modified => modified.later (Nat.lt_of_le_of_lt further beyond)
        · have moved := Nat.lt_of_le_of_lt further beyond
          refine ends_pure ⟨both, Nat.le_of_lt moved, fun changed => absurd rfl changed, ?_, fun _ => by rintro ⟨⟩⟩
          rintro other isFound
          cases isFound
          exact ⟨built.bare, moved⟩
      · split
        -- If the run has a new keyword the loop goes on behind it.
        · simp only [ends_remaining_bind]
          have row : left ++ pending.held =
              (left ++ pending.prefixes.map item) ++ pending.keywords.map item := by
            simp [Modifiers.held]
          rw [row] at standing
          refine (ends_keywordRun _ _ (fun _ => rfl) standing).bind ?_ fun _ _ never => never.elim
          rintro keywords u ⟨added, rfl, standing, more, moved, later, ends, _⟩
          have ends := (ends rfl (Nat.lt_succ_self _)).of_gap text position
          have standing : Standing grammar full base u
              (left ++ Modifiers.held { pending with keywords := pending.keywords ++ added }) := by
            simpa [Modifiers.held] using standing
          split
          · rename_i longer
            have beyond := Nat.lt_of_le_of_lt further (moved (by rintro rfl; simp at longer))
            have same := standing.text.trans origin.symm
            have deeper := Nat.le_trans (Cursor.remaining_le same (Nat.le_of_lt beyond)) shallow
            have fewer := Cursor.remaining_lt same beyond standing.within
            have behind : RunBehind grammar u (pending.keywords ++ added) := by
              refine fun _ => ends.imp_right ?_
              rintro ⟨start, dropped, _⟩
              exact ⟨start, dropped⟩
            refine (ih standing behind deeper (by omega)).imp ?_ fun _ _ halted => halted
            exact fun found w modified => modified.later beyond
          -- Neither braces nor a keyword have been taken, so an operand can begin here.
          · rename_i notLonger
            obtain rfl : added = [] := by
              cases added with
              | nil => rfl
              | cons first rest => simp at notLonger
            refine ends_pure (Modified.stay ?_ (Nat.le_trans further more) fun _ => ?_)
            · simpa using standing
            · exact nameable_of_runEnds behind (List.Subset.trans noted later)
                (standing.text.trans origin.symm) ends
        · rename_i unsupported
          exact ends_pure (Modified.stay standing further fun _ supported => absurd supported unsupported)

omit parses in
theorem ends_placeCustom {id : Nat} (standing : Standing grammar full base s row) (member : item id ∈ row) :
    Ends (placeCustom grammar id) s
      (fun found t => Standing grammar full base t row ∧ t.forest = s.forest ∧ t.cursor = s.cursor ∧
        (found = .operand id ∨ found = .prefixed id ∨ found = .stray id)) (fun _ _ => False) := by
  unfold placeCustom
  simp only [ends_forest_bind]
  split
  · exact ends_pure ⟨standing, rfl, rfl, Or.inl rfl⟩
  · split
    · exact ends_pure ⟨standing, rfl, rfl, Or.inr (Or.inl rfl)⟩
    · refine (ends_report standing (by exact ⟨nofun, nofun, nofun, nofun⟩)
      fun _ => standing.located_of_item member).bind ?_ fun _ _ never => never
      rintro _ t ⟨standing, forest, cursor⟩
      exact ends_pure ⟨standing, forest, cursor, Or.inr (Or.inr rfl)⟩
  · refine (ends_report standing (by exact ⟨nofun, nofun, nofun, nofun⟩)
      fun _ => standing.located_of_item member).bind ?_ fun _ _ never => never
    rintro _ t ⟨standing, forest, cursor⟩
    exact ends_pure ⟨standing, forest, cursor, Or.inr (Or.inr rfl)⟩

/-- What is found in front of an operand's place by the parser itself. -/
def Plain (grammar : Grammar) (full : Prop) (base s : ParseState) (row : List Held) :
    Found → ParseState → Prop
  | .operand id, t => Standing grammar full base t (row ++ [item id]) ∧ t.forest.Bare id ∧
      s.cursor.position < t.cursor.position
  | .operators written, t => Standing grammar full base t (row ++ written.held) ∧
      written.parts ≠ [] ∧ s.cursor.position < t.cursor.position
  | .nothing, t => t = s ∧ grammar.isTerminatorAt s.cursor.text s.cursor.position = true
  | .stray _, _ | .prefixed _, _ => False

omit parses in
/-- An operator comes behind all that is held, and the cursor goes behind it. -/
theorem ends_operators {written : OperatorMatch} {afterOperand : Bool} (named : grammar.Named)
    (standing : Standing grammar full base s row) (settled : s.Settled)
    (found : grammar.operatorAt? s.cursor.text s.cursor.position afterOperand = some written) :
    Ends (moveTo written.stop) s
      (fun _ t => Standing grammar full base t (row ++ written.held) ∧ written.parts ≠ [] ∧
        s.cursor.position < t.cursor.position ∧ t.forest = s.forest) (fun _ _ => False) := by
  have comments := standing.markers.trans standing.ready.markers
  have settledHere : grammar.comments.Settled s.cursor.text s.cursor.position := by
    rw [← comments]
    exact settled
  have stands := Grammar.operatorAt_stands named settledHere found
  have inside := stands.spelled.stop_le standing.within
  have further := stands.lt_stop
  have reached : min written.stop s.cursor.text.size = written.stop := Nat.min_eq_left inside
  have none := CommentMarkers.commentsFrom_of_settled (CommentMarkers.gapEnd_of_settled settledHere)
  have spelled := stands.spelled
  rw [standing.text] at spelled none found
  have all := standing.toHolding.spellAll spelled (by simp [none]) fun part member comment inGap =>
    ⟨_, _, _, found, part, member, inGap⟩
  unfold moveTo
  rw [ends_modify]
  refine ⟨all.moved reached, stands.nonempty, ?_, rfl⟩
  simp only [Cursor.moveTo]
  omega

theorem ends_plainOperand {terms : List Term} (named : grammar.Named)
    (same : s.cursor.text = whole)
    (standing : Standing grammar full base s row) (settled : s.Settled)
    (nameable : full → grammar.Nameable s.cursor.text s.faults s.cursor.position)
    (shallow : s.cursor.remaining ≤ depth) :
    Ends (plainOperand grammar inner terms) s (fun found t => Plain grammar full base s row found t)
      (fun _ t => Halted grammar full base t) := by
  have ready := standing.next
  -- A new item behind the row is what was looked for.
  have operand : ∀ {id : Nat} {t : ParseState}, Built grammar full s t id →
      Plain grammar full base s row (.operand id) t := fun built =>
    ⟨standing.append built.toStanding, built.bare, built.toStanding.moved_of_item (List.mem_singleton_self _)⟩
  unfold plainOperand
  simp only [ends_position_bind, ends_text_bind]
  split
  · rename_i terminates
    exact ends_pure ⟨rfl, terminates⟩
  · rename_i notTerminator
    split
    · rename_i none
      exact absurd (by simp [Grammar.isTerminatorAt, none]) notTerminator
    · rename_i c here
      have inside := (Array.getElem?_eq_some_iff.mp here).1
      split
      · refine (ends_textConstant ready settled c inside).bind ?_ fun _ _ never => never.elim
        exact fun id t built => ends_pure (operand built)
      · split
        · rename_i written found
          refine (ends_number ready settled (Grammar.numberAt_length found) inside).bind ?_
            fun _ _ never => never.elim
          exact fun id t built => ends_pure (operand built)
        · split
          · rename_i isBrace
            refine (ends_braces parses none same ready.standing settled isBrace shallow).bind ?_
              fun _ _ halted => standing.littered.halted halted
            exact fun id t built => ends_pure (operand built)
          · split
            · rename_i isBlock
              refine (ends_codeBlock parses same ready settled isBlock shallow).bind ?_
                fun _ _ halted => standing.littered.halted halted
              exact fun id t built => ends_pure (operand built)
            · split
              · rename_i written found
                refine (ends_operators named standing settled found).bind ?_
                  fun _ _ never => never.elim
                rintro _ t ⟨standing, filled, moved, _⟩
                exact ends_pure ⟨standing, filled, moved⟩
              -- What is no literal either is an invalid symbol, at which the parser stops.
              · refine (ends_literal parses same ready settled nameable shallow).bind ?_
                  fun _ _ halted => standing.littered.halted halted
                rintro found t (⟨rfl, rfl⟩ | ⟨id, rfl, built⟩)
                · have littered := standing.littered.of_same (t := { t with
                      faults := t.faults ++ [⟨t.cursor.position, 1, .invalidSymbol c, true⟩] })
                    rfl (List.prefix_append _ _) rfl rfl rfl (Nat.le_refl _) ready.inside
                  have invalid : Fault.Located t.cursor.text.size
                      ⟨t.cursor.position, 1, .invalidSymbol c, true⟩ := Fault.located_of_near inside rfl
                  exact ends_error rfl ⟨littered, fun strict => ⟨t.faults, c, rfl,
                    (standing.strict strict).mild⟩, fun strict =>
                      (standing.strict strict).named_of_more (List.subset_append_left _ _), fun strict =>
                      List.forall_mem_append.mpr ⟨(standing.strict strict).located,
                        List.forall_mem_singleton.mpr invalid⟩⟩
                · exact ends_pure (operand built)

end Inner

/-! With extensions -/

/-- What has been found where an operand can stand, behind these modifiers. -/
def Met (grammar : Grammar) (full : Prop) (base : ParseState) (left : List Held)
    (pending : Modifiers) : Found → ParseState → Prop
  | .operand id, t => Standing grammar full base t (left ++ pending.held ++ [item id]) ∧
      t.forest.Fresh pending id
  | .operators written, t => Standing grammar full base t (left ++ pending.held ++ written.held) ∧
      written.parts ≠ []
  | .stray id, t | .prefixed id, t =>
      Standing grammar full base t (left ++ pending.held ++ [item id]) ∧ pending.keywords = []
  | .nothing, t => Standing grammar full base t (left ++ pending.held) ∧ t.Settled ∧
      grammar.isTerminatorAt t.cursor.text t.cursor.position = true

variable {whole : Text} {depth : Nat} (setting : Setting grammar full whole depth)

include setting

/-- A custom expression takes the keywords; without one the parser looks itself. -/
theorem ends_operand (draft : Draft) (left : List Held) (same : base.cursor.text = whole)
    (standing : Standing grammar full base s (left ++ draft.pending.held))
    (nameable : full → grammar.Nameable s.cursor.text s.faults
      (grammar.comments.gapEnd s.cursor.text s.cursor.position))
    (shallow : s.cursor.remaining ≤ depth)
    (deeper : draft.pending.keywords ≠ [] → s.cursor.remaining < depth) :
    Ends (operand grammar (segment grammar depth) draft) s
      (fun result t => Met grammar full base left result.2 result.1 t ∧
        s.cursor.position ≤ t.cursor.position ∧
        (result.1 ≠ .nothing → draft.pending.keywords = [] → s.cursor.position < t.cursor.position))
      (fun _ t => Halted grammar full base t) := by
  have comments := standing.markers.trans standing.ready.markers
  unfold operand
  refine (standing_skipGap standing).bind ?_ fun _ _ never => never.elim
  rintro _ t ⟨standing, settled, _, text, further, position, noted, _⟩
  rw [Cursor.gapEnd, comments] at position
  have sameHere := standing.text.trans same
  have near := Cursor.remaining_le text further
  have row : left ++ draft.pending.held =
      (left ++ draft.pending.prefixes.map item) ++ draft.pending.keywords.map item := by
    simp [Modifiers.held]
  rw [row] at standing
  refine (ends_custom draft.pending.prefixes setting sameHere
    (fun some => Nat.lt_of_le_of_lt near (deeper some)) standing).bind ?_ fun _ _ halted => halted
  rintro found u ⟨⟨rfl, rewound, strict⟩ | ⟨id, rfl, made, more, fresh⟩, some⟩
  -- No extension has taken the keywords, and the parser looks for an operand itself.
  · have there := standing.declined rewound strict
    rw [← row] at there
    have settledThere : u.Settled := by
      unfold ParseState.Settled
      rw [rewound.markers, rewound.text, rewound.position]
      exact settled
    have back := rewound.position
    have nearer := Cursor.remaining_le rewound.text (Nat.le_of_eq back.symm)
    have nameableThere : full → grammar.Nameable u.cursor.text u.faults u.cursor.position := by
      intro isStrict
      obtain rfl := strict isStrict
      rw [text, position]
      exact (nameable isStrict).mono noted
    refine (ends_plainOperand setting.parses setting.named (rewound.text.trans sameHere) there
      settledThere nameableThere (by omega)).bind ?_ fun _ _ halted => halted
    intro found v plain
    cases found with
    | operand id =>
        obtain ⟨standing, bare, moved⟩ := plain
        exact ends_pure ⟨⟨standing, bare.fresh _⟩, by omega, fun _ _ => by omega⟩
    | operators written =>
        obtain ⟨standing, filled, moved⟩ := plain
        exact ends_pure ⟨⟨standing, filled⟩, by omega, fun _ _ => by omega⟩
    | nothing =>
        obtain ⟨rfl, terminates⟩ := plain
        exact ends_pure ⟨⟨there, settledThere, terminates⟩, by omega, fun some => absurd rfl some⟩
    | stray id => exact plain.elim
    | prefixed id => exact plain.elim
  -- An extension has made an item of the keywords; its category says what it counts as.
  · have row : left ++ draft.pending.prefixes.map item ++ [item id] =
        left ++ Modifiers.held { draft.pending with keywords := [] } ++ [item id] := by
      simp [Modifiers.held]
    rw [row] at made
    refine (ends_placeCustom made (by simp)).bind ?_ fun _ _ never => never.elim
    rintro found v ⟨standing, forest, cursor, isFound⟩
    have moved : s.cursor.position ≤ v.cursor.position := by
      rw [cursor]
      exact Nat.le_trans further more
    have keywords : ∀ other : Found, other ≠ .nothing → draft.pending.keywords = [] →
        s.cursor.position < v.cursor.position := fun _ _ none => absurd none (some (by rintro ⟨⟩))
    refine ends_pure ⟨?_, moved, keywords found⟩
    rcases isFound with rfl | rfl | rfl
    · exact ⟨standing, forest ▸ fresh _⟩
    · exact ⟨standing, rfl⟩
    · exact ⟨standing, rfl⟩

end Parse

end ExprLang
