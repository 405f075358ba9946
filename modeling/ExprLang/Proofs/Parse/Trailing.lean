import ExprLang.Proofs.Parse.Leading

/-!
What stands behind an operand: keywords on trial, with the custom expression that the last of them
triggers, and code blocks. A trial that comes to nothing is undone, so that only comments and
sightings tell of it.
-/

namespace ExprLang

open Held (item hollow word ids)

namespace ParseState

variable {grammar : Grammar} {full : Prop} {base s t u : ParseState} {row : List Held}

/-- Only comments and sightings may have come. -/
structure Restored (s t : ParseState) : Prop where
  forest : t.forest = s.forest
  faults : t.faults = s.faults
  position : t.cursor.position = s.cursor.position
  text : t.cursor.text = s.cursor.text
  markers : t.cursor.markers = s.cursor.markers
  heard : s.cursor.Hears t.cursor

/-- Going back undoes whatever left its litter behind the cursor. -/
theorem Littered.restored (littered : Littered s t) (sound : s.forest.Sound)
    (inside : s.cursor.position ≤ s.cursor.text.size) :
    Restored s { t with
      cursor := t.cursor.moveTo s.cursor.position
      faults := t.faults.take s.faults.length
      forest := t.forest.truncate s.forest.size } where
  forest := (littered.rewound sound inside).forest
  faults := (List.prefix_iff_eq_take.mp littered.logged).symm
  position := (littered.rewound sound inside).position
  text := littered.text
  markers := littered.markers
  heard := (littered.rewound sound inside).heard

theorem Standing.restored (standing : Standing grammar full base s row) (restored : Restored s t)
    (comments : full → ∀ comment ∈ t.cursor.comments,
      comment ∈ s.cursor.comments ∨ grammar.BehindKeyword s.cursor.text comment) :
    Standing grammar full base t row := by
  have same := standing.toHolding.of_same restored.forest restored.faults restored.text restored.markers
    restored.heard comments
  exact same.standing restored.position (by rw [restored.text]; exact standing.within)

theorem Restored.settled (restored : Restored s t) (settled : s.Settled) : t.Settled := by
  unfold ParseState.Settled
  rw [restored.markers, restored.text, restored.position]
  exact settled

end ParseState

open ParseState

namespace Forest

variable {forest : Forest} {owner part : Nat}

/-- A postfix starts behind the last part of its owner if it starts behind the owner, and not where
an empty last part does. -/
theorem fits_postfix (sound : forest.Sound) (behind : forest.stop owner ≤ forest.start part)
    (ahead : ∀ last ∈ (forest.parts owner).all.getLast?, forest.start last < forest.start part) :
    forest.Fits owner part .postfixes := by
  refine ⟨fun last isLast => ⟨ahead last isLast, ?_⟩, nofun⟩
  have owns : forest.Owns owner last := List.mem_of_getLast? isLast
  have covers := span_of_part sound.linked sound.laid owns
  omega

theorem Fresh.of_get {other : Forest} {modifiers : Modifiers} (fresh : forest.Fresh modifiers owner)
    (same : other.get? owner = forest.get? owner) : other.Fresh modifiers owner := by
  obtain ⟨complex, noPrefixes, keywords⟩ := fresh
  have parts : other.parts owner = forest.parts owner := by
    unfold Forest.parts
    rw [same]
  exact ⟨same ▸ complex, parts ▸ noPrefixes, parts ▸ keywords⟩

/-- Postfixes leave room for modifiers. -/
theorem Fresh.link_postfix {modifiers : Modifiers} (fresh : forest.Fresh modifiers owner)
    (different : owner ≠ part) :
    (forest.link owner part .postfixes false).Fresh modifiers owner := by
  obtain ⟨⟨found, here, complex⟩, noPrefixes, keywords⟩ := fresh
  have inside := get_lt_size here
  refine ⟨?_, ?_, ?_⟩
  · rw [get_link_owner different, here]
    exact ⟨_, rfl, complex⟩
  · have same := get_link_of_ne part false inside
      (show Section.prefixes ≠ .postfixes by simp)
    exact same.trans noPrefixes
  · have same := get_link_of_ne part false inside
      (show Section.keywords ≠ .postfixes by simp)
    exact keywords.imp_right same.trans

end Forest

namespace Parse

variable {grammar : Grammar} {full : Prop} {base s t : ParseState} {row : List Held}

/-- What is refused stops the parser. -/
theorem ends_attach_refused {change : Forest → Except AttachError Forest} {error : AttachError}
    {ok : Unit → ParseState → Prop} {stopped : Stopped → ParseState → Prop}
    (refused : change s.forest = .error error)
    (holds : stopped {} { s with
      faults := s.faults ++ [⟨s.cursor.position, 0, .parserImplementation error.message, true⟩] }) :
    Ends (attach change) s ok stopped := by
  unfold attach attachOr
  simp only [ends_forest_bind, refused, ends_position_bind]
  exact ends_error rfl holds

/-- An operand takes a postfix or does not want it. What is refused is a postfix of a custom
expression with an empty part just where the postfix starts. -/
theorem ends_attachPostfix {target postfixed : Nat}
    (standing : Standing grammar full base s (row ++ [item target, item postfixed]))
    (complex : ∃ found, s.forest.get? target = some found ∧ found.isToken = false) :
    Ends (attachPostfix target postfixed) s
      (fun taken t => t.cursor = s.cursor ∧
        (∀ modifiers, s.forest.Fresh modifiers target → t.forest.Fresh modifiers target) ∧
        (∃ found, t.forest.get? target = some found ∧ found.isToken = false) ∧
        Standing grammar full base t
          (row ++ if taken then [item target] else [item target, item postfixed]))
      (fun _ t => Halted grammar full base t) := by
  have sound := standing.sound
  have targetMember : target ∈ ids (row ++ [item target, item postfixed]) := by simp
  have postfixMember : postfixed ∈ ids (row ++ [item target, item postfixed]) := by simp
  have different : target ≠ postfixed := by
    have once := standing.once
    rintro rfl
    simp [List.nodup_append] at once
  obtain ⟨_, _, _, _, behind, _⟩ := Forest.row_append.mp standing.placed
  have attachable := standing.toHolding.lined.attachable targetMember postfixMember different complex
  unfold attachPostfix
  simp only [ends_forest_bind]
  split
  · simp only [addPostfix, Forest.addPostfix]
    cases attached : s.forest.attach target postfixed .postfixes false with
    | ok next =>
        obtain ⟨rfl, _, ahead⟩ :=
          Forest.attachable_of_ok sound.ordered attachable.freeOwner attached
        have fits := Forest.fits_postfix sound behind ahead
        have inRow : Holding grammar full base s (row ++ [item target, item postfixed] ++ [])
            s.cursor.position := by simpa using standing.toHolding
        have noChild : false = true → Section.postfixes = .regular := nofun
        have linked := inRow.link_behind rfl attachable fits rfl noChild
        refine ends_bind (ends_attach attached (ends_pure ⟨rfl, ?_, ?_, ?_⟩))
        · exact fun modifiers fresh => fresh.link_postfix different
        · obtain ⟨found, here, isComplex⟩ := complex
          have after : (s.forest.link target postfixed .postfixes false).get? target = _ :=
            Forest.get_link_owner different
          rw [here] at after
          exact ⟨_, after, isComplex⟩
        · exact linked.standing rfl standing.within
    | error error =>
        -- Without extensions the parts of the operand end before the cursor, and nothing is refused.
        have idle : ¬ full := by
          intro strict
          have plain := (standing.strict strict).plain target
          have fits := Forest.fits_postfix sound behind fun last isLast => by
            have owns : s.forest.Owns target last := List.mem_of_getLast? isLast
            have firm := (sound.firm target last owns).resolve_right plain
            have covers := Forest.span_of_part sound.linked sound.laid owns
            exact Nat.lt_of_lt_of_le firm (Nat.le_trans covers.2 behind)
          rw [Forest.attach_of_fits _ attachable fits] at attached
          cases attached
        refine ends_bind (ends_attach_refused attached
          ⟨?_, fun strict => absurd strict idle, fun strict => absurd strict idle, fun strict =>
            absurd strict idle⟩)
        exact standing.littered.of_same rfl (List.prefix_append _ _) rfl rfl rfl (Nat.le_refl _)
          standing.within
  · refine (ends_report standing (by exact ⟨nofun, nofun, nofun, nofun⟩) fun _ =>
      standing.located_of_item (by simp)).bind ?_ fun _ _ never => never.elim
    rintro _ t ⟨standing, forest, cursor⟩
    refine ends_pure ⟨cursor, ?_, ?_, standing⟩
    · exact fun modifiers fresh => forest ▸ fresh
    · exact forest ▸ complex

section Trial

variable {whole : Text} {depth : Nat} (setting : Setting grammar full whole depth)

include setting

/-- Keywords on trial, and the custom expression that comes of them. -/
theorem ends_triggeredBehind (ready : s.Ready grammar full) (same : s.cursor.text = whole)
    (shallow : s.cursor.remaining ≤ depth) :
    Ends (triggeredBehind? grammar (segment grammar depth)) s
      (fun found t => Littered s t ∧ (∀ id, found = some id → Standing grammar full s t [item id]) ∧
        (full → NotedBehind grammar s t))
      (fun _ t => Halted grammar full s t) := by
  unfold triggeredBehind?
  simp only [ends_remaining_bind]
  by_cases strict : full
  -- Nothing is triggered without extensions, so the run is on trial only.
  · refine (ends_keywordRun [] [] False.elim ready.loosen.standing).bind ?_
      fun _ _ never => never.elim
    rintro found t ⟨_, _, standing, _, _, _, _, behind⟩
    have littered := standing.littered
    cases found.getLast? with
    | none => exact ends_pure ⟨littered, nofun, fun _ => behind⟩
    | some last =>
        refine (ends_keywordId last).bind ?_ fun _ _ never => never.elim
        rintro keyword u ⟨rfl, _⟩
        cases keyword with
        | none => exact ends_pure ⟨littered, nofun, fun _ => behind⟩
        | some keyword =>
            have none : grammar.extensionsFor keyword = [] := by
              unfold Grammar.extensionsFor
              rw [setting.plain strict]
              rfl
            simp only [none, List.isEmpty_nil, if_true]
            exact ends_pure ⟨littered, nofun, fun _ => behind⟩
  · have idle : full → ∀ {t : ParseState}, NotedBehind grammar s t :=
      fun isStrict => absurd isStrict strict
    refine (ends_keywordRun [] [] (fun isStrict => absurd isStrict strict)
      ready.standing).bind ?_ fun _ _ never => never.elim
    rintro found t ⟨_, rfl, standing, _, moved, _, _, _⟩
    have littered := standing.littered
    cases isLast : List.getLast? _ with
    | none => exact ends_pure ⟨littered, nofun, fun isStrict => idle isStrict⟩
    | some last =>
        refine (ends_keywordId last).bind ?_ fun _ _ never => never.elim
        rintro keyword u ⟨rfl, _⟩
        cases keyword with
        | none => exact ends_pure ⟨littered, nofun, fun isStrict => idle isStrict⟩
        | some keyword =>
            dsimp only
            split
            · exact ends_pure ⟨littered, nofun, fun isStrict => idle isStrict⟩
            · have filled : found ≠ [] := by
                rintro rfl
                cases isLast
              have fewer := Cursor.remaining_lt standing.text (moved filled) standing.within
              refine (ends_custom [] setting (standing.text.trans same)
                (fun _ => Nat.lt_of_lt_of_le fewer shallow) standing).imp ?_ fun _ _ halted => halted
              rintro custom v ⟨⟨rfl, rewound, _⟩ | ⟨id, rfl, made, _⟩, _⟩
              · exact ⟨(standing.rewound strict rewound).littered, nofun, fun isStrict => idle isStrict⟩
              · refine ⟨made.littered, ?_, fun isStrict => idle isStrict⟩
                rintro other isFound
                cases isFound
                exact made

/-- A custom expression behind an operand, or nothing, and then the trial leaves no trace but
comments behind its keywords. -/
theorem ends_customPostfix (ready : s.Ready grammar full) (settled : s.Settled)
    (same : s.cursor.text = whole) (shallow : s.cursor.remaining ≤ depth) :
    Ends (customPostfix? grammar (segment grammar depth)) s
      (fun found t => found = none ∧ Restored s t ∧
          (full → ∀ comment ∈ t.cursor.comments,
            comment ∈ s.cursor.comments ∨ grammar.BehindKeyword s.cursor.text comment) ∨
        ∃ id, found = some id ∧ Standing grammar full s t [item id])
      (fun _ t => Halted grammar full s t) := by
  unfold customPostfix?
  split
  · exact ends_pure (Or.inl ⟨rfl, ⟨rfl, rfl, rfl, rfl, rfl, .refl _⟩, fun _ _ => Or.inl⟩)
  · rename_i supported
    have supported : grammar.supportsKeywords = true := by simpa using supported
    have still : grammar.comments.gapEnd s.cursor.text s.cursor.position = s.cursor.position := by
      rw [← ready.markers]
      exact CommentMarkers.gapEnd_of_settled settled
    simp only [ends_get_bind]
    refine (ends_triggeredBehind setting ready same shallow).bind ?_ fun _ _ halted => halted
    rintro found t ⟨littered, made, behind⟩
    have undone := littered.restored ready.sound ready.inside
    have onTrial : full → ∀ comment ∈ t.cursor.comments,
        comment ∈ s.cursor.comments ∨ grammar.BehindKeyword s.cursor.text comment := by
      intro strict comment member
      rcases behind strict comment member with old | inGap | onTrial
      · exact Or.inl old
      · rw [CommentMarkers.commentsFrom_of_settled still] at inGap
        cases inGap
      · exact Or.inr (onTrial supported)
    cases found with
    | none =>
        simp only [rollBack, ends_modify_bind]
        exact ends_pure (Or.inl ⟨rfl, undone, onTrial⟩)
    | some id =>
        simp only [ends_forest_bind]
        split
        · exact ends_pure (Or.inr ⟨id, rfl, made id rfl⟩)
        · simp only [rollBack, ends_modify_bind]
          exact ends_pure (Or.inl ⟨rfl, undone, onTrial⟩)

/-- The postfixes of an operand, up to one that it does not take. -/
theorem ends_postfixes {target passes : Nat} (context : Context)
    (standing : Standing grammar full base s (row ++ [item target]))
    (complex : ∃ found, s.forest.get? target = some found ∧ found.isToken = false)
    (same : base.cursor.text = whole) (shallow : s.cursor.remaining ≤ depth) :
    Ends (postfixes grammar (segment grammar depth) context target passes) s
      (fun run t => Standing grammar full base t (row ++ item target :: run.rejected.toList.map item) ∧
        (∀ modifiers, s.forest.Fresh modifiers target → t.forest.Fresh modifiers target) ∧
        s.cursor.position ≤ t.cursor.position)
      (fun _ t => Halted grammar full base t) := by
  induction passes generalizing s with
  | zero => exact ends_pure ⟨standing, fun _ fresh => fresh, Nat.le_refl _⟩
  | succ passes ih =>
      unfold postfixes
      refine (standing_skipGap standing).bind ?_ fun _ _ never => never.elim
      rintro _ t ⟨standing, settled, forest, text, further, _⟩
      have near := Nat.le_trans (Cursor.remaining_le text further) shallow
      have sameHere := standing.text.trans same
      rw [← forest] at complex ⊢
      -- What has been made behind the operand is attached to it, or the run ends.
      have attached : ∀ postfixed u, Standing grammar full t u [item postfixed] →
          Ends (attachPostfix target postfixed) u
            (fun taken v => Standing grammar full base v
                (row ++ if taken then [item target] else [item target, item postfixed]) ∧
              (∃ found, v.forest.get? target = some found ∧ found.isToken = false) ∧
              (∀ modifiers, t.forest.Fresh modifiers target → v.forest.Fresh modifiers target) ∧
              s.cursor.position ≤ v.cursor.position ∧ v.cursor.remaining ≤ depth)
            (fun _ v => Halted grammar full base v) := by
        intro postfixed u made
        have both := standing.append made
        rw [List.append_assoc] at both
        have beyond := made.moved_of_item (List.mem_singleton_self _)
        obtain ⟨found, here, isComplex⟩ := complex
        have still : u.forest.get? target = t.forest.get? target :=
          made.old target (Forest.get_lt_size here)
        refine (ends_attachPostfix both ⟨found, still.trans here, isComplex⟩).imp ?_
          fun _ _ halted => halted
        rintro taken v ⟨cursor, fresh, complex, standing⟩
        refine ⟨standing, complex, fun modifiers before => fresh modifiers (before.of_get still), ?_, ?_⟩
        · rw [cursor]
          omega
        · rw [cursor]
          exact Nat.le_trans (Cursor.remaining_le made.text (Nat.le_of_lt beyond)) near
      -- Behind a part that has been attached the run goes on.
      have again : ∀ v, Standing grammar full base v (row ++ [item target]) →
          (∃ found, v.forest.get? target = some found ∧ found.isToken = false) →
          (∀ modifiers, t.forest.Fresh modifiers target → v.forest.Fresh modifiers target) →
          s.cursor.position ≤ v.cursor.position → v.cursor.remaining ≤ depth →
          Ends (postfixes grammar (segment grammar depth) context target passes) v
            (fun run w => Standing grammar full base w
                (row ++ item target :: run.rejected.toList.map item) ∧
              (∀ modifiers, t.forest.Fresh modifiers target → w.forest.Fresh modifiers target) ∧
              s.cursor.position ≤ w.cursor.position)
            (fun _ w => Halted grammar full base w) := by
        intro v standing complex keeps later deeper
        refine (ih standing complex deeper).imp ?_ fun _ _ halted => halted
        rintro run w ⟨standing, fresh, more⟩
        exact ⟨standing, fun modifiers before => fresh _ (keeps _ before), Nat.le_trans later more⟩
      simp only [ends_text_bind, ends_position_bind]
      split
      · rename_i isBlock
        refine (standing.after (ends_codeBlock setting.parses sameHere standing.next settled isBlock
          near)).bind ?_ fun _ _ halted => halted
        intro block u built
        refine (attached block u built.toStanding).bind ?_ fun _ _ halted => halted
        rintro taken v ⟨standing, complex, keeps, later, deeper⟩
        cases taken with
        | false => exact ends_pure ⟨standing, keeps, later⟩
        | true =>
            simp only [Bool.not_true, Bool.false_eq_true, if_false]
            split
            · exact ends_pure ⟨standing, keeps, later⟩
            · exact again v standing complex keeps later deeper
      · refine (standing.after (ends_customPostfix setting standing.next settled sameHere near)).bind ?_
          fun _ _ halted => halted
        rintro found u (⟨rfl, restored, onTrial⟩ | ⟨id, rfl, made⟩)
        · have back := restored.position
          refine ends_pure ⟨standing.restored restored onTrial, ?_, by omega⟩
          exact fun modifiers fresh => restored.forest ▸ fresh
        · refine (attached id u made).bind ?_ fun _ _ halted => halted
          rintro taken v ⟨standing, complex, keeps, later, deeper⟩
          cases taken with
          | false => exact ends_pure ⟨standing, keeps, later⟩
          | true => exact again v standing complex keeps later deeper

end Trial

end Parse

end ExprLang
