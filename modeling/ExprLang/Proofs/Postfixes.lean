import ExprLang.Proofs.Language
import ExprLang.Proofs.Undoing

/-!
Keywords in front of a custom postfix. A run of keywords ends where none is written or with one that
repeats an earlier one. Behind an operand such a repeated keyword is not reported, since the run is only
a trial; but where the trial gives a postfix it is not taken back either. All the others become keywords
of the postfix and its trigger.
-/

namespace ExprLang

open Forest (Floor)

/-- Keywords written one behind the other from a place on, each with its start. The run ends where no
keyword is written, or with one that repeats an earlier one; `known` are the earlier ones. -/
inductive Grammar.KeywordRow (grammar : Grammar) (markers : CommentMarkers) (text : Text) :
    List KeywordId → Nat → List (Nat × Keyword) → Option (Nat × Keyword) → Prop where
  | ends {known : List KeywordId} {place : Nat} :
      grammar.keywordAt? text (markers.gapEnd text place) = none →
      KeywordRow grammar markers text known place [] none
  | repeats {known : List KeywordId} {place start : Nat} {keyword : Keyword} :
      markers.gapEnd text place = start → grammar.keywordAt? text start = some keyword →
      keyword.id ∈ known →
      KeywordRow grammar markers text known place [] (some (start, keyword))
  | further {known : List KeywordId} {place start : Nat} {keyword : Keyword}
      {row : List (Nat × Keyword)} {repeated : Option (Nat × Keyword)} :
      markers.gapEnd text place = start → grammar.keywordAt? text start = some keyword →
      keyword.id ∉ known →
      KeywordRow grammar markers text (keyword.id :: known) (start + keyword.text.length) row repeated →
      KeywordRow grammar markers text known place ((start, keyword) :: row) repeated

namespace Forest

/-- The item is the token of this keyword, written at its start. -/
def IsKeyword (forest : Forest) (text : Text) (token : ItemId) (written : Nat × Keyword) : Prop :=
  forest.face? token = some (.token (.keyword written.2.id)
    (text.slice written.1 (written.1 + written.2.text.length)), written.1, written.2.text.length)

variable {forest : Forest} {text : Text} {token : ItemId} {written : Nat × Keyword}

theorem IsKeyword.congr {other : Forest} (isKeyword : forest.IsKeyword text token written)
    (same : other.face? token = forest.face? token) : other.IsKeyword text token written :=
  same.trans isKeyword

theorem IsKeyword.lt_size (isKeyword : forest.IsKeyword text token written) : token < forest.size :=
  lt_size_of_face isKeyword

theorem tokenKind_eq_face :
    forest.tokenKind? token = (forest.face? token).bind fun face => match face.1 with
      | .token kind _ => some kind
      | _ => none := by
  rw [tokenKind?, face?]
  cases forest.get? token <;> rfl

theorem IsKeyword.tokenKind (isKeyword : forest.IsKeyword text token written) :
    forest.tokenKind? token = some (.keyword written.2.id) := by
  rw [tokenKind_eq_face, isKeyword, Option.bind_some]

/-- What lies below the floor has the same face. -/
theorem Untouched.face {floor : Nat} {before after : Forest} (untouched : Untouched floor before after)
    {id : Nat} (below : id < floor) : after.face? id = before.face? id := by
  have faces : ∀ forest : Forest, forest.face? id =
      ((forest.get? id).map (Item.within floor)).map fun item => (item.kind, item.start, item.length) :=
    fun forest => by
      rw [Option.map_map]
      rfl
  rw [faces, faces, untouched.items id below]

theorem tokenKind_congr {other : Forest} (same : other.face? token = forest.face? token) :
    other.tokenKind? token = forest.tokenKind? token := by
  rw [tokenKind_eq_face, same, ← tokenKind_eq_face]

/-- With a token more, its keyword is known as well. -/
theorem known_snoc {other : Forest} {tokens : List ItemId} {known : List KeywordId}
    (among : ∀ id, id ∈ known ↔ ∃ token ∈ tokens, forest.tokenKind? token = some (.keyword id))
    (same : ∀ token ∈ tokens, other.face? token = forest.face? token)
    (isKeyword : other.IsKeyword text token written) (id : KeywordId) :
    id ∈ written.2.id :: known ↔
      ∃ older ∈ tokens ++ [token], other.tokenKind? older = some (.keyword id) := by
  rw [List.mem_cons, among]
  constructor
  · rintro (rfl | ⟨older, member, kind⟩)
    · exact ⟨token, List.mem_append_right _ List.mem_cons_self, isKeyword.tokenKind⟩
    · exact ⟨older, List.mem_append_left _ member, (tokenKind_congr (same older member)).trans kind⟩
  · rintro ⟨older, member, kind⟩
    rcases List.mem_append.mp member with before | new
    · exact Or.inr ⟨older, before, (tokenKind_congr (same older before)).symm.trans kind⟩
    · rw [List.mem_singleton.mp new, isKeyword.tokenKind] at kind
      cases kind
      exact Or.inl rfl

end Forest

namespace Parse

variable {grammar : Grammar} {inner : Inner} {s t : ParseState}

/-- A run of keywords on trial makes a token of each keyword of the row, and of nothing else. -/
theorem ends_keywordRun_row {passes : Nat} {keywords : List ItemId} {known : List KeywordId}
    (among : ∀ id, id ∈ known ↔ ∃ token ∈ keywords, s.forest.tokenKind? token = some (.keyword id))
    (old : ∀ token ∈ keywords, token < s.forest.size) (enough : s.cursor.remaining < passes) :
    Ends (keywordRun grammar false passes keywords) s
      (fun found t => ∃ added row repeated, found = keywords ++ added ∧
        grammar.KeywordRow s.cursor.markers s.cursor.text known s.cursor.position row repeated ∧
        List.Forall₂ (t.forest.IsKeyword s.cursor.text) added row ∧
        ∀ id < s.forest.size, t.forest.face? id = s.forest.face? id)
      (fun _ _ => False) := by
  induction passes generalizing s keywords known with
  | zero => exact absurd enough (Nat.not_lt_zero _)
  | succ passes ih =>
      unfold keywordRun
      refine ends_skipGap.bind ?_ fun _ _ never => never
      rintro _ t ⟨forest, cursor⟩
      have text : t.cursor.text = s.cursor.text := cursor ▸ s.cursor.text_skipGap
      have markers : t.cursor.markers = s.cursor.markers := cursor ▸ s.cursor.markers_skipGap
      have position : t.cursor.position = s.cursor.markers.gapEnd s.cursor.text s.cursor.position :=
        cursor ▸ s.cursor.position_skipGap
      have further : s.cursor.position ≤ t.cursor.position := position ▸ CommentMarkers.le_gapEnd
      simp only [ends_position_bind, ends_text_bind]
      split
      · rename_i none
        refine ends_pure ⟨[], [], _, (List.append_nil _).symm, .ends ?_, .nil, fun id _ => by rw [forest]⟩
        rwa [text, position] at none
      · rename_i keyword found'
        obtain ⟨filled, inside⟩ := Grammar.keywordAt_inside found'
        have long := Grammar.length_slice_of_inside inside
        rw [text] at found' inside long
        simp only [ends_slice_bind, skip, ends_modify_bind, ends_forest_bind]
        have isKnown : (keywords.any fun token =>
            t.forest.tokenKind? token == some (.keyword keyword.id)) = true ↔ keyword.id ∈ known := by
          rw [among, List.any_eq_true, forest]
          simp only [beq_iff_eq]
        split
        -- The run ends at a keyword that is in it already.
        · rename_i repeated
          simp only [Bool.false_eq_true, if_false]
          refine ends_pure ⟨[], [], _, (List.append_nil _).symm,
            .repeats position.symm found' (isKnown.mp repeated), .nil, fun id _ => by rw [← forest]⟩
        · rename_i new
          simp only [ends_createToken_bind]
          generalize made : ({ t with
            cursor := t.cursor.skip keyword.text.length
            forest := (t.forest.createToken (.keyword keyword.id)
              (t.cursor.text.slice t.cursor.position (t.cursor.position + keyword.text.length))
              t.cursor.position).2 } : ParseState) = u
          have same : ∀ id < s.forest.size, u.forest.face? id = s.forest.face? id := by
            intro id inside
            rw [← made, ← forest]
            exact Forest.face_push_old (forest ▸ inside)
          have token : u.forest.IsKeyword s.cursor.text t.forest.size (t.cursor.position, keyword) := by
            rw [← made, Forest.IsKeyword, ← text]
            exact Forest.face_push_new.trans (by rw [text, long])
          have size : u.forest.size = s.forest.size + 1 := by
            rw [← made, ← forest]
            exact Forest.size_push _
          have reached : u.cursor.position = t.cursor.position + keyword.text.length := by
            rw [← made]
            exact Nat.min_eq_left (text ▸ inside)
          have textHere : u.cursor.text = s.cursor.text := by rw [← made, ← text]; rfl
          have markersHere : u.cursor.markers = s.cursor.markers := by rw [← made, ← markers]; rfl
          have more := Forest.known_snoc among (fun other member => same other (old other member)) token
          refine (@ih u (keywords ++ [t.forest.size]) (keyword.id :: known) more ?_ ?_).imp ?_
            fun _ _ never => never
          · intro other member
            rcases List.mem_append.mp member with before | new
            · exact size ▸ Nat.lt_succ_of_lt (old other before)
            · exact List.mem_singleton.mp new ▸ token.lt_size
          · rw [Cursor.remaining, reached, textHere]
            rw [Cursor.remaining] at enough
            omega
          · rintro found v ⟨added, row, repeated, rfl, isRow, tokens, faces⟩
            rw [markersHere, textHere, reached] at isRow
            rw [textHere] at tokens
            refine ⟨t.forest.size :: added, (t.cursor.position, keyword) :: row, repeated, by simp,
              .further position.symm found' (isKnown.not.mp new) isRow,
              .cons (token.congr (faces _ token.lt_size)) tokens, fun id inside => ?_⟩
            rw [faces id (size ▸ Nat.lt_succ_of_lt inside), same id inside]

/-- What an item owns, and that all items look as before. -/
structure Gathered (s t : ParseState) (owner : ItemId) (keywords regular : List ItemId) : Prop where
  keywords : (t.forest.parts owner).keywords = keywords
  regular : (t.forest.parts owner).regular = regular
  faces : ∀ id, t.forest.face? id = s.forest.face? id

section Attach

variable {owner : ItemId} {refused : AttachError → Parse Unit} {keywords regular : List ItemId}
  (stops : ∀ error s, Ends (refused error) s (fun _ _ => False) fun _ _ => True)

include stops

/-- Attaching makes a link, or else the parser stops. -/
theorem ends_attachOr_link {part : ItemId} {place : Section} {isChild : Bool} :
    Ends (attachOr refused (·.attach owner part place isChild)) s
      (fun _ t => t = { s with forest := s.forest.link owner part place isChild } ∧ owner < s.forest.size)
      (fun _ _ => True) := by
  unfold attachOr
  simp only [ends_forest_bind]
  cases attached : s.forest.attach owner part place isChild with
  | error error => exact (stops error s).imp (fun _ _ never => never.elim) fun _ _ always => always
  | ok next =>
      obtain ⟨rfl, inside, _⟩ := Forest.attach_ok attached
      exact ends_ok rfl ⟨rfl, inside⟩

theorem ends_addKeyword_gathers {part : ItemId} (gathered : Gathered s t owner keywords regular) :
    Ends (attachOr refused (·.addKeyword owner part)) t
      (fun _ u => Gathered s u owner (keywords ++ [part]) regular) (fun _ _ => True) := by
  refine (ends_attachOr_link stops).imp ?_ fun _ _ always => always
  rintro _ u ⟨rfl, inside⟩
  have parts := @Forest.parts_link_owner t.forest owner part .keywords false inside
  refine ⟨?_, ?_, fun id => Forest.face_link.trans (gathered.faces id)⟩
  · rw [parts, ← gathered.keywords]
    rfl
  · rw [parts, ← gathered.regular]
    rfl

theorem ends_addRegular_gathers {part : ItemId} {isChild : Bool}
    (gathered : Gathered s t owner keywords regular) :
    Ends (attachOr refused (·.attach owner part .regular isChild)) t
      (fun _ u => Gathered s u owner keywords (regular ++ [part])) (fun _ _ => True) := by
  refine (ends_attachOr_link stops).imp ?_ fun _ _ always => always
  rintro _ u ⟨rfl, inside⟩
  have parts := @Forest.parts_link_owner t.forest owner part .regular isChild inside
  refine ⟨?_, ?_, fun id => Forest.face_link.trans (gathered.faces id)⟩
  · rw [parts, ← gathered.keywords]
    cases isChild <;> rfl
  · rw [parts, ← gathered.regular]
    cases isChild <;> rfl

theorem ends_addKeywords_gathers {parts : List ItemId} (gathered : Gathered s t owner keywords regular) :
    Ends (parts.forM fun part => attachOr refused (·.addKeyword owner part)) t
      (fun _ u => Gathered s u owner (keywords ++ parts) regular) (fun _ _ => True) := by
  induction parts generalizing t keywords with
  | nil => exact ends_pure (by rwa [List.append_nil])
  | cons part rest ih =>
      rw [List.forM]
      refine (ends_addKeyword_gathers stops gathered).bind ?_ fun _ _ always => always
      intro _ u next
      have later := ih next
      rwa [List.append_assoc, List.singleton_append] at later

end Attach

/-- Where every step adds a regular part, so do they all. -/
theorem ends_forM_gathers {step : CustomPart → Parse Unit} {owner : ItemId}
    {keywords regular : List ItemId}
    (each : ∀ part u regular, Gathered s u owner keywords regular →
      Ends (step part) u (fun _ v => ∃ added, Gathered s v owner keywords (regular ++ [added]))
        (fun _ _ => True))
    (parts : List CustomPart) (gathered : Gathered s t owner keywords regular) :
    Ends (parts.forM step) t (fun _ u => ∃ more, Gathered s u owner keywords (regular ++ more))
      (fun _ _ => True) := by
  induction parts generalizing t regular with
  | nil => exact ends_pure ⟨[], by rwa [List.append_nil]⟩
  | cons part rest ih =>
      rw [List.forM]
      refine (each part t regular gathered).bind ?_ fun _ _ always => always
      rintro _ u ⟨added, next⟩
      refine (ih next).imp ?_ fun _ _ always => always
      rintro _ v ⟨more, later⟩
      exact ⟨added :: more, by rwa [List.append_assoc, List.singleton_append] at later⟩

/-- A custom expression has the keywords in front of its trigger, and begins with the trigger. -/
theorem ends_createCustom_gathers (extension : Extension) (trigger : Trigger) (parts : List CustomPart) :
    Ends (createCustom extension trigger parts) s
      (fun item t => (t.forest.parts item).keywords = trigger.before ∧
        (∃ more, (t.forest.parts item).regular = trigger.token :: more) ∧
        ∀ id < s.forest.size, t.forest.face? id = s.forest.face? id) (fun _ _ => True) := by
  have stops : ∀ start (error : AttachError) s, Ends
      (Parse.stop start 0 (.customExpressionFailed error.message) : Parse Unit) s
      (fun _ _ => False) fun _ _ => True := fun _ _ _ => ends_error rfl trivial
  unfold createCustom
  simp only [ends_forest_bind, ends_create_bind]
  generalize s.forest.start (trigger.before.head?.getD trigger.token) = start
  generalize made : ({ s with forest := (s.forest.create (.custom extension.category trigger.keyword
    extension.name extension.accepts) start).2 } : ParseState) = u
  have bare : u.forest.parts s.forest.size = {} := by
    rw [← made]
    have complex : (ItemKind.custom extension.category trigger.keyword extension.name
        extension.accepts).isToken = false := rfl
    exact Forest.parts_of_create complex start
  have begun : Gathered u u s.forest.size [] [] := ⟨by rw [bare], by rw [bare], fun _ => rfl⟩
  have old : ∀ id < s.forest.size, u.forest.face? id = s.forest.face? id := fun id inside => by
    rw [← made]
    exact Forest.face_push_old inside
  refine (ends_addKeywords_gathers (stops start) begun).bind ?_ fun _ _ always => always
  intro _ v keywords
  refine (ends_addRegular_gathers (stops start) keywords).bind ?_ fun _ _ always => always
  intro _ w triggered
  -- The parts of the script come behind the trigger.
  refine (ends_forM_gathers (fun part w regular gathered => ?_) parts triggered).bind ?_
    fun _ _ always => always
  · cases part with
    | token part =>
        exact (ends_addRegular_gathers (stops start) gathered).imp (fun _ _ next => ⟨part, next⟩)
          fun _ _ always => always
    | child part =>
        exact (ends_addRegular_gathers (stops start) gathered).imp (fun _ _ next => ⟨part, next⟩)
          fun _ _ always => always
  · rintro _ x ⟨more, gathered⟩
    exact ends_pure ⟨gathered.keywords, ⟨more, gathered.regular⟩,
      fun id inside => (gathered.faces id).trans (old id inside)⟩

/-- Whatever the extensions before it did, the one that gives an expression gets the same keywords. -/
theorem ends_tryExtensions_gathers {floor : Nat} (inside : InnerContained inner) {trigger : Trigger}
    {start : Nat} {extensions : List Extension} (holds : Floor floor s.forest) :
    Ends (tryExtensions grammar inner trigger start extensions) s
      (fun found t => ∀ item ∈ found, (t.forest.parts item).keywords = trigger.before ∧
        (∃ more, (t.forest.parts item).regular = trigger.token :: more) ∧
        ∀ id < floor, t.forest.face? id = s.forest.face? id) (fun _ _ => True) := by
  induction extensions generalizing s with
  | nil => exact ends_pure (by simp)
  | cons extension rest ih =>
      unfold tryExtensions
      simp only [ends_criticalCount_bind, ends_size_bind]
      have wild : Wild floor (Script.steps grammar inner extension trigger [] extension.steps) :=
        Script.wild_steps extension trigger inside [] extension.steps
      refine Ends.bind (above_runScript wild holds) ?_ (fun _ _ never => never.elim)
      rintro outcome t ⟨above, _⟩
      have old : ∀ id < floor, t.forest.face? id = s.forest.face? id := fun _ => above.untouched.face
      simp only [ends_criticalCount_bind]
      cases outcome with
      | declined =>
          dsimp only
          split
          · exact ends_bind (ends_throw trivial)
          · simp only [moveTo, changeForest, ends_modify_bind]
            have cut := Forest.untouched_truncate holds.size above.holds
            refine (ih (Forest.floor_truncate holds.size above.holds)).imp ?_ fun _ _ always => always
            intro found u made item isFound
            obtain ⟨keywords, regular, faces⟩ := made item isFound
            exact ⟨keywords, regular, fun id below =>
              (faces id below).trans ((cut.face below).trans (old id below))⟩
      | finished parts =>
          refine (ends_createCustom_gathers extension trigger parts).bind ?_ fun _ _ always => always
          rintro item u ⟨keywords, regular, faces⟩
          split
          · exact ends_bind (ends_throw trivial)
          · refine ends_pure ?_
            rintro _ ⟨⟩
            exact ⟨keywords, regular, fun id below =>
              (faces id (Nat.lt_of_lt_of_le below above.holds.size)).trans (old id below)⟩
      | failed error =>
          dsimp only
          split
          · exact ends_bind (ends_throw trivial)
          · exact ends_error rfl trivial

/-- An item with the keywords that are written from `place` on, the last of them as its trigger; only one
that repeats another is left out. -/
def TakesKeywords (grammar : Grammar) (s t : ParseState) (item : ItemId) : Prop :=
  ∃ row repeated, grammar.KeywordRow s.cursor.markers s.cursor.text [] s.cursor.position row repeated ∧
    List.Forall₂ (t.forest.IsKeyword s.cursor.text)
      ((t.forest.parts item).keywords ++ (t.forest.parts item).regular.take 1) row

theorem ends_triggeredBehind_takes (inside : InnerContained inner) (closed : Forest.Closed s.forest) :
    Ends (triggeredBehind? grammar inner) s (fun found t => ∀ item ∈ found, TakesKeywords grammar s t item)
      (fun _ _ => True) := by
  unfold triggeredBehind?
  simp only [ends_remaining_bind]
  have above := (contained_keywordRun false (s.cursor.remaining + 1) [] :
    Contained s.forest.size _ (keywordRun grammar false (s.cursor.remaining + 1) [])) s closed.at_size
  refine Ends.bind (above.and (@ends_keywordRun_row _ _ _ _ [] (by simp) (by simp)
    (Nat.lt_succ_self _))) ?_ fun _ _ _ => trivial
  rintro keywords t ⟨⟨_, aboveRun, _⟩, _, row, repeated, rfl, isRow, tokens, _⟩
  have closedRun := aboveRun.closed closed
  cases isLast : keywords.getLast? with
  | none => exact ends_pure (by simp)
  | some last =>
      refine (ends_keywordId last).bind ?_ fun _ _ never => never.elim
      rintro _ _ ⟨rfl, _⟩
      split
      · exact ends_pure (by simp)
      · split
        · exact ends_pure (by simp)
        · unfold custom?
          simp only [isLast]
          refine (ends_keywordId last).bind ?_ fun _ _ never => never.elim
          rintro _ _ ⟨rfl, _⟩
          split
          · exact ends_pure (by simp)
          · simp only [ends_position_bind]
            refine (ends_tryExtensions_gathers inside closedRun.at_size).imp ?_ fun _ _ always => always
            intro found u made item isFound
            obtain ⟨before, ⟨more, regular⟩, faces⟩ := made item isFound
            refine ⟨row, repeated, isRow, ?_⟩
            have whole : keywords.dropLast ++ [last] = keywords := by
              obtain ⟨front, rfl⟩ := List.getLast?_eq_some_iff.mp isLast
              rw [List.dropLast_concat]
            rw [before, regular, List.take_succ_cons, List.take_zero, whole]
            exact tokens.imp fun token written isKeyword =>
              isKeyword.congr (faces token isKeyword.lt_size)

theorem ends_customPostfix_takes (inside : InnerContained inner) (closed : Forest.Closed s.forest) :
    Ends (customPostfix? grammar inner) s (fun found t => ∀ item ∈ found, TakesKeywords grammar s t item)
      (fun _ _ => True) := by
  unfold customPostfix?
  split
  · exact ends_pure (by simp)
  · simp only [ends_get_bind]
    refine (ends_triggeredBehind_takes inside closed).bind ?_ fun _ _ always => always
    intro found t takes
    cases found with
    | none => exact ends_bind (ends_ok rfl (ends_pure (by simp)))
    | some item =>
        simp only [ends_forest_bind]
        split
        · exact ends_pure takes
        · exact ends_bind (ends_ok rfl (ends_pure (by simp)))

end Parse

namespace Grammar

/-- A custom postfix has the keywords that are written behind its operand, in order and as tokens at
their starts: the last of them is its trigger, the ones before are its keywords. Only a keyword that
repeats one of them, and ends the run with that, is not among its parts. -/
theorem custom_postfix_takes_keywords (grammar : Grammar) (depth : Nat) (s t : ParseState) (item : ItemId)
    (proper : s.Proper)
    (run : Parse.customPostfix? grammar (Parse.segment grammar depth) s = .ok (some item) t) :
    ∃ row repeated, grammar.KeywordRow s.cursor.markers s.cursor.text [] s.cursor.position row repeated ∧
      List.Forall₂ (t.forest.IsKeyword s.cursor.text)
        ((t.forest.parts item).keywords ++ (t.forest.parts item).regular.take 1) row :=
  (Parse.ends_customPostfix_takes (Parse.contained_segment grammar depth) proper.closed).of_ok run item rfl

/-- An extension that takes the word behind its keyword for a postfix. -/
def postfixExtension : Extension where
  name := "behind"
  keywords := [1]
  category := .postfixed
  accepts := ""
  steps := [.skipSpaces, .word]

/-- Behind `x`, where a keyword is repeated before the word that it triggers a postfix for. -/
def beforeRepeat : ParseState :=
  let s := (sampleGrammar [postfixExtension]).initialState (Text.ofString "x const word word y")
  { s with cursor := s.cursor.moveTo 1 }

theorem takes_keywords_before_repeat :
    beforeRepeat.Proper ∧
      ∃ item t, Parse.customPostfix? (sampleGrammar [postfixExtension])
          (Parse.segment (sampleGrammar [postfixExtension]) 8) beforeRepeat = .ok (some item) t ∧
        (t.forest.parts item).keywords = [1] ∧ (t.forest.parts item).regular = [2, 3] ∧
        ∃ row repeated, (sampleGrammar [postfixExtension]).KeywordRow beforeRepeat.cursor.markers
            beforeRepeat.cursor.text [] beforeRepeat.cursor.position row repeated ∧
          List.Forall₂ (t.forest.IsKeyword beforeRepeat.cursor.text)
            ((t.forest.parts item).keywords ++ (t.forest.parts item).regular.take 1) row := by
  have proper : beforeRepeat.Proper :=
    ⟨(sampleGrammar [postfixExtension]).closed_initialState (Text.ofString "x const word word y"),
      by decide +kernel⟩
  obtain ⟨found, t, run, isSome, parts⟩ : ∃ found t,
      Parse.customPostfix? (sampleGrammar [postfixExtension])
          (Parse.segment (sampleGrammar [postfixExtension]) 8) beforeRepeat = .ok found t ∧
        found.isSome = true ∧ ∀ item ∈ found,
          (t.forest.parts item).keywords = [1] ∧ (t.forest.parts item).regular = [2, 3] :=
    Ends.exists_ok (by decide +kernel)
  obtain ⟨item, rfl⟩ := Option.isSome_iff_exists.mp isSome
  obtain ⟨keywords, regular⟩ := parts item rfl
  exact ⟨proper, item, t, run, keywords, regular,
    custom_postfix_takes_keywords _ 8 beforeRepeat t item proper run⟩

/-- The keyword that repeats another is consumed, and it is neither a part of the postfix nor reported. -/
theorem repeat_is_lost_before_postfix :
    ∃ item t, Parse.customPostfix? (sampleGrammar [postfixExtension])
        (Parse.segment (sampleGrammar [postfixExtension]) 8) beforeRepeat = .ok (some item) t ∧
      (sampleGrammar [postfixExtension]).KeywordRow beforeRepeat.cursor.markers
        beforeRepeat.cursor.text [] beforeRepeat.cursor.position [(2, ⟨2, "const"⟩), (8, ⟨1, "word"⟩)]
        (some (13, ⟨1, "word"⟩)) ∧
      (∀ part ∈ (t.forest.parts item).all, t.forest.start part ≠ 13) ∧ t.faults = [] := by
  obtain ⟨found, t, run, isSome, faults, parts⟩ : ∃ found t,
      Parse.customPostfix? (sampleGrammar [postfixExtension])
          (Parse.segment (sampleGrammar [postfixExtension]) 8) beforeRepeat = .ok found t ∧
        found.isSome = true ∧ t.faults = [] ∧
        ∀ item ∈ found, ∀ part ∈ (t.forest.parts item).all, t.forest.start part ≠ 13 :=
    Ends.exists_ok (by decide +kernel)
  have row : (sampleGrammar [postfixExtension]).KeywordRow beforeRepeat.cursor.markers
      beforeRepeat.cursor.text [] beforeRepeat.cursor.position [(2, ⟨2, "const"⟩), (8, ⟨1, "word"⟩)]
      (some (13, ⟨1, "word"⟩)) := by
    refine .further (by decide +kernel) (by decide +kernel) (by decide) ?_
    refine .further (by decide +kernel) (by decide +kernel) (by decide) ?_
    exact .repeats (by decide +kernel) (by decide +kernel) (by decide)
  obtain ⟨item, rfl⟩ := Option.isSome_iff_exists.mp isSome
  exact ⟨item, t, run, row, parts item rfl, faults⟩

end Grammar

end ExprLang
