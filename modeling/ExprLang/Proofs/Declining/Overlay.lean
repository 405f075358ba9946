import ExprLang.Proofs.Skipping
import ExprLang.Proofs.Undoing

/-!
A parse whose extensions decline, beside the parse of the same text without extensions. The cursors
stand at the same place and the forests are the same; but declined attempts may have reported faults
and noted comments, which stay.

An attempt may come across a comment without end before the parse does, perhaps inside of what is no
comment to the parse. That comment is reported once, so the place where it is said to begin may differ,
and faults about such comments are compared apart from all others.
-/

namespace ExprLang

/-- The same language without extensions. -/
def Grammar.bare (grammar : Grammar) : Grammar := { grammar with extensions := [] }

/-! What does not ask for extensions -/

namespace Grammar

variable (grammar : Grammar) (text : Text) (place : Nat)

theorem extensions_bare : grammar.bare.extensions = [] := rfl

theorem moreSpans_bare (parts : List String) :
    grammar.bare.moreSpans? text place parts = grammar.moreSpans? text place parts := by
  induction parts generalizing place with
  | nil => rfl
  | cons part rest ih =>
      unfold moreSpans?
      simp only [ih]
      rfl

theorem spellings_bare : grammar.bare.spellings text place = grammar.spellings text place := by
  have spans : ∀ parts, grammar.bare.spans? text place parts = grammar.spans? text place parts := by
    intro parts
    cases parts with
    | nil => rfl
    | cons part rest =>
        unfold spans?
        simp only [moreSpans_bare]
        rfl
  unfold spellings
  simp only [spans]
  rfl

theorem operatorAt_bare : grammar.bare.operatorAt? = grammar.operatorAt? := by
  funext text place afterOperand
  unfold operatorAt?
  rw [spellings_bare]

end Grammar

namespace Parse

variable (grammar : Grammar)

theorem keywordRun_bare : keywordRun grammar.bare = keywordRun grammar := by
  funext reportRepeats passes
  induction passes with
  | zero => rfl
  | succ passes ih =>
      funext keywords
      unfold keywordRun
      rw [ih]
      rfl

theorem codeBlock_bare : codeBlock grammar.bare = codeBlock grammar := by
  have statements : blockStatements grammar.bare = blockStatements grammar := by
    funext inner block markers start passes
    induction passes with
    | zero => rfl
    | succ passes ih =>
        unfold blockStatements
        rw [ih]
        rfl
  funext inner
  unfold codeBlock
  rw [statements]
  rfl

theorem modifiers_bare : modifiers grammar.bare = modifiers grammar := by
  funext inner passes
  induction passes with
  | zero => rfl
  | succ passes ih =>
      funext pending
      unfold modifiers operandFollows
      rw [ih, keywordRun_bare, Grammar.operatorAt_bare]
      rfl

theorem plainOperand_bare : plainOperand grammar.bare = plainOperand grammar := by
  funext inner terms
  unfold plainOperand
  rw [codeBlock_bare, Grammar.operatorAt_bare]
  rfl

theorem behindPostfixes_bare : behindPostfixes grammar.bare = behindPostfixes grammar := by
  funext draft closedByBlock
  unfold behindPostfixes
  rw [Grammar.operatorAt_bare]
  rfl

theorem rootStatements_bare : rootStatements grammar.bare = rootStatements grammar := by
  funext inner root passes
  induction passes with
  | zero => rfl
  | succ passes ih =>
      unfold rootStatements
      rw [ih]
      rfl

end Parse

namespace Grammar

/-- A state in which an attempt of an extension begins, with a nesting that suffices for the rest of the
text. -/
structure Tries (grammar : Grammar) (whole : Text) (depth : Nat) (extension : Extension)
    (trigger : Trigger) (s : ParseState) : Prop where
  proper : s.Proper
  text : s.cursor.text = whole
  markers : s.cursor.markers = grammar.comments
  offered : extension ∈ grammar.extensionsFor trigger.keyword
  token : s.forest.tokenKind? trigger.token = some (.keyword trigger.keyword)
  deep : s.cursor.remaining < depth

/-- An attempt leads from `s` to `t` and declines there. -/
def GivesUp (grammar : Grammar) (text : Text) (s t : ParseState) : Prop :=
  ∃ depth extension trigger, grammar.Tries text depth extension trigger s ∧
    Script.steps grammar (Parse.segment grammar depth) extension trigger [] extension.steps s =
      .error .declined t

/-- Every attempt declines, and none has recorded a critical fault by then. -/
def Declines (grammar : Grammar) (text : Text) : Prop :=
  ∀ depth extension trigger s, grammar.Tries text depth extension trigger s →
    ∃ t, Script.steps grammar (Parse.segment grammar depth) extension trigger [] extension.steps s =
        .error .declined t ∧
      t.faults.criticalCount = s.faults.criticalCount

/-- The fault is reported by an attempt that declines. -/
def Complains (grammar : Grammar) (text : Text) (fault : Fault) : Prop :=
  ∃ s t added, grammar.GivesUp text s t ∧ t.faults = s.faults ++ added ∧ fault ∈ added

/-- The comment is noted by an attempt that declines. -/
def Overhears (grammar : Grammar) (text : Text) (comment : Comment) : Prop :=
  ∃ s t, grammar.GivesUp text s t ∧ comment ∈ t.cursor.comments ∧ comment ∉ s.cursor.comments

end Grammar

theorem Fault.covers_start (fault : Fault) : fault.covers fault.start = true := by
  unfold covers stop
  split
  · exact beq_self_eq_true _
  · rename_i filled
    rw [Bool.and_eq_true, decide_eq_true_eq, decide_eq_true_eq]
    exact ⟨Nat.le_refl _, Nat.lt_add_of_pos_right (Nat.pos_of_ne_zero filled)⟩

/-- What the faults of a parse have in common with those of the other one, to which `complaints` have
not been added. -/
structure Faults.Overlay (complains : Fault → Prop) (faults others : Faults) : Prop where
  critical : faults.filter (·.critical) = others.filter (·.critical)
  /-- Comments without end apart, nothing gets lost. -/
  kept : (others.filter (·.code != .commentNotClosed)).Sublist faults
  added : ∀ fault ∈ faults, fault ∈ others ∨ fault.code = .commentNotClosed ∨ complains fault
  /-- A comment without end is still reported, perhaps from elsewhere. -/
  unclosed : ∀ fault ∈ others, fault.code = .commentNotClosed →
    ∃ other ∈ faults, other.code = .commentNotClosed ∧ other.covers fault.start = true
  silent : (∀ fault, ¬ complains fault) → faults = others

namespace Faults.Overlay

variable {complains : Fault → Prop} {faults others : Faults}

theorem refl (faults : Faults) : Faults.Overlay complains faults faults where
  critical := rfl
  kept := List.filter_sublist
  added _ member := Or.inl member
  unclosed fault member code := ⟨fault, member, code, fault.covers_start⟩
  silent _ := rfl

variable (overlay : Faults.Overlay complains faults others)

include overlay

theorem both (fault : Fault) : Faults.Overlay complains (faults ++ [fault]) (others ++ [fault]) where
  critical := by rw [List.filter_append, List.filter_append, overlay.critical]
  kept := by
    rw [List.filter_append]
    exact overlay.kept.append List.filter_sublist
  added other member := by
    rcases List.mem_append.mp member with old | new
    · exact (overlay.added other old).imp_left (List.mem_append_left _)
    · exact Or.inl (List.mem_append_right _ new)
  unclosed other member code := by
    rcases List.mem_append.mp member with old | new
    · obtain ⟨there, isThere, covers⟩ := overlay.unclosed other old code
      exact ⟨there, List.mem_append_left _ isThere, covers⟩
    · exact ⟨other, List.mem_append_right _ new, code, other.covers_start⟩
  silent none := by rw [overlay.silent none]

/-- An attempt has added its complaints. -/
theorem complaints {more : Faults} (calm : ∀ fault ∈ more, fault.critical = false)
    (all : ∀ fault ∈ more, complains fault) : Faults.Overlay complains (faults ++ more) others where
  critical := by
    have none : more.filter (·.critical) = [] :=
      List.filter_eq_nil_iff.mpr fun fault member => by simp [calm fault member]
    rw [List.filter_append, none, List.append_nil, overlay.critical]
  kept := overlay.kept.trans (List.sublist_append_left _ _)
  added fault member := by
    rcases List.mem_append.mp member with old | new
    · exact overlay.added fault old
    · exact Or.inr (Or.inr (all fault new))
  unclosed fault member code := by
    obtain ⟨other, isThere, covers⟩ := overlay.unclosed fault member code
    exact ⟨other, List.mem_append_left _ isThere, covers⟩
  silent none := by
    have noMore : more = [] := List.eq_nil_iff_forall_not_mem.mpr fun fault member =>
      none fault (all fault member)
    rw [noMore, List.append_nil, overlay.silent none]

/-- A comment without end is reported by this parse only. -/
theorem alone {fault : Fault} (code : fault.code = .commentNotClosed) (calm : fault.critical = false)
    (differ : faults ≠ others) : Faults.Overlay complains (faults ++ [fault]) others where
  critical := by
    rw [List.filter_append, overlay.critical]
    simp [calm]
  kept := overlay.kept.trans (List.sublist_append_left _ _)
  added other member := by
    rcases List.mem_append.mp member with old | new
    · exact overlay.added other old
    · exact Or.inr (Or.inl (List.mem_singleton.mp new ▸ code))
  unclosed other member isOpen := by
    obtain ⟨there, isThere, covers⟩ := overlay.unclosed other member isOpen
    exact ⟨there, List.mem_append_left _ isThere, covers⟩
  silent none := absurd (overlay.silent none) differ

/-- A comment without end is reported by the other parse only, since it is known to this one. -/
theorem spared {fault : Fault} (code : fault.code = .commentNotClosed) (calm : fault.critical = false)
    (known : ∃ other ∈ faults, other.code = .commentNotClosed ∧ other.covers fault.start = true)
    (differ : faults ≠ others) : Faults.Overlay complains faults (others ++ [fault]) where
  critical := by
    rw [List.filter_append, overlay.critical]
    simp [calm]
  kept := by
    rw [List.filter_append]
    simpa [code] using overlay.kept
  added other member := (overlay.added other member).imp_left (List.mem_append_left _)
  unclosed other member isOpen := by
    rcases List.mem_append.mp member with old | new
    · exact overlay.unclosed other old isOpen
    · exact List.mem_singleton.mp new ▸ known
  silent none := absurd (overlay.silent none) differ

end Faults.Overlay

/-- The parse with extensions is at `s` while the one without them is at `a`. -/
structure Overlays (grammar : Grammar) (whole : Text) (s a : ParseState) : Prop where
  proper : s.Proper
  text : s.cursor.text = whole
  textAlone : a.cursor.text = whole
  markers : s.cursor.markers = grammar.comments
  markersAlone : a.cursor.markers = grammar.comments
  position : a.cursor.position = s.cursor.position
  forest : a.forest = s.forest
  faults : Faults.Overlay (grammar.Complains whole) s.faults a.faults
  listed : s.cursor.Listed
  listedAlone : a.cursor.Listed
  comments : a.cursor.comments ⊆ s.cursor.comments
  noted : ∀ comment ∈ s.cursor.comments,
    comment ∈ a.cursor.comments ∨ grammar.Overhears whole comment

namespace Overlays

variable {grammar : Grammar} {whole : Text} {s a : ParseState} (overlays : Overlays grammar whole s a)

include overlays

theorem sameText : a.cursor.text = s.cursor.text := overlays.textAlone.trans overlays.text.symm

theorem sameMarkers : a.cursor.markers = s.cursor.markers :=
  overlays.markersAlone.trans overlays.markers.symm

theorem remaining : a.cursor.remaining = s.cursor.remaining := by
  rw [Cursor.remaining, Cursor.remaining, overlays.sameText, overlays.position]

theorem current : a.cursor.current? = s.cursor.current? := by
  simp only [Cursor.current?, Cursor.char?, overlays.sameText, overlays.position]

theorem gapEnd : a.cursor.gapEnd a.cursor.position = s.cursor.gapEnd s.cursor.position := by
  simp only [Cursor.gapEnd, overlays.sameText, overlays.sameMarkers, overlays.position]

theorem properAlone : a.Proper := by
  refine ⟨overlays.forest ▸ overlays.proper.closed, ?_⟩
  rw [overlays.position, overlays.sameText]
  exact overlays.proper.inside

theorem withForest {forest : Forest} (closed : Forest.Closed forest) :
    Overlays grammar whole { s with forest } { a with forest } :=
  { overlays with proper := ⟨closed, overlays.proper.inside⟩, forest := rfl }

theorem moved (place : Nat) : Overlays grammar whole { s with cursor := s.cursor.moveTo place }
    { a with cursor := a.cursor.moveTo place } where
  proper := ⟨overlays.proper.closed, Nat.min_le_right _ _⟩
  text := overlays.text
  textAlone := overlays.textAlone
  markers := overlays.markers
  markersAlone := overlays.markersAlone
  position := by simp only [Cursor.moveTo, overlays.sameText]
  forest := overlays.forest
  faults := overlays.faults
  listed := ⟨overlays.listed.genuine, overlays.listed.sorted⟩
  listedAlone := ⟨overlays.listedAlone.genuine, overlays.listedAlone.sorted⟩
  comments := overlays.comments
  noted := overlays.noted

theorem withFaults {faults others : Faults}
    (overlay : Faults.Overlay (grammar.Complains whole) faults others) :
    Overlays grammar whole { s with faults } { a with faults := others } :=
  { overlays with proper := ⟨overlays.proper.closed, overlays.proper.inside⟩, faults := overlay }

/-- Behind a gap. -/
theorem skipped : Overlays grammar whole { s with cursor := s.cursor.skipGap.1 }
    { a with cursor := a.cursor.skipGap.1 } where
  proper := by
    refine ⟨overlays.proper.closed, ?_⟩
    rw [Cursor.position_skipGap, Cursor.text_skipGap]
    exact CommentMarkers.gapEnd_le overlays.proper.inside
  text := s.cursor.text_skipGap.trans overlays.text
  textAlone := a.cursor.text_skipGap.trans overlays.textAlone
  markers := s.cursor.markers_skipGap.trans overlays.markers
  markersAlone := a.cursor.markers_skipGap.trans overlays.markersAlone
  position := by
    simp only [Cursor.position_skipGap, Cursor.gapEnd, overlays.sameText, overlays.sameMarkers,
      overlays.position]
  forest := overlays.forest
  faults := overlays.faults
  listed := s.cursor.hears_skipGap.listed overlays.listed
  listedAlone := a.cursor.hears_skipGap.listed overlays.listedAlone
  comments comment member := by
    have noted := (a.cursor.mem_skipGap overlays.listedAlone comment).mp member
    rw [overlays.sameText, overlays.sameMarkers, overlays.position] at noted
    exact (s.cursor.mem_skipGap overlays.listed comment).mpr (noted.imp_left (overlays.comments ·))
  noted comment member := by
    rcases (s.cursor.mem_skipGap overlays.listed comment).mp member with old | new
    · exact (overlays.noted comment old).imp_left (a.cursor.hears_skipGap.keeps ·)
    · left
      refine (a.cursor.mem_skipGap overlays.listedAlone comment).mpr (Or.inr ?_)
      rwa [overlays.sameText, overlays.sameMarkers, overlays.position]

/-- Both come across the same comment without end. -/
theorem unclosed : a.cursor.skipGap.2 = s.cursor.skipGap.2 := by
  refine Option.ext fun start => ?_
  simp only [Cursor.skipGap, Cursor.skipGapWithin_unclosed_iff, overlays.sameText,
    overlays.sameMarkers, overlays.position, overlays.remaining]

end Overlays

variable {α β : Type}

/-- Both steps end alike, with the same value or without one, and in states that overlay each other. -/
def Follows (grammar : Grammar) (whole : Text) (step alone : Parse α) (s a : ParseState)
    (ok : α → ParseState → Prop) : Prop :=
  Ends step s
    (fun value t => ∃ b, alone a = .ok value b ∧ Overlays grammar whole t b ∧ ok value t)
    (fun error t => ∃ b, alone a = .error error b ∧ Overlays grammar whole t b)

namespace Follows

variable {grammar : Grammar} {whole : Text} {s a t b : ParseState} {step alone : Parse α}
  {next nextAlone : α → Parse β} {ok mid : α → ParseState → Prop} {fine : β → ParseState → Prop}

theorem imp (follows : Follows grammar whole step alone s a mid)
    (weaker : ∀ value t, mid value t → ok value t) : Follows grammar whole step alone s a ok := by
  apply Ends.imp follows
  · rintro value t ⟨b, run, overlays, holds⟩
    exact ⟨b, run, overlays, weaker value t holds⟩
  · exact fun _ _ stopped => stopped

theorem bind (first : Follows grammar whole step alone s a mid)
    (rest : ∀ value t b, Overlays grammar whole t b → mid value t →
      Follows grammar whole (next value) (nextAlone value) t b fine) :
    Follows grammar whole (step >>= next) (alone >>= nextAlone) s a fine := by
  apply Ends.bind first
  · rintro value t ⟨b, run, overlays, holds⟩
    have follows := rest value t b overlays holds
    unfold Follows at follows
    simpa only [bind_run, run] using follows
  · rintro error t ⟨b, run, overlays⟩
    exact ⟨b, by rw [bind_run, run], overlays⟩

end Follows

theorem follows_ok {grammar : Grammar} {whole : Text} {s a t b : ParseState} {step alone : Parse α}
    {ok : α → ParseState → Prop} {value : α} (run : step s = .ok value t)
    (runAlone : alone a = .ok value b) (there : Overlays grammar whole t b) (holds : ok value t) :
    Follows grammar whole step alone s a ok :=
  ends_ok run ⟨b, runAlone, there, holds⟩

theorem follows_pure {grammar : Grammar} {whole : Text} {s a : ParseState}
    (overlays : Overlays grammar whole s a) {value : α} {ok : α → ParseState → Prop}
    (holds : ok value s) : Follows grammar whole (pure value) (pure value) s a ok :=
  follows_ok rfl rfl overlays holds

end ExprLang
