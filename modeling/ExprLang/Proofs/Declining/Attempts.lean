import ExprLang.Proofs.Declining.Steps

/-!
Attempts that decline. In front of an expression the parser goes back to where the attempt began, and a
cut takes away what it has made; behind an operand the keywords that have been tried are taken back, too.
So an attempt leaves no more behind than its complaints and the comments it has noted, and behind an
operand not even the complaints.
-/

namespace ExprLang

variable {grammar : Grammar} {whole : Text} {s a t b : ParseState} {α β : Type}

namespace Overlays

variable (overlays : Overlays grammar whole s a)

include overlays

/-- Going back from an attempt that has given up. -/
theorem givenUp (gives : grammar.GivesUp whole s t) (above : Above s.forest.size s t)
    (logged : s.faults <+: t.faults) (calm : t.faults.criticalCount = s.faults.criticalCount) :
    Overlays grammar whole { t with
      cursor := t.cursor.moveTo s.cursor.position
      forest := t.forest.truncate s.forest.size } a := by
  have forest : t.forest.truncate s.forest.size = s.forest :=
    above.untouched.truncate above.holds overlays.proper.closed (above.closed overlays.proper.closed)
  have position : (t.cursor.moveTo s.cursor.position).position = s.cursor.position := by
    simp only [Cursor.moveTo, above.text]
    exact Nat.min_eq_left overlays.proper.inside
  obtain ⟨added, sameFaults, none⟩ := calm_of_count logged (Nat.not_lt_of_le (Nat.le_of_eq calm))
  have complains : ∀ fault ∈ added, grammar.Complains whole fault := fun fault member =>
    ⟨s, t, added, gives, sameFaults, member⟩
  have listed := above.heard.listed overlays.listed
  constructor
  case proper =>
    refine ⟨?_, Nat.min_le_right _ _⟩
    dsimp only
    rw [forest]
    exact overlays.proper.closed
  case text => exact above.text.trans overlays.text
  case textAlone => exact overlays.textAlone
  case markers => exact above.markers.trans overlays.markers
  case markersAlone => exact overlays.markersAlone
  case position => exact overlays.position.trans position.symm
  case forest => exact overlays.forest.trans forest.symm
  case faults => exact sameFaults ▸ overlays.faults.complaints none complains
  case listed => exact ⟨listed.genuine, listed.sorted⟩
  case listedAlone => exact overlays.listedAlone
  case comments => exact fun comment member => above.heard.keeps (overlays.comments member)
  case noted =>
    intro comment member
    by_cases old : comment ∈ s.cursor.comments
    · exact overlays.noted comment old
    · exact Or.inr ⟨s, t, gives, member, old⟩

/-- Going back in both parses, but for the comments that have been noted in between. -/
theorem rolledBack (there : Overlays grammar whole t b) (above : Above s.forest.size s t)
    (logged : s.faults <+: t.faults) (aboveAlone : Above a.forest.size a b)
    (loggedAlone : a.faults <+: b.faults) : ∃ u v, Parse.rollBack s t = .ok () u ∧
      Parse.rollBack a b = .ok () v ∧ Overlays grammar whole u v ∧
        u.cursor.remaining = s.cursor.remaining := by
  obtain ⟨u, back⟩ : ∃ u, Parse.rollBack s t = .ok () u := ⟨_, rfl⟩
  obtain ⟨v, backAlone⟩ : ∃ v, Parse.rollBack a b = .ok () v := ⟨_, rfl⟩
  obtain ⟨position, faults, forest⟩ := Parse.undone_of_rollBack overlays.proper above logged back
  obtain ⟨positionAlone, faultsAlone, forestAlone⟩ :=
    Parse.undone_of_rollBack overlays.properAlone aboveAlone loggedAlone backAlone
  have text : u.cursor.text = s.cursor.text := by
    cases back
    exact above.text
  refine ⟨u, v, back, backAlone, ?_, by rw [Cursor.remaining, Cursor.remaining, text, position]⟩
  constructor
  case proper =>
    refine ⟨forest ▸ overlays.proper.closed, ?_⟩
    rw [position, text]
    exact overlays.proper.inside
  case text => exact text.trans overlays.text
  case position => rw [position, positionAlone, overlays.position]
  case forest => rw [forest, forestAlone, overlays.forest]
  case faults =>
    rw [faults, faultsAlone]
    exact overlays.faults
  all_goals
    cases back
    cases backAlone
  case textAlone => exact there.textAlone
  case markers => exact there.markers
  case markersAlone => exact there.markersAlone
  case listed => exact ⟨there.listed.genuine, there.listed.sorted⟩
  case listedAlone => exact ⟨there.listedAlone.genuine, there.listedAlone.sorted⟩
  case comments => exact there.comments
  case noted => exact there.noted

end Overlays

namespace Parse

/-! Keywords -/

/-- How many characters may be left where these keywords have been read: the first of them takes one. -/
def leeway (limit : Nat) (keywords : List ItemId) : Nat :=
  if keywords.isEmpty then limit + 1 else limit

theorem le_leeway (limit : Nat) (keywords : List ItemId) : limit ≤ leeway limit keywords := by
  unfold leeway
  split
  · exact Nat.le_succ limit
  · exact Nat.le_refl limit

theorem leeway_le (limit : Nat) (keywords : List ItemId) : leeway limit keywords ≤ limit + 1 := by
  unfold leeway
  split
  · exact Nat.le_refl _
  · exact Nat.le_succ limit

theorem leeway_of_nil {limit : Nat} {keywords : List ItemId} (none : keywords = []) :
    leeway limit keywords = limit + 1 := if_pos (List.isEmpty_iff.mpr none)

theorem leeway_of_ne {limit : Nat} {keywords : List ItemId} (filled : keywords ≠ []) :
    leeway limit keywords = limit := if_neg (mt List.isEmpty_iff.mp filled)

theorem follows_keywordRun {limit : Nat} (reportRepeats : Bool) (passes : Nat) : ∀ keywords s a,
    Overlays grammar whole s a → s.cursor.remaining < leeway limit keywords →
    Follows grammar whole (keywordRun grammar reportRepeats passes keywords)
      (keywordRun grammar reportRepeats passes keywords) s a
      fun result t => t.cursor.remaining < leeway limit result ∧ t.cursor.remaining ≤ s.cursor.remaining := by
  induction passes with
  | zero => exact fun keywords s a overlays near => follows_pure overlays ⟨near, Nat.le_refl _⟩
  | succ passes ih =>
      intro keywords s a overlays near
      unfold keywordRun
      refine (Echoes.follows s a overlays near).bind fun _ t b there less => ?_
      refine follows_position_bind there (follows_text_bind there ?_)
      cases found : grammar.keywordAt? t.cursor.text t.cursor.position with
      | none => exact follows_pure there ⟨Nat.lt_of_le_of_lt less near, less⟩
      | some keyword =>
          obtain ⟨filled, inside⟩ := Grammar.keywordAt_inside found
          refine follows_slice_bind there ((follows_skip there _).bind fun _ u c beyond moved => ?_)
          -- The keyword has taken a character at least.
          have fewer : u.cursor.remaining < s.cursor.remaining := by
            refine Nat.lt_of_lt_of_le ?_ less
            simp only [moved, Cursor.skip, Cursor.moveTo, Cursor.remaining]
            omega
          have nearBeyond : u.cursor.remaining < limit := by
            have bound := leeway_le limit keywords
            omega
          refine follows_forest_bind beyond ?_
          split
          · have still : ∀ v d : ParseState, Overlays grammar whole v d → v.cursor = u.cursor →
                Follows grammar whole (pure keywords) (pure keywords) v d
                  fun result w => w.cursor.remaining < leeway limit result ∧
                    w.cursor.remaining ≤ s.cursor.remaining := fun v d atop same =>
              follows_pure atop ⟨same ▸ Nat.lt_of_lt_of_le nearBeyond (le_leeway limit keywords),
                same ▸ Nat.le_of_lt fewer⟩
            split
            · exact (follows_addFault beyond _).bind fun _ v d atop same => still v d atop same
            · exact still u c beyond rfl
          · refine (Echoes.follows u c beyond nearBeyond).bind fun token v d atop same => ?_
            refine (ih _ v d atop ?_).imp fun _ w holds => ⟨holds.1, ?_⟩
            · rw [leeway_of_ne (List.concat_ne_nil _ _)]
              exact Nat.lt_of_le_of_lt same nearBeyond
            · exact Nat.le_trans holds.2 (Nat.le_trans same (Nat.le_of_lt fewer))

/-! Attempts in front of an expression -/

section Declining

variable (declines : grammar.Declines whole) {depth : Nat} (overlays : Overlays grammar whole s a)

include declines overlays

/-- All extensions that a keyword triggers decline, one after the other. -/
theorem ends_tryExtensions_declined {trigger : Trigger} {extensions : List Extension}
    (offered : ∀ extension ∈ extensions, extension ∈ grammar.extensionsFor trigger.keyword)
    (token : s.forest.tokenKind? trigger.token = some (.keyword trigger.keyword))
    (near : s.cursor.remaining < depth) :
    Ends (tryExtensions grammar (segment grammar depth) trigger s.cursor.position extensions) s
      (fun found t => found = none ∧ Overlays grammar whole t a) fun _ _ => False := by
  induction extensions generalizing s with
  | nil => exact ends_pure ⟨rfl, overlays⟩
  | cons extension rest ih =>
      have tries : grammar.Tries whole depth extension trigger s :=
        ⟨overlays.proper, overlays.text, overlays.markers, offered extension List.mem_cons_self, token, near⟩
      obtain ⟨t, run, calm⟩ := declines depth extension trigger s tries
      have wild : Wild s.forest.size (Script.steps grammar (segment grammar depth) extension trigger []
          extension.steps) := Script.wild_steps extension trigger (contained_segment grammar depth) [] _
      obtain ⟨above, logged⟩ := (wild s overlays.proper.closed.at_size).of_error run
      have back := overlays.givenUp ⟨depth, extension, trigger, tries, run⟩ above logged calm
      have outcome : runScript (Script.steps grammar (segment grammar depth) extension trigger []
          extension.steps) s = .ok .declined t := by rw [runScript, run]
      unfold tryExtensions
      simp only [ends_criticalCount_bind, ends_size_bind]
      refine ends_bind (ends_ok outcome ?_)
      simp only [ends_criticalCount_bind, calm, Nat.lt_irrefl, if_false, moveTo,
        changeForest, ends_modify_bind]
      -- The rest begins where this attempt has begun.
      have position := overlays.position.symm.trans back.position
      have forest := overlays.forest.symm.trans back.forest
      have again := ih back (fun other member => offered other (List.mem_cons_of_mem _ member))
        (forest ▸ token) (by rwa [← back.remaining, overlays.remaining])
      rwa [← position] at again

theorem follows_custom {alone : Inner} {keywords : List ItemId} (prefixes : List ItemId)
    (near : keywords ≠ [] → s.cursor.remaining < depth) :
    Follows grammar whole (custom? grammar (segment grammar depth) prefixes keywords)
      (custom? grammar.bare alone prefixes keywords) s a
      fun found t => found = none ∧ t.cursor.remaining = s.cursor.remaining := by
  have plain : custom? grammar.bare alone prefixes keywords a = .ok none a :=
    congrFun (custom_of_plain grammar.extensions_bare alone prefixes keywords) a
  have ends : Ends (custom? grammar (segment grammar depth) prefixes keywords) s
      (fun found t => found = none ∧ Overlays grammar whole t a) fun _ _ => False := by
    unfold custom?
    cases last : keywords.getLast? with
    | none => exact ends_pure ⟨rfl, overlays⟩
    | some token =>
        have filled := List.ne_nil_of_mem (List.mem_of_getLast? last)
        refine (ends_keywordId token).bind ?_ fun _ _ never => never
        rintro found t ⟨rfl, isKeyword⟩
        cases found with
        | none => exact ends_pure ⟨rfl, overlays⟩
        | some keyword =>
            simp only [ends_position_bind]
            exact ends_tryExtensions_declined declines overlays (fun _ offered => offered)
              (isKeyword keyword rfl) (near filled)
  apply Ends.imp ends
  · rintro found t ⟨rfl, there⟩
    exact ⟨a, plain, there, rfl, by rw [← there.remaining, overlays.remaining]⟩
  · exact fun _ _ never => never.elim

/-! Attempts behind an operand -/

theorem follows_triggeredBehind (alone : Inner) (near : s.cursor.remaining < depth + 1) :
    Follows grammar whole (triggeredBehind? grammar (segment grammar depth))
      (triggeredBehind? grammar.bare alone) s a fun found _ => found = none := by
  unfold triggeredBehind?
  rw [keywordRun_bare]
  refine follows_remaining_bind overlays ?_
  refine (follows_keywordRun false _ [] s a overlays near).bind fun keywords t b there ⟨less, _⟩ => ?_
  cases last : keywords.getLast? with
  | none => exact follows_pure there rfl
  | some token =>
      rw [leeway_of_ne (List.ne_nil_of_mem (List.mem_of_getLast? last))] at less
      refine (Echoes.follows t b there less).bind fun keyword u c atop left => ?_
      cases keyword with
      | none => exact follows_pure atop rfl
      | some keyword =>
          simp only [extensionsFor_eq_nil grammar.extensions_bare,
            List.isEmpty_nil, if_true]
          split
          · exact follows_pure atop rfl
          · rw [← custom_of_plain grammar.extensions_bare alone [] keywords]
            refine (follows_custom declines atop [] fun _ => ?_).imp fun _ _ holds => holds.1
            exact Nat.lt_of_le_of_lt left less

theorem follows_customPostfix (near : s.cursor.remaining < depth + 1) :
    Follows grammar whole (customPostfix? grammar (segment grammar depth))
      (customPostfix? grammar.bare (segment grammar.bare depth)) s a
      fun found t => found = none ∧ t.cursor.remaining = s.cursor.remaining := by
  have supports : grammar.bare.supportsKeywords = grammar.supportsKeywords := rfl
  unfold customPostfix?
  rw [supports]
  split
  · exact follows_pure overlays ⟨rfl, rfl⟩
  · have attempt := (contained_triggeredBehind (contained_segment grammar depth) :
      Contained s.forest.size _ (triggeredBehind? grammar _)) s overlays.proper.closed.at_size
    have attemptAlone := (contained_triggeredBehind (contained_segment grammar.bare depth) :
      Contained a.forest.size _ (triggeredBehind? grammar.bare _)) a overlays.properAlone.closed.at_size
    have tried := follows_triggeredBehind declines overlays (segment grammar.bare depth) near
    unfold Follows
    rw [ends_get_bind]
    refine Ends.bind (Ends.and tried attempt) ?_ ?_
    · rintro found t ⟨⟨b, run, there, rfl⟩, _, above, calm⟩
      obtain ⟨_, aboveAlone, calmAlone⟩ := attemptAlone.of_ok run
      obtain ⟨u, v, back, backAlone, atop, same⟩ :=
        overlays.rolledBack there above calm.logged aboveAlone calmAlone.logged
      refine ends_bind (ends_ok back (ends_pure ⟨v, ?_, atop, rfl, same⟩))
      change (triggeredBehind? grammar.bare (segment grammar.bare depth) >>= _) a = _
      rw [bind_run, run]
      change (rollBack a >>= _) b = _
      rw [bind_run, backAlone]
      rfl
    · rintro error t ⟨⟨b, run, there⟩, _⟩
      refine ⟨b, ?_, there⟩
      change (triggeredBehind? grammar.bare (segment grammar.bare depth) >>= _) a = _
      rw [bind_run, run]

end Declining

end Parse

end ExprLang
