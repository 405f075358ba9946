import ExprLang.Proofs.Checked
import ExprLang.Proofs.Declining.Segments
import Mathlib.Data.List.Sort

/-!
Extensions that decline. The forest of a parse is the one without extensions, and so are all critical
faults; but what an attempt has reported in front of an expression stays, although the attempt has been
undone, and so do the comments that it has come across.
-/

namespace ExprLang

open Parse

namespace Comment

/-- A list in text order whose members are all in another one is part of it. -/
theorem sublist_of_sorted {comments others : List Comment}
    (sorted : comments.Pairwise (·.start < ·.start)) (sortedOthers : others.Pairwise (·.start < ·.start))
    (subset : comments ⊆ others) : comments.Sublist others := by
  have before : Std.Antisymm fun first second : Comment => first.start < second.start :=
    ⟨fun _ _ less more => absurd less (Nat.lt_asymm more)⟩
  have irreflexive : Std.Irrefl fun first second : Comment => first.start < second.start :=
    ⟨fun _ => Nat.lt_irrefl _⟩
  exact List.sublist_of_subperm_of_pairwise (List.subperm_of_subset sorted.nodup subset) sorted sortedOthers

end Comment

namespace Grammar

variable {grammar : Grammar} {config : Config} {isLiteralChar : Char → Nat → Bool}
  {extensions : List Extension} {text : Text}

/-- A language can do without its extensions. -/
theorem build_bare (built : build config isLiteralChar extensions = .ok grammar) :
    build config isLiteralChar [] = .ok grammar.bare := by
  have checked := checked_of_build built
  have tables : grammar.bare = { grammar with extensions := [] } := rfl
  rw [tables, checked.tables]
  unfold build
  dsimp only
  rw [checked.keywords, checked.operatorIds, checked.operators, checked.codeBlock, checked.multiline,
    checked.separator, checked.quotes, checked.numbers]
  cases line : config.lineComment with
  | none => rfl
  | some marker =>
      dsimp only
      rw [checked.lineComment marker line]
      rfl

theorem overlays_initialState (grammar : Grammar) (text : Text) :
    Overlays grammar text (grammar.initialState text) (grammar.bare.initialState text) where
  proper := ⟨grammar.closed_initialState text, Nat.zero_le _⟩
  text := rfl
  textAlone := rfl
  markers := rfl
  markersAlone := rfl
  position := rfl
  forest := rfl
  faults := .refl _
  listed := ⟨nofun, List.Pairwise.nil⟩
  listedAlone := ⟨nofun, List.Pairwise.nil⟩
  comments := List.Subset.refl _
  noted := nofun

theorem overlays_finalState (declines : grammar.Declines text) (named : grammar.Named) :
    Overlays grammar text (grammar.finalState text) (grammar.bare.finalState text) := by
  have segments := echoes_segment declines named (text.size + 1)
  have statements : Echoes grammar text (text.size + 1)
      (rootStatements grammar (segment grammar (text.size + 1)) 0 (text.size + 1))
      (rootStatements grammar (segment grammar.bare (text.size + 1)) 0 (text.size + 1)) :=
    echoes_rootStatements 0 _
  have follows := statements.follows _ _ (overlays_initialState grammar text) (Nat.lt_succ_self _)
  unfold Follows Ends at follows
  unfold finalState
  rw [rootStatements_bare]
  dsimp only
  split at follows
  case h_1 run =>
    obtain ⟨b, runAlone, overlays, _⟩ := follows
    rw [run, runAlone]
    exact overlays
  case h_2 run =>
    obtain ⟨b, runAlone, overlays⟩ := follows
    rw [run, runAlone]
    exact overlays

/-- What a parse whose extensions decline has in common with the parse of the text without them. -/
structure Undisturbed (grammar : Grammar) (text : String) : Prop where
  forest : (grammar.parse text).forest = (grammar.bare.parse text).forest
  faults : Faults.Overlay (grammar.Complains (Text.ofString text)) (grammar.parse text).faults
    (grammar.bare.parse text).faults
  comments : (grammar.bare.parse text).comments.Sublist (grammar.parse text).comments
  noted : ∀ comment ∈ (grammar.parse text).comments,
    comment ∈ (grammar.bare.parse text).comments ∨ grammar.Overhears (Text.ofString text) comment
  quiet : (∀ comment, ¬ grammar.Overhears (Text.ofString text) comment) →
    (grammar.parse text).comments = (grammar.bare.parse text).comments

/-- If every attempt of an extension declines, then the forest is that of the parse without extensions,
and so are the critical faults. What else is reported and noted is added by the attempts. -/
theorem declined_attempts_leave_complaints (built : build config isLiteralChar extensions = .ok grammar)
    (text : String) (declines : grammar.Declines (Text.ofString text)) :
    build config isLiteralChar [] = .ok grammar.bare ∧ grammar.Undisturbed text := by
  have overlays := overlays_finalState declines (named_of_build built).1
  refine ⟨build_bare built, ?_⟩
  constructor
  case forest => exact overlays.forest.symm
  case faults => exact overlays.faults
  case comments =>
    exact Comment.sublist_of_sorted overlays.listedAlone.sorted overlays.listed.sorted overlays.comments
  case noted => exact overlays.noted
  case quiet =>
    intro silent
    refine Comment.eq_of_sorted overlays.listed.sorted overlays.listedAlone.sorted fun comment => ?_
    exact ⟨fun member => (overlays.noted comment member).resolve_right (silent comment),
      fun member => overlays.comments member⟩

/-- An extension that reports what follows its keyword, takes a word and declines. -/
def grumbleExtension : Extension where
  name := "grumble"
  keywords := [1]
  category := .regular
  accepts := ""
  steps := [.report 0 1 10000 "seen" false, .word, .decline]

theorem declines_of_grumbleExtension
    (only : ∀ extension ∈ grammar.extensions, extension = grumbleExtension) (text : Text) :
    grammar.Declines text := by
  intro depth extension trigger s tries
  obtain ⟨given, member, among⟩ := List.mem_flatMap.mp tries.offered
  obtain ⟨_, _, rfl⟩ := List.mem_map.mp among
  obtain rfl := only given member
  have ends : Ends (Script.steps grammar (Parse.segment grammar depth) grumbleExtension trigger []
      grumbleExtension.steps) s (fun _ _ => False)
      (fun exit t => exit = .declined ∧ t.faults.criticalCount = s.faults.criticalCount) := by
    have count : ∀ fault : Fault, fault.critical = false →
        Faults.criticalCount (s.faults ++ [fault]) = s.faults.criticalCount := fun fault calm => by
      simp [Faults.criticalCount, calm]
    have reports : ¬ 10000 < customCodeStart := by decide
    unfold grumbleExtension
    simp only [Script.steps, Script.step, if_neg reports, bind_assoc, pure_bind, ends_get_bind]
    refine ends_bind (ends_ok rfl ?_)
    rw [ends_get_bind]
    -- Without a word behind the keyword it declines early.
    cases Script.wordLength s.cursor.text s.cursor.position with
    | zero => exact ends_error rfl ⟨rfl, count _ rfl⟩
    | succ length => exact ends_error rfl ⟨rfl, count _ rfl⟩
  unfold Ends at ends
  split at ends
  case h_1 => exact ends.elim
  case h_2 exit t run =>
    obtain ⟨rfl, same⟩ := ends
    exact ⟨t, run, same⟩

theorem complaint_about_two_words :
    build sampleConfig stockLiteralChar [grumbleExtension] = .ok (sampleGrammar [grumbleExtension]) ∧
      (sampleGrammar [grumbleExtension]).Declines (Text.ofString "word x + word y") ∧
      (sampleGrammar [grumbleExtension]).Undisturbed "word x + word y" ∧
      ((sampleGrammar [grumbleExtension]).parse "word x + word y").faults.length = 2 := by
  have built : build sampleConfig stockLiteralChar [grumbleExtension] =
      .ok (sampleGrammar [grumbleExtension]) := rfl
  have declines : (sampleGrammar [grumbleExtension]).Declines (Text.ofString "word x + word y") :=
    declines_of_grumbleExtension (by simp [sampleGrammar]) _
  exact ⟨built, declines, (declined_attempts_leave_complaints built _ declines).2, by decide +kernel⟩

/-- A declined attempt is not without a trace: its complaint stays among the faults. -/
theorem complaint_stays :
    (sampleGrammar [grumbleExtension]).Declines (Text.ofString "word x") ∧
      ((sampleGrammar [grumbleExtension]).parse "word x").faults ≠
        ((sampleGrammar []).parse "word x").faults :=
  ⟨declines_of_grumbleExtension (by simp [sampleGrammar]) _, by decide +kernel⟩

end Grammar

end ExprLang
