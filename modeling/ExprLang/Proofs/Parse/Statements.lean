import ExprLang.Proofs.Language
import ExprLang.Proofs.Parse.Passing
import ExprLang.Proofs.Stopping

/-!
The statements of the root. The parse begins with nothing in its hands but the root, and holds nothing
else between two statements; if it comes to an end it has come to the end of the text.
-/

namespace ExprLang

open Held (item hollow word ids)

namespace Forest

theorem sound_empty : ({} : Forest).Sound where
  linked := {
    parent := fun _ _ => by simp [Owns, parts, parent?, get?]
    once := fun _ => by simp [parts, get?]
    children := fun _ => by simp [parts, get?]
    token := fun _ _ found => by simp [get?] at found
    ranked := ⟨fun _ => 0, fun _ _ owns => by simp [Owns, parts, get?] at owns⟩ }
  laid _ := by simp [parts, get?]
  ordered := rfl
  firm _ _ owns := by simp [Owns, parts, get?] at owns

end Forest

namespace Grammar

/-- The state before the root is made. -/
def blankState (grammar : Grammar) (text : Text) : ParseState :=
  { cursor := { text, markers := grammar.comments } }

end Grammar

namespace ParseState

/-- The parser holds the root and nothing else. -/
structure Rooted (grammar : Grammar) (full : Prop) (base s : ParseState) (root : Nat) : Prop where
  standing : ∃ held : Held, held.id? = some root ∧ Standing grammar full base s [held]
  bare : s.forest.Bare root

variable {grammar : Grammar} {full : Prop}

theorem ready_blankState (text : Text) : (grammar.blankState text).Ready grammar full where
  sound := Forest.sound_empty
  markers := rfl
  inside := Nat.zero_le _
  behind _ := by rw [Forest.stop_of_size_le (Nat.zero_le _)]; exact Nat.zero_le _
  listed := ⟨nofun, List.Pairwise.nil⟩
  strict _ := ⟨fun _ _ _ _ found => by simp [Grammar.blankState, Forest.get?] at found,
    fun _ _ _ _ found => by simp [Grammar.blankState, Forest.get?] at found,
    fun _ custom => by simp [Grammar.blankState, Forest.IsCustom, Forest.kind?, Forest.get?] at custom,
    fun _ member => by simp [Grammar.blankState] at member,
    fun _ member => by simp [Grammar.blankState] at member⟩
  unclosed _ met := by simp [Grammar.blankState, Faults.openComments] at met

theorem rooted_initialState (text : Text) :
    Rooted grammar full (grammar.blankState text) (grammar.initialState text) 0 where
  standing := by
    have begun : Holding grammar full _ _ [] 0 := (ready_blankState text).holding
    have made := Holding.hollowed [] [] (.root [] []) 0 begun rfl (fun _ => nofun)
      (Nat.le_refl _) (Nat.le_refl _)
    exact ⟨hollow 0, rfl, made.standing rfl (Nat.zero_le _)⟩
  bare := Forest.bare_of_create {} (show (ItemKind.root [] []).isPlain = true from rfl) 0

end ParseState

open ParseState

namespace Parse

variable {grammar : Grammar} {full : Prop} {base s t : ParseState} {root : Nat}

/-- What stands behind a statement: the end of the text, or something to go on from. -/
theorem ends_afterStatement {start : Nat} {closedByBlock : Bool}
    (rooted : Rooted grammar full base s root) (behind : start ≤ s.cursor.position)
    (ended : closedByBlock = false →
      s.Settled ∧ grammar.isTerminatorAt s.cursor.text s.cursor.position = true)
    (closed : closedByBlock = true → start < s.cursor.position) :
    Ends (afterStatement grammar root start closedByBlock) s
      (fun again t => Rooted grammar full base t root ∧
        if again then start < t.cursor.position else t.cursor.position = t.cursor.text.size)
      (fun _ _ => False) := by
  obtain ⟨⟨held, isRoot, standing⟩, bare⟩ := rooted
  unfold afterStatement
  refine (standing_skipGap standing).bind ?_ fun _ _ never => never
  rintro _ t ⟨standing, settled, forest, text, further, position, _⟩
  have bare : t.forest.Bare root := forest ▸ bare
  simp only [ends_position_bind, ends_current_bind]
  split
  · rename_i none
    have outside := Array.getElem?_eq_none_iff.mp none
    exact ends_pure ⟨⟨⟨held, isRoot, standing⟩, bare⟩, Nat.le_antisymm standing.within outside⟩
  · rename_i c here
    have inside : t.cursor.position < t.cursor.text.size := (Array.getElem?_eq_some_iff.mp here).1
    split
    · refine (ends_addSeparator standing isRoot bare settled inside).bind ?_ fun _ _ never => never
      rintro _ u ⟨built, moved⟩
      exact ends_pure ⟨⟨⟨item root, rfl, built.toStanding⟩, built.bare⟩, by
        simp only [if_true]; omega⟩
    · rename_i notSeparator
      split
      · rename_i isClosed
        have moved := closed isClosed
        exact ends_pure ⟨⟨⟨held, isRoot, standing⟩, bare⟩, by simp only [if_true]; omega⟩
      · rename_i goesOn
        have skipped : ∀ length, 0 < length →
            t.cursor.position + length ≤ t.cursor.text.size →
            Ends (do unexpected t.cursor.position length; return true) t
              (fun again u => Rooted grammar full base u root ∧
                if again then start < u.cursor.position else u.cursor.position = u.cursor.text.size)
              (fun _ _ => False) := by
          intro length filled within
          refine (ends_unexpected standing settled filled within).bind ?_ fun _ _ never => never
          rintro _ u ⟨standing, same, moved⟩
          exact ends_pure ⟨⟨⟨held, isRoot, standing⟩, same ▸ bare⟩, by simp only [if_true]; omega⟩
        simp only [ends_text_bind]
        split
        · rename_i atEnd
          obtain ⟨markers, hasBlocks, filled, within⟩ := Grammar.isBlockEndAt_inside atEnd
          rw [hasBlocks]
          exact skipped _ filled within
        · rename_i notEnd
          split
          · exact skipped 1 Nat.one_pos inside
          · rename_i notStray
            -- The statement went on to a terminator, and that is none of these.
            obtain ⟨settledThere, terminates⟩ := ended (Bool.eq_false_iff.mpr goesOn)
            have same : t.cursor.position = s.cursor.position :=
              position.trans (CommentMarkers.gapEnd_of_settled settledThere)
            rw [← text, ← same] at terminates
            rcases terminator_cases here terminates with stray | separates | atEnd
            · exact absurd stray notStray
            · exact absurd separates notSeparator
            · exact absurd atEnd notEnd

theorem ends_rootStatements {inner : Inner} {depth passes : Nat} {whole : Text}
    (parses : inner.Parses grammar full whole depth) (same : base.cursor.text = whole)
    (rooted : Rooted grammar full base s root) (enough : s.cursor.remaining < passes)
    (shallow : s.cursor.remaining < depth) :
    Ends (rootStatements grammar inner root passes) s
      (fun _ t => Rooted grammar full base t root ∧ t.cursor.position = t.cursor.text.size)
      (fun _ t => Halted grammar full base t) := by
  induction passes generalizing s with
  | zero => exact absurd enough (Nat.not_lt_zero _)
  | succ passes ih =>
      obtain ⟨⟨held, isRoot, standing⟩, bare⟩ := rooted
      unfold rootStatements
      simp only [ends_position_bind]
      refine (standing.after (parses .root s standing.next (standing.text.trans same) shallow)).bind ?_
        fun _ _ halted => halted
      intro segment t segmented
      have takes : ∀ part, Standing grammar full base t [held, item part] → t.forest.Bare root →
          Ends (addStatement root part) t
            (fun _ u => Built grammar full base u root ∧ u.cursor = t.cursor) (fun _ _ => False) :=
        fun part standing bare => ends_addStatement standing isRoot bare
      refine (ends_takeSegment takes standing bare segmented).bind ?_ fun _ _ never => never.elim
      rintro _ u ⟨either, cursor⟩
      have taken : Rooted grammar full base u root := by
        rcases either with ⟨standing, bare⟩ | built
        · exact ⟨⟨held, isRoot, standing⟩, bare⟩
        · exact ⟨⟨item root, rfl, built.toStanding⟩, built.bare⟩
      have ended := segmented.ended
      have closed := segmented.closed
      have behind := segmented.littered.moved
      rw [ParseState.Settled, ← cursor] at ended
      rw [← cursor] at closed behind
      refine (ends_afterStatement taken behind ended closed).bind ?_ fun _ _ never => never.elim
      rintro again v ⟨rooted, reached⟩
      cases again with
      | false => exact ends_pure ⟨rooted, reached⟩
      | true =>
          obtain ⟨_, _, there⟩ := rooted.standing
          have fewer := Cursor.remaining_lt (there.text.trans standing.text.symm) reached there.within
          exact ih rooted (by omega) (by omega)

end Parse

namespace Grammar

variable {grammar : Grammar} {full : Prop}

/-- A parse comes to the end of the text with nothing but the root in its hands, or it stops. -/
theorem ends_rootLoop (named : grammar.Named) (plain : full → grammar.extensions = [])
    {text : Text} (tidy : grammar.Tidy text) :
    Ends (grammar.rootLoop text.size) (grammar.initialState text)
      (fun _ t => Rooted grammar full (grammar.blankState text) t 0 ∧
        t.cursor.position = t.cursor.text.size)
      (fun _ t => Halted grammar full (grammar.blankState text) t) :=
  Parse.ends_rootStatements (Parse.parses_segment named plain tidy _) rfl (rooted_initialState text)
    (Nat.lt_succ_self _) (Nat.lt_succ_self _)

theorem tidy_of_plain (plain : grammar.extensions = []) (text : Text) : grammar.Tidy text := by
  intro depth extension trigger s called
  have offered := called.offered
  rw [extensionsFor, plain] at offered
  cases offered

/-- Without a critical fault the root owns all there is up to the end of the text. -/
theorem finalState_cases (named : grammar.Named) (plain : full → grammar.extensions = [])
    {text : Text} (tidy : grammar.Tidy text) :
    (grammar.finalState text).faults.hasCritical = false ∧
        Rooted grammar full (grammar.blankState text) (grammar.finalState text) 0 ∧
        (grammar.finalState text).cursor.position = text.size ∨
      (grammar.finalState text).faults.hasCritical = true ∧
        Halted grammar full (grammar.blankState text) (grammar.finalState text) := by
  have ends := ends_rootLoop named plain tidy
  have early := @hasCritical_iff_stopsEarly grammar text
  cases run : grammar.rootLoop text.size (grammar.initialState text) with
  | ok _ t =>
      obtain ⟨rooted, atEnd⟩ := ends.of_ok run
      obtain ⟨_, _, standing⟩ := rooted.standing
      have goesOn : ¬ grammar.StopsEarly text := by
        rintro ⟨stopped, u, other⟩
        cases run.symm.trans other
      rw [← finalState_of_ok run] at rooted atEnd
      refine Or.inl ⟨Bool.eq_false_iff.mpr (mt early.mp goesOn), rooted, ?_⟩
      rw [atEnd, finalState_of_ok run, standing.text]
      rfl
  | error stopped t =>
      have halted := ends.of_error run
      rw [← finalState_of_error run] at halted
      exact Or.inr ⟨early.mpr ⟨stopped, t, run⟩, halted⟩

end Grammar

namespace ParseState

variable {grammar : Grammar} {full : Prop} {text : Text} {s : ParseState}

/-- Everything stands below the root. -/
theorem Rooted.below {root : Nat} (rooted : Rooted grammar full (grammar.blankState text) s root)
    {id : Nat} (inside : id < s.forest.size) : Relation.ReflTransGen s.forest.Owns root id := by
  obtain ⟨held, isRoot, standing⟩ := rooted.standing
  obtain ⟨top, free, path⟩ := standing.sound.linked.exists_top inside
  have topInside : top < s.forest.size := by
    rcases path.cases_head with rfl | ⟨_, owns, _⟩
    · exact inside
    · exact Forest.owner_lt_size owns
  have isHeld := (standing.held top).mpr ⟨Nat.zero_le _, topInside, free⟩
  have only : ids [held] = [root] := by simp [Held.ids, isRoot]
  rw [only, List.mem_singleton] at isHeld
  exact isHeld ▸ path

end ParseState

namespace Grammar

variable {grammar : Grammar} {config : Config} {isLiteralChar : Char → Nat → Bool}

/-- Without extensions and without a critical fault the parser ends with the root in its hands, at the
end of the text. -/
theorem rooted_of_calm (built : build config isLiteralChar [] = .ok grammar) (text : String)
    (calm : (grammar.parse text).faults.hasCritical = false) :
    Rooted grammar True (grammar.blankState (Text.ofString text))
        (grammar.finalState (Text.ofString text)) 0 ∧
      (grammar.finalState (Text.ofString text)).cursor.position = (Text.ofString text).size := by
  obtain ⟨named, plain⟩ := named_of_build built
  rcases @finalState_cases _ True named (fun _ => plain) _ (tidy_of_plain plain _) with
    ⟨_, rooted, atEnd⟩ | ⟨critical, _⟩
  · exact ⟨rooted, atEnd⟩
  · exact absurd (critical.symm.trans calm) nofun

end Grammar

end ExprLang
