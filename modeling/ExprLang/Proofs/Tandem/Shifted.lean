import ExprLang.Proofs.Parse.Statements
import ExprLang.Proofs.Tandem.Laws
import ExprLang.Proofs.Tandem.Roots

/-!
A text behind another one. All of it stands by the same distance further on, comments too, and if its
characters are folded on the way the grammar does not notice. So what is parsed behind another parse is
what is parsed alone.
-/

namespace ExprLang

/-- A language with stock names and numbers tells the same of folded characters. -/
theorem Tandem.fair {W : Tandem} {halting : Char → Prop} (stock : W.grammar.Stock)
    (refolds : W.grammar.Refolds W.fold) (parts : ∀ c, halting c → W.grammar.Parts c) :
    W.Fair halting where
  plain := stock.plain
  named := stock.named
  symbol _ listed e member :=
    ⟨fun c => refolds.same c e, fun c halts => (parts c halts).not_written listed member _⟩
  literal c place := by
    rw [stock.names]
    exact refolds.name c place
  unnamed c place halts := by
    rw [stock.names]
    exact (parts c halts).not_literal place
  numbers := by
    rw [stock.numbers]
    exact ⟨Numeral, anchored_defaults, fun set numeral =>
      ⟨refolds.numeral set numeral, fun c halts => (parts c halts).not_numeral numeral⟩⟩
  blank := (refolds.sign ' ' ' ' (Or.inl (by simp))).mpr rfl
  fold c d known := refolds.sign c d (known.imp (fun member => by simp at member ⊢; tauto)
    fun sign => sign.imp_right Or.inl)
  separates c given := (stock.separator c given.symm).1

/-- None of the guards of the parser is ever met. -/
theorem Grammar.sane_finalState {grammar : Grammar} (named : grammar.Named)
    (plain : grammar.extensions = []) (text : Text) :
    ∀ fault ∈ (grammar.finalState text).faults, fault.code ≠ .parserImplementation := by
  rcases @finalState_cases grammar True named (fun _ => plain) text (tidy_of_plain plain _) with
    ⟨_, rooted, _⟩ | ⟨_, halted⟩
  · obtain ⟨_, _, standing⟩ := rooted.standing
    exact fun fault member => ((standing.strict trivial).mild fault member).2
  · obtain ⟨before, symbol, faults, mild⟩ := halted.last trivial
    intro fault member
    rw [faults] at member
    rcases List.mem_append.mp member with early | last
    · exact (mild fault early).2
    · rw [List.mem_singleton.mp last]
      nofun

theorem Grammar.forest_parse {grammar : Grammar} {text : String} :
    (grammar.parse text).forest = (grammar.finalState (Text.ofString text)).forest := rfl

theorem Grammar.faults_parse {grammar : Grammar} {text : String} :
    (grammar.parse text).faults = (grammar.finalState (Text.ofString text)).faults := rfl

/-! Shifted comments -/

/-- From `distance` on the other text has the folded characters of the first one. -/
structure Behind (fold : Char → Char) (distance : Nat) (text other : Text) : Prop where
  size : other.size = text.size + distance
  char : ∀ i, other[i + distance]? = text[i]?.map fold

theorem Text.seek_shift {f g : Nat → Bool} {distance : Nat} (same : ∀ i, g (i + distance) = f i)
    (steps place : Nat) : seek g steps (place + distance) = seek f steps place + distance := by
  induction steps generalizing place with
  | zero => rfl
  | succ steps ih =>
      rw [seek, seek, same, Nat.add_right_comm, ih]
      split <;> rfl

namespace Behind

variable {fold : Char → Char} {distance : Nat} {text other : Text} (behind : Behind fold distance text other)

include behind

theorem isWritten {marker : String} (signs : ∀ d ∈ marker.toList, ∀ c, fold c = d ↔ c = d) (place : Nat) :
    other.isWritten true (place + distance) marker = text.isWritten true place marker := by
  have spells : ∀ (symbol : List Char) (place : Nat), (∀ d ∈ symbol, ∀ c, fold c = d ↔ c = d) →
      other.spells true symbol (place + distance) = text.spells true symbol place := by
    intro symbol
    induction symbol with
    | nil => exact fun _ _ => rfl
    | cons d symbol ih =>
        intro place signs
        obtain ⟨sign, signs⟩ := List.forall_mem_cons.mp signs
        have later := ih (place + 1) signs
        rw [Nat.add_right_comm] at later
        rw [Text.spells, Text.spells, behind.char]
        cases text[place]? with
        | none => rfl
        | some c =>
            have same : sameChar true (fold c) d = sameChar true c d := by
              simp only [sameChar, Bool.not_true, Bool.false_and, Bool.or_false]
              rw [Bool.eq_iff_iff, beq_iff_eq, beq_iff_eq, sign]
            simp only [Option.map_some, same, later]
  rw [Text.isWritten, Text.isWritten, spells marker.toList place signs]

theorem isBlankAt (blank : ∀ c, Unicode.isBlank (fold c) = Unicode.isBlank c) (place : Nat) :
    other.isBlankAt (place + distance) = text.isBlankAt place := by
  rw [Text.isBlankAt, Text.isBlankAt, behind.char, Option.any_map]
  exact congrArg (Option.any · _) (funext blank)

theorem commentAt {markers : CommentMarkers} (newline : ∀ c, fold c = '\n' ↔ c = '\n')
    (signs : ∀ marker ∈ markers.texts, ∀ d ∈ marker.toList, ∀ c, fold c = d ↔ c = d) (place : Nat) :
    markers.commentAt? other (place + distance) = (markers.commentAt? text place).map fun comment =>
      { comment with start := comment.start + distance } := by
  have remains : ∀ inside, other.size - (inside + distance) = text.size - inside := by
    intro inside
    rw [behind.size]
    omega
  have line : markers.lineAt? other (place + distance) = (markers.lineAt? text place).map fun comment =>
      { comment with start := comment.start + distance } := by
    unfold CommentMarkers.lineAt?
    cases given : markers.line with
    | none => rfl
    | some marker =>
        have ends : ∀ i, (other[i + distance]? == some '\n') = (text[i]? == some '\n') := by
          intro i
          rw [behind.char]
          cases text[i]? with
          | none => rfl
          | some c => rw [Bool.eq_iff_iff]; simp [newline]
        dsimp only
        rw [behind.isWritten (signs marker (by simp [CommentMarkers.texts, given])),
          Nat.add_right_comm, remains, Text.seek_shift ends]
        split
        · rw [Option.map_some]
          dsimp only
          congr 2
          omega
        · rfl
  have multiline : markers.multilineAt? other (place + distance) =
      (markers.multilineAt? text place).map fun comment =>
        { comment with start := comment.start + distance } := by
    unfold CommentMarkers.multilineAt?
    cases given : markers.multiline with
    | none => rfl
    | some pair =>
        obtain ⟨opening, closing⟩ := pair
        have ends : ∀ i, other.isWritten true (i + distance) closing = text.isWritten true i closing :=
          behind.isWritten (signs closing (by simp [CommentMarkers.texts, given]))
        dsimp only
        rw [behind.isWritten (signs opening (by simp [CommentMarkers.texts, given])),
          Nat.add_right_comm, remains, Text.seek_shift ends, behind.size]
        simp only [Nat.add_lt_add_iff_right]
        split
        · split <;>
          · rw [Option.map_some]
            dsimp only
            congr 2
            omega
        · rfl
  rw [CommentMarkers.commentAt?, CommentMarkers.commentAt?, line, multiline, Option.map_or]

end Behind

/-! Shifted parses -/

namespace Tandem

/-- The parse of a text, and the one that goes on with it behind `before`. -/
def shifted (grammar : Grammar) (fold : Char → Char) (before text : Text) (earlier : Forest) :
    Tandem where
  grammar
  text
  other := before ++ text.map fold
  move place := place + before.size
  earlier
  fold
  decoded text text' := (∀ c, fold c = c) → text' = text
  rest place := place ≤ text.size
  front place := place ≤ text.size ∧ grammar.comments.Settled text place
  expects _ _ := True
  rigid := True

variable {grammar : Grammar} {fold : Char → Char} {before text : Text} {earlier : Forest}

theorem behind_shifted : Behind fold before.size text (before ++ text.map fold) where
  size := by
    rw [Array.size_append, Array.size_map, Nat.add_comm]
  char i := by
    rw [Array.getElem?_append_right (Nat.le_add_left _ _), Nat.add_sub_cancel, Array.getElem?_map]

theorem course_shifted (stock : grammar.Stock) (refolds : grammar.Refolds fold) :
    (shifted grammar fold before text earlier).Course (· ≤ text.size) (· ≤ text.size) fun _ => False := by
  have behind : Behind fold before.size text (before ++ text.map fold) := behind_shifted
  have comments : ∀ place, grammar.comments.commentAt? (before ++ text.map fold) (place + before.size) =
      (grammar.comments.commentAt? text place).map fun comment =>
        { comment with start := comment.start + before.size } :=
    behind.commentAt (fun c => refolds.sign c '\n' (Or.inl (by simp)))
      fun marker listed d member c => refolds.sign c d (Or.inr (Or.inr (Or.inr ⟨marker, listed, member⟩)))
  have along : ∀ place count, place + count ≤ text.size →
      (shifted grammar fold before text earlier).Together (· ≤ text.size) place count := by
    intro place count inside
    refine ⟨fun k within => by omega, fun k _ => Nat.add_right_comm _ _ _, fun k less => ?_⟩
    have here : place + k < text.size := by omega
    refine ⟨text[place + k], Array.getElem?_eq_getElem here, ?_⟩
    have there := behind.char (place + k)
    rw [Array.getElem?_eq_getElem here, Nat.add_right_comm] at there
    exact there
  refine { fair stock refolds (fun _ => False.elim) with
    front_iff := fun place => Iff.rfl
    gap := fun place inside => CommentMarkers.gapEnd_le inside
    calm_of_rest := fun place inside => inside
    onward := fun place inside => inside
    inside := fun place inside => ⟨inside, ?_⟩
    ascends := fun p q _ _ less => Nat.add_lt_add_right less _
    distance := fun _ => ⟨before.size, fun _ => rfl, behind.size⟩
    expects := fun _ _ _ => trivial
    step := fun place inside => ?_
    comment := fun place inside => ?_
    blanks := fun place inside none => ?_
    reach := fun place length _ _ inside => ⟨along place length inside, inside⟩
    breaks := fun _ _ front begins => (begins.inside front.2).2
    lands := fun place _ _ inside settled => ⟨inside, settled⟩
    char := fun place _ => Or.inl (behind.char place)
    quoted := fun _ _ _ _ _ halts => halts
    decoded := fun _ _ same => same }
  · have := behind.size
    change place + before.size ≤ (before ++ text.map fold).size
    change place ≤ text.size at inside
    omega
  -- The same character stands at both places, or both texts end there.
  · rcases Nat.lt_or_eq_of_le inside with less | rfl
    · exact Or.inl (along place 1 less)
    · refine Or.inr ⟨fun c found => ?_, fun c found => ?_⟩
      · exact absurd (Array.getElem?_eq_some_iff.mp found).1 (Nat.lt_irrefl _)
      · have inOther := (Array.getElem?_eq_some_iff.mp found).1
        have := behind.size
        change text.size + before.size < (before ++ text.map fold).size at inOther
        omega
  -- A comment is moved as a whole.
  · have there := comments place
    cases found : grammar.comments.commentAt? text place with
    | none =>
        rw [found] at there
        exact Or.inl ⟨found, there⟩
    | some comment =>
        rw [found] at there
        have bound := (CommentMarkers.commentAt_inside found).2
        refine Or.inr ⟨comment, _, comment.stop, found, there, ⟨Nat.le_refl _, ?_, bound, ?_, ?_⟩, rfl⟩
        · exact Nat.le_of_eq (Nat.add_right_comm _ _ _)
        · exact fun i above below => absurd above (Nat.not_le_of_lt below)
        · intro i above below
          change comment.start + before.size + comment.length ≤ i at above
          change i < comment.start + comment.length + before.size at below
          omega
  -- A blank is moved like any other character.
  · have blank := behind.isBlankAt refolds.blank place
    cases here : text.isBlankAt place with
    | false => exact Or.inl ⟨here, blank.trans here⟩
    | true =>
        have noneThere := (comments place).trans (congrArg _ none)
        refine Or.inr ⟨place + 1, Nat.lt_succ_self _, Nat.le_succ _, ?_,
          CommentMarkers.isBlankAt_inside here, ?_, ?_⟩
        · change place + before.size ≤ place + 1 + before.size
          omega
        · intro i above below
          obtain rfl : i = place := by omega
          exact ⟨none, here⟩
        · intro i above below
          change place + before.size ≤ i at above
          change i < place + 1 + before.size at below
          obtain rfl : i = place + before.size := by omega
          exact ⟨noneThere, blank.trans here⟩

/-- A parse only adds to what is written. -/
theorem later_finalState (stock : grammar.Stock) (text : Text) :
    ParseState.Later (grammar.initialState text) (grammar.finalState text) := by
  have course := @course_shifted grammar id #[] text {} stock (Grammar.refolds_id grammar)
  have heading : (shifted grammar id #[] text {}).Heading fun _ => False :=
    ⟨fun _ => id, False.elim, False.elim, False.elim⟩
  have leads := @leads_rootStatements _ _ course.lawful heading (text.size + 1) (text.size + 1)
    (text.size + 1) (text.size + 1) (grammar.initialState text) (grammar.initialState text) False.elim
  cases run : grammar.rootLoop text.size (grammar.initialState text) with
  | ok _ t =>
      rw [Grammar.finalState_of_ok run]
      exact (leads.of_ok run).1
  | error _ t =>
      rw [Grammar.finalState_of_error run]
      exact (leads.of_error run).1

/-- A parse that begins looks like any root that has its place in the text. -/
theorem mirror_initial {W : Tandem} {first : Item} (found : W.earlier.get? 0 = some first)
    (isRoot : first.IsRoot) (start : first.start = 0) (length : first.length = 0)
    (linked : W.earlier.Linked) (ordered : W.earlier.ordered = true) :
    W.Mirror (W.grammar.initialState W.text).forest W.earlier where
  size := by
    have := Forest.get_lt_size found
    change W.earlier.size = 1 + (W.earlier.size - 1)
    omega
  root := by
    obtain ⟨statements, separators, kind⟩ := isRoot.kind
    refine ⟨Grammar.rootItem, first, rfl, found, ⟨rfl, ⟨[], [], rfl⟩, rfl⟩, first, found, isRoot, ?_⟩
    obtain ⟨firstStart, firstLength, _, parent, parts⟩ := first
    cases kind
    cases start
    cases length
    cases isRoot.free
    simp [carryRoot, Grammar.rootItem, carryKind, ItemKind.append, Parts.append, Parts.map]
  earlier _ _ _ := rfl
  items id item known found := by
    have := Forest.get_lt_size found
    exact absurd (Nat.lt_one_iff.mp this) known
  linked := by
    obtain ⟨_, _, standing⟩ := (@ParseState.rooted_initialState W.grammar False W.text).standing
    exact standing.sound.linked
  linkedOther := linked
  ordered := rfl
  orderedOther := ordered

/-- What is parsed behind another text is what is parsed alone. -/
theorem run_shifted {s' : ParseState} {first : Item} {count depth : Nat} (stock : grammar.Stock)
    (refolds : grammar.Refolds fold) (text' : s'.cursor.text = before ++ text.map fold)
    (markers : s'.cursor.markers = grammar.comments) (position : s'.cursor.position = before.size)
    (faults : s'.faults = []) (found : s'.forest.get? 0 = some first) (isRoot : first.IsRoot)
    (start : first.start = 0) (length : first.length = 0) (linked : s'.forest.Linked)
    (ordered : s'.forest.ordered = true)
    (behind : ∀ part ∈ (s'.forest.parts 0).all, s'.forest.start part < before.size)
    (room : s'.cursor.remaining < count ∧ s'.cursor.remaining < depth) :
    ∃ t', (shifted grammar fold before text s'.forest).Near (grammar.finalState text) t' ∧
      (Parse.rootStatements grammar (Parse.segment grammar depth) 0 count s' = .ok () t' ∨
        ∃ error, Parse.rootStatements grammar (Parse.segment grammar depth) 0 count s' = .error error t') := by
  have mirror := @mirror_initial (shifted grammar fold before text s'.forest) first found isRoot start
    length linked ordered
  have beside : (shifted grammar fold before text s'.forest).Beside (grammar.initialState text) s' := by
    refine ⟨⟨rfl, text', rfl, markers, mirror, ?_⟩, Nat.zero_le _, ?_⟩
    · rw [faults]
      exact .nil
    · exact position.trans (Nat.zero_add _).symm
  have founded : (shifted grammar fold before text s'.forest).Founded :=
    ⟨linked, fun part member place _ => Nat.lt_of_lt_of_le (behind part member) (Nat.le_add_left _ _)⟩
  exact (course_shifted stock refolds).lawful.rigid_run founded
    (grammar.sane_finalState stock.named stock.plain text) beside room trivial

/-- Folded characters make no difference to a parse. -/
theorem near_folded (stock : grammar.Stock) (refolds : grammar.Refolds fold) (text : Text) :
    (shifted grammar fold #[] text { items := #[Grammar.rootItem] }).Near (grammar.finalState text)
      (grammar.finalState (text.map fold)) := by
  have linked : (Forest.mk #[Grammar.rootItem] true).Linked := by
    obtain ⟨_, _, standing⟩ := (@ParseState.rooted_initialState grammar False text).standing
    exact standing.sound.linked
  have room : (grammar.initialState (text.map fold)).cursor.remaining < (text.map fold).size + 1 :=
    Nat.lt_succ_self _
  have empty : ∀ part ∈ ((grammar.initialState (text.map fold)).forest.parts 0).all,
      (grammar.initialState (text.map fold)).forest.start part < (#[] : Text).size := by
    intro part member
    cases member
  have same : (grammar.initialState (text.map fold)).cursor.text = #[] ++ text.map fold :=
    (Array.empty_append).symm
  have found : (grammar.initialState (text.map fold)).forest.get? 0 = some Grammar.rootItem := rfl
  have isRoot : Grammar.rootItem.IsRoot := ⟨rfl, ⟨[], [], rfl⟩, rfl⟩
  obtain ⟨t', near, run⟩ := @run_shifted grammar fold #[] text _ _ _ _ stock refolds same rfl rfl rfl found
    isRoot rfl rfl linked rfl empty ⟨room, room⟩
  have final : grammar.finalState (text.map fold) = t' := by
    rcases run with ends | ⟨error, stops⟩
    · exact grammar.finalState_of_ok ends
    · exact grammar.finalState_of_error stops
  rw [final]
  exact near

/-- The root of a parse begins where the text does. -/
theorem root_finalState (stock : grammar.Stock) (text : Text) :
    ∃ root, (grammar.finalState text).forest.get? 0 = some root ∧ root.IsRoot ∧ root.start = 0 ∧
      root.length = 0 := by
  obtain ⟨root, _, found, _, alike⟩ := (near_folded stock (Grammar.refolds_id grammar) text).forest.root
  obtain ⟨last, foundLast, start, length, _⟩ :=
    (later_finalState stock text).items 0 Grammar.rootItem rfl
  obtain rfl := Option.some.inj (found.symm.trans foundLast)
  exact ⟨root, found, alike.isRoot, start, length⟩

end Tandem

end ExprLang
