import ExprLang.Proofs.Comments
import ExprLang.Proofs.Forest.Sound
import ExprLang.Proofs.Parse.Ends
import ExprLang.Proofs.Parse.Reading
import ExprLang.Proofs.Written

/-!
What the parser has in its hands. From a state `base` on, the items that were there are left as they
are, and the new ones without an owner make up a row, together with the words that have no token
yet. The row stands between the position of `base` and some place `b`; the cursor comes there sooner
or later.

A parse is strict as long as no extension takes part. Then every token is what stands at its span,
only faults that the parser recovers from have been recorded, all of them within the text, and tokens,
words and the two faults that stand for skipped characters are the pieces of the text from the position of
`base` to `b`.
-/

namespace ExprLang

open Held (item hollow word ids)

namespace Fault

/-- The parser goes on after it. -/
def Mild (fault : Fault) : Prop := fault.critical = false ∧ fault.code ≠ .parserImplementation

/-- The length of such a fault is the distance between two places. -/
def Cause.isDistance : Cause → Bool
  | binaryOperatorMissing | operandMissing _ | constantTextNotClosed _ | invalidUseOfPrefixesOrKeywords
  | postfixHasNoTarget | postfixRejected | commentNotClosed _ => true
  | _ => false

/-- The fault is within a text of this size. A distance is positive, so the place it ends at has been
behind the one it starts from. -/
structure Located (size : Nat) (fault : Fault) : Prop where
  inside : fault.stop ≤ size
  ahead : fault.cause.isDistance = true → 0 < fault.length

theorem located_of_distance {start stop size : Nat} {cause : Cause} {critical : Bool} (ahead : start < stop)
    (inside : stop ≤ size) : Located size ⟨start, stop - start, cause, critical⟩ where
  inside := by
    rwa [Fault.stop, Nat.add_sub_cancel' (Nat.le_of_lt ahead)]
  ahead _ := Nat.sub_pos_of_lt ahead

theorem located_of_near {start length size : Nat} {cause : Cause} {critical : Bool}
    (inside : start + length ≤ size) (near : cause.isDistance = false) :
    Located size ⟨start, length, cause, critical⟩ where
  inside := inside
  ahead distance := absurd (near.symm.trans distance) Bool.false_ne_true

/-- The characters that were skipped with this fault and are in no token. -/
def piece? (fault : Fault) : Option (Nat × Nat) :=
  if fault.code = .multipleOccurrencesOfKeyword ∨ fault.code = .unexpectedSymbol then
    some (fault.start, fault.stop)
  else none

end Fault

def Faults.pieces (faults : Faults) : List (Nat × Nat) := faults.filterMap Fault.piece?

/-- How often a comment without end was reported. -/
def Faults.openComments (faults : Faults) : Nat := faults.countP (·.code == .commentNotClosed)

namespace Grammar

/-- Two repeated keywords were dropped one behind the other, just before `place`. -/
def DroppedTwice (grammar : Grammar) (text : Text) (faults : Faults) (place : Nat) : Prop :=
  ∃ first ∈ faults, ∃ second ∈ faults,
    first.code = .multipleOccurrencesOfKeyword ∧ second.code = .multipleOccurrencesOfKeyword ∧
      grammar.comments.gapEnd text first.stop = second.start ∧
      grammar.comments.gapEnd text second.stop = place

/-- A name can be read here. Behind two repeated keywords the parser does not look for a third. -/
def Nameable (grammar : Grammar) (text : Text) (faults : Faults) (place : Nat) : Prop :=
  grammar.supportsKeywords = true →
    grammar.keywordAt? text place = none ∨ grammar.DroppedTwice text faults place

theorem DroppedTwice.mono {grammar : Grammar} {text : Text} {faults more : Faults} {place : Nat}
    (dropped : grammar.DroppedTwice text faults place) (further : faults ⊆ more) :
    grammar.DroppedTwice text more place := by
  obtain ⟨first, isFirst, second, isSecond, rest⟩ := dropped
  exact ⟨first, further isFirst, second, further isSecond, rest⟩

theorem Nameable.mono {grammar : Grammar} {text : Text} {faults more : Faults} {place : Nat}
    (nameable : grammar.Nameable text faults place) (further : faults ⊆ more) :
    grammar.Nameable text more place :=
  fun supported => (nameable supported).imp_right fun dropped => dropped.mono further

/-- A comment between two words of an operator. -/
def BetweenWords (grammar : Grammar) (text : Text) (comment : Comment) : Prop :=
  ∃ place afterOperand written, grammar.operatorAt? text place afterOperand = some written ∧
    ∃ part ∈ written.parts.dropLast,
      comment ∈ grammar.comments.commentsFrom text (part.1 + part.2.length)

/-- A comment behind a keyword. -/
def BehindKeyword (grammar : Grammar) (text : Text) (comment : Comment) : Prop :=
  grammar.supportsKeywords = true ∧ ∃ place keyword, grammar.keywordAt? text place = some keyword ∧
    comment ∈ grammar.comments.commentsFrom text (place + keyword.text.length)

end Grammar

namespace ParseState

/-- Tokens, skipped characters, and the words that have no token yet. -/
def pieces (s : ParseState) (row : List Held) : List (Nat × Nat) :=
  s.forest.tokenSpans ++ s.faults.pieces ++ Held.wordSpans row

structure Strict (grammar : Grammar) (s : ParseState) : Prop where
  exact : s.forest.Exact s.cursor.text
  named : s.forest.Tokens fun kind _ start _ =>
    kind = .name → grammar.Nameable s.cursor.text s.faults start
  plain : ∀ id, ¬ s.forest.IsCustom id
  mild : ∀ fault ∈ s.faults, fault.Mild
  located : ∀ fault ∈ s.faults, fault.Located s.cursor.text.size

/-- A state from which a part of the parser can be run. Behind a comment without end there is nothing
more to read. -/
structure Ready (grammar : Grammar) (full : Prop) (s : ParseState) : Prop where
  sound : s.forest.Sound
  markers : s.cursor.markers = grammar.comments
  inside : s.cursor.position ≤ s.cursor.text.size
  behind : ∀ id, s.forest.stop id ≤ s.cursor.position
  listed : s.cursor.Listed
  strict : full → s.Strict grammar
  unclosed : full → 0 < s.faults.openComments → s.cursor.position = s.cursor.text.size

/-- What was there in `base` is still there. -/
structure Kept (base s : ParseState) : Prop where
  text : s.cursor.text = base.cursor.text
  markers : s.cursor.markers = base.cursor.markers
  sound : s.forest.Sound
  size : base.forest.size ≤ s.forest.size
  old : ∀ id < base.forest.size, s.forest.get? id = base.forest.get? id
  logged : base.faults <+: s.faults
  heard : base.cursor.Hears s.cursor

/-- The pieces since `base` are those of the text up to `b`, and each comment without end between them
has been reported once. The comments between them have been noted, but for those between the words of
an operator, and no other ones have, but for those behind a keyword that was taken on trial. -/
structure Tally (grammar : Grammar) (base s : ParseState) (row : List Held)
    (pieces : List (Nat × Nat)) (b : Nat) : Prop where
  spaced : grammar.comments.Spaced base.cursor.text base.cursor.position pieces b
  counted : (s.pieces row).Perm (base.pieces [] ++ pieces)
  unclosed : s.faults.openComments = base.faults.openComments +
    grammar.comments.countRunsOut base.cursor.text base.cursor.position pieces b
  noted : ∀ comment ∈
    grammar.comments.commentsBetween base.cursor.text base.cursor.position pieces b,
      comment ∈ s.cursor.comments ∨ grammar.BetweenWords base.cursor.text comment
  only : ∀ comment ∈ s.cursor.comments, comment ∈ base.cursor.comments ∨
    comment ∈ grammar.comments.commentsBetween base.cursor.text base.cursor.position pieces b ∨
      grammar.BehindKeyword base.cursor.text comment

/-- What is held from the position of `base` to `b`, wherever it stands. -/
structure Keeping (grammar : Grammar) (full : Prop) (base s : ParseState) (row : List Held)
    (b : Nat) : Prop extends Kept base s where
  ready : base.Ready grammar full
  held : ∀ id, id ∈ ids row ↔
    base.forest.size ≤ id ∧ id < s.forest.size ∧ s.forest.parent? id = none
  once : (ids row).Nodup
  strict : full → s.Strict grammar
  spelled : full → ∀ start text, word start text ∈ row →
    text = base.cursor.text.slice start (start + text.length)
  tally : full → ∃ pieces, Tally grammar base s row pieces b

/-- The parser holds `row`, in text order. -/
structure Holding (grammar : Grammar) (full : Prop) (base s : ParseState) (row : List Held)
    (b : Nat) : Prop extends Keeping grammar full base s row b where
  placed : s.forest.Row base.cursor.position row b

variable {grammar : Grammar} {full : Prop} {base s t u : ParseState} {row left right : List Held}
  {a b c : Nat}

/-! States -/

/-- More faults leave room for more names. -/
theorem Strict.named_of_more {more : Faults} (strict : s.Strict grammar) (further : s.faults ⊆ more) :
    s.forest.Tokens fun kind _ start _ =>
      kind = .name → grammar.Nameable s.cursor.text more start :=
  fun id item kind word here isToken isName =>
    (strict.named id item kind word here isToken isName).mono further

/-- One more fault within the text. -/
theorem Strict.report {fault : Fault} (strict : s.Strict grammar) (mild : fault.Mild)
    (located : fault.Located s.cursor.text.size) :
    ParseState.Strict grammar { s with faults := s.faults ++ [fault] } where
  exact := strict.exact
  named := strict.named_of_more (List.subset_append_left _ _)
  plain := strict.plain
  mild := List.forall_mem_append.mpr ⟨strict.mild, List.forall_mem_singleton.mpr mild⟩
  located := List.forall_mem_append.mpr ⟨strict.located, List.forall_mem_singleton.mpr located⟩

namespace Tally

variable {row' : List Held} {pieces : List (Nat × Nat)} (tally : Tally grammar base s row pieces b)

include tally

/-- The same pieces in other hands. -/
theorem of_perm (same : (t.pieces row').Perm (s.pieces row))
    (open_ : t.faults.openComments = s.faults.openComments)
    (comments : t.cursor.comments = s.cursor.comments) : Tally grammar base t row' pieces b where
  spaced := tally.spaced
  counted := same.trans tally.counted
  unclosed := open_.trans tally.unclosed
  noted := comments ▸ tally.noted
  only := comments ▸ tally.only

/-- One more piece, behind a gap that holds no comments but those between words. -/
theorem snoc {start stop : Nat} (here : grammar.comments.gapEnd base.cursor.text b = start)
    (nonempty : start < stop) (inside : start < base.cursor.text.size)
    (silent : ∀ comment ∈ grammar.comments.commentsFrom base.cursor.text b,
      grammar.BetweenWords base.cursor.text comment)
    (counted : (t.pieces row').Perm (s.pieces row ++ [(start, stop)]))
    (open_ : t.faults.openComments = s.faults.openComments)
    (comments : t.cursor.comments = s.cursor.comments) :
    Tally grammar base t row' (pieces ++ [(start, stop)]) stop := by
  subst here
  have passed := CommentMarkers.commentsBetween_snoc tally.spaced nonempty
  refine ⟨tally.spaced.snoc nonempty, ?_, ?_, fun comment member => ?_,
    fun comment member => ?_⟩
  · rw [← List.append_assoc]
    exact counted.trans (tally.counted.append_right _)
  · rw [open_, tally.unclosed, CommentMarkers.countRunsOut_snoc tally.spaced nonempty inside]
  · rw [passed] at member
    rw [comments]
    exact (List.mem_append.mp member).elim (tally.noted comment) fun inGap =>
      Or.inr (silent comment inGap)
  · rw [passed]
    rw [comments] at member
    exact (tally.only comment member).imp_right (Or.imp_left (List.mem_append_left _))

end Tally

namespace Kept

theorem refl (sound : s.forest.Sound) : Kept s s :=
  ⟨rfl, rfl, sound, Nat.le_refl _, fun _ _ => rfl, List.prefix_refl _, .refl _⟩

theorem trans (left : Kept base s) (right : Kept s t) : Kept base t where
  text := right.text.trans left.text
  markers := right.markers.trans left.markers
  sound := right.sound
  size := Nat.le_trans left.size right.size
  old id inside := (right.old id (Nat.lt_of_lt_of_le inside left.size)).trans (left.old id inside)
  logged := left.logged.trans right.logged
  heard := left.heard.trans right.heard

variable (kept : Kept base s) (sound : base.forest.Sound)

include kept

theorem parts_old {id : Nat} (inside : id < base.forest.size) :
    s.forest.parts id = base.forest.parts id := by
  simp only [Forest.parts, kept.old id inside]

theorem parent_old {id : Nat} (inside : id < base.forest.size) :
    s.forest.parent? id = base.forest.parent? id := by
  simp only [Forest.parent?, kept.old id inside]

include sound

theorem spans_old {id : Nat} (inside : id < base.forest.size) :
    s.forest.start id = base.forest.start id ∧ s.forest.stop id = base.forest.stop id := by
  refine Forest.spans_agree (K := (· < base.forest.size)) sound.linked kept.sound.linked ?_ ?_ inside
  · exact fun _ _ _ owns => sound.linked.part_lt_size owns
  · intro other inside
    obtain ⟨old, found⟩ := Forest.get_of_lt inside
    exact ⟨old, old, found, (kept.old other inside).trans found, rfl, rfl, rfl⟩

theorem stands_old {held : Held} (inside : ∀ id, held.id? = some id → id < base.forest.size) :
    held.start s.forest = held.start base.forest ∧ held.stop s.forest = held.stop base.forest ∧
      (held.Stands base.forest → held.Stands s.forest) := by
  cases held with
  | item id =>
      obtain ⟨starts, stops⟩ := kept.spans_old sound (inside id rfl)
      refine ⟨starts, stops, ?_⟩
      simp only [Held.Stands, starts, stops]
      exact fun stands => stands
  | hollow id =>
      obtain ⟨starts, stops⟩ := kept.spans_old sound (inside id rfl)
      refine ⟨starts, starts, ?_⟩
      simp only [Held.Stands, starts, stops, kept.parts_old (inside id rfl), kept.old id (inside id rfl)]
      exact fun stands => stands
  | word start text => exact ⟨rfl, rfl, id⟩

/-- An item that was there names none that is new. -/
theorem not_owned_by_old {owner part : Nat} (owns : s.forest.Owns owner part)
    (new : base.forest.size ≤ part) : base.forest.size ≤ owner := by
  by_contra old
  have inside := Nat.lt_of_not_le old
  have before : base.forest.Owns owner part := by
    rw [Forest.Owns, ← kept.parts_old inside]
    exact owns
  have := sound.linked.part_lt_size before
  omega

/-- What stands above a new item is new. -/
theorem new_of_below {top id : Nat} (path : Relation.ReflTransGen s.forest.Owns top id)
    (new : base.forest.size ≤ id) : base.forest.size ≤ top := by
  induction path using Relation.ReflTransGen.head_induction_on with
  | refl => exact new
  | head owns _ newBelow => exact kept.not_owned_by_old sound owns newBelow

end Kept

namespace Holding

variable (holding : Holding grammar full base s row b)

include holding

theorem size_pos_of_mem {id : Nat} (member : id ∈ ids row) : id < s.forest.size :=
  ((holding.held id).mp member).2.1

/-- Every new item lies within the row. -/
theorem new_inside {id : Nat} (new : base.forest.size ≤ id) (inside : id < s.forest.size) :
    base.cursor.position ≤ s.forest.start id ∧ s.forest.stop id ≤ b := by
  obtain ⟨top, free, path⟩ := holding.sound.linked.exists_top inside
  have newTop := holding.toKept.new_of_below holding.ready.sound path new
  have topInside : top < s.forest.size := by
    rcases path.cases_head with rfl | ⟨_, owns, _⟩
    · exact inside
    · exact Forest.owner_lt_size owns
  have bounds := holding.placed.inside_id ((holding.held top).mpr ⟨newTop, topInside, free⟩)
  have covers := Forest.span_of_below holding.sound.linked holding.sound.laid path
  exact ⟨Nat.le_trans bounds.1 covers.1, Nat.le_trans covers.2 bounds.2⟩

theorem le : base.cursor.position ≤ b := holding.placed.le

theorem stop_le (id : Nat) : s.forest.stop id ≤ b := by
  by_cases inside : id < s.forest.size
  · by_cases old : id < base.forest.size
    · rw [(holding.toKept.spans_old holding.ready.sound old).2]
      exact Nat.le_trans (holding.ready.behind id) holding.le
    · exact (holding.new_inside (Nat.le_of_not_lt old) inside).2
  · rw [Forest.stop_of_size_le (Nat.le_of_not_lt inside)]
    exact Nat.zero_le b

/-- Where a comment without end has been met there is no more text. -/
theorem atEnd (inside : b ≤ s.cursor.text.size) (strict : full) (met : 0 < s.faults.openComments) :
    b = s.cursor.text.size := by
  obtain ⟨pieces, tally⟩ := holding.tally strict
  rw [holding.text] at inside ⊢
  by_cases before : 0 < base.faults.openComments
  · have already := holding.ready.unclosed strict before
    have := holding.le
    omega
  · have here := tally.unclosed
    exact tally.spaced.atEnd inside (by omega)

/-- Once the cursor has come to the end of the row the parser may go on from there. -/
theorem next (reached : b ≤ s.cursor.position) (inside : s.cursor.position ≤ s.cursor.text.size) :
    s.Ready grammar full where
  sound := holding.sound
  markers := holding.markers.trans holding.ready.markers
  inside := inside
  behind id := Nat.le_trans (holding.stop_le id) reached
  listed := holding.heard.listed holding.ready.listed
  strict := holding.strict
  unclosed strict met := by
    have atEnd := holding.atEnd (Nat.le_trans reached inside) strict met
    exact Nat.le_antisymm inside (atEnd ▸ reached)

end Holding

theorem Ready.holding (ready : s.Ready grammar full) :
    Holding grammar full s s [] s.cursor.position where
  toKept := Kept.refl ready.sound
  ready := ready
  held id := by
    simp only [Held.ids_nil, List.not_mem_nil, false_iff, not_and]
    exact fun new inside => absurd inside (Nat.not_lt_of_le new)
  once := List.nodup_nil
  placed := Nat.le_refl _
  strict := ready.strict
  spelled _ := by simp
  tally _ := ⟨[], CommentMarkers.spaced_refl _ _ _, by simp, by simp [CommentMarkers.countRunsOut],
    by simp [CommentMarkers.commentsBetween], fun _ => Or.inl⟩

/-! Going on -/

/-- Whatever is held in a strict parse can be held in any. -/
theorem Holding.loosen (holding : Holding grammar full base s row b) : Holding grammar False base s row b where
  toKept := holding.toKept
  ready := { holding.ready with strict := False.elim, unclosed := False.elim }
  held := holding.held
  once := holding.once
  placed := holding.placed
  strict := False.elim
  spelled := False.elim
  tally := False.elim

/-- The pieces of two rows, one behind the other. -/
theorem counted_append {more : List Held} {pieces others : List (Nat × Nat)}
    (counted : (s.pieces row).Perm (base.pieces [] ++ pieces))
    (countedMore : (t.pieces more).Perm (s.pieces [] ++ others)) :
    (t.pieces (row ++ more)).Perm (base.pieces [] ++ (pieces ++ others)) := by
  have moved : (t.pieces (row ++ more)).Perm (t.pieces more ++ Held.wordSpans row) := by
    simp only [ParseState.pieces, Held.wordSpans_append, List.append_assoc]
    exact (List.perm_append_comm).append_left _ |>.append_left _
  refine moved.trans ((countedMore.append_right _).trans ?_)
  have restored : (s.pieces [] ++ others ++ Held.wordSpans row).Perm (s.pieces row ++ others) := by
    simp only [ParseState.pieces, Held.wordSpans_nil, List.append_nil, List.append_assoc]
    exact (List.perm_append_comm).append_left _ |>.append_left _
  refine restored.trans ?_
  rw [← List.append_assoc]
  exact counted.append_right _

namespace Holding

/-- What is held from `base` to `s`, and then from `s` to `t`. -/
theorem append {more : List Held} (first : Holding grammar full base s row s.cursor.position)
    (second : Holding grammar full s t more c) : Holding grammar full base t (row ++ more) c where
  toKept := first.toKept.trans second.toKept
  ready := first.ready
  held id := by
    rw [Held.ids_append, List.mem_append, first.held, second.held]
    have size := first.size
    have sizeMore := second.size
    constructor
    · rintro (⟨new, inside, free⟩ | ⟨new, inside, free⟩)
      · rw [second.toKept.parent_old inside]
        exact ⟨new, by omega, free⟩
      · exact ⟨by omega, inside, free⟩
    · rintro ⟨new, inside, free⟩
      by_cases old : id < s.forest.size
      · rw [second.toKept.parent_old old] at free
        exact Or.inl ⟨new, old, free⟩
      · exact Or.inr ⟨Nat.le_of_not_lt old, inside, free⟩
  once := by
    rw [Held.ids_append]
    refine List.nodup_append.mpr ⟨first.once, second.once, ?_⟩
    rintro id inRow other inMore rfl
    have old := ((first.held id).mp inRow).2.1
    have new := ((second.held id).mp inMore).1
    omega
  placed := by
    refine Forest.row_append.mpr ⟨s.cursor.position, first.placed.congr ?_, second.placed⟩
    intro held member
    refine second.toKept.stands_old first.sound ?_
    intro id isId
    exact first.size_pos_of_mem (List.mem_filterMap.mpr ⟨held, member, isId⟩)
  strict := second.strict
  spelled strict start text member := by
    rcases List.mem_append.mp member with inRow | inMore
    · exact first.spelled strict start text inRow
    · rw [← first.text]
      exact second.spelled strict start text inMore
  tally strict := by
    obtain ⟨pieces, spaced, counted, unclosed, noted, only⟩ := first.tally strict
    obtain ⟨others, spacedMore, countedMore, unclosedMore, notedMore, onlyMore⟩ := second.tally strict
    rw [first.text] at spacedMore unclosedMore notedMore onlyMore
    refine ⟨pieces ++ others, spaced.append spacedMore, ?_, ?_, ?_, ?_⟩
    · exact counted_append counted countedMore
    · rw [unclosedMore, unclosed, CommentMarkers.countRunsOut_append spaced spacedMore, Nat.add_assoc]
    · intro comment member
      rw [CommentMarkers.commentsBetween_append spaced spacedMore] at member
      rcases List.mem_append.mp member with early | late
      · exact (noted comment early).imp_left (second.heard.keeps ·)
      · exact notedMore comment late
    · intro comment member
      rw [CommentMarkers.commentsBetween_append spaced spacedMore]
      rcases onlyMore comment member with early | late | onTrial
      · exact (only comment early).imp_right (Or.imp_left (List.mem_append_left _))
      · exact Or.inr (Or.inl (List.mem_append_right _ late))
      · exact Or.inr (Or.inr onTrial)

variable (holding : Holding grammar full base s row b)

include holding

/-- The cursor may move, and sightings may be noted, and comments behind a keyword. -/
theorem of_same (forest : t.forest = s.forest) (faults : t.faults = s.faults)
    (text : t.cursor.text = s.cursor.text) (markers : t.cursor.markers = s.cursor.markers)
    (heard : s.cursor.Hears t.cursor)
    (comments : full → ∀ comment ∈ t.cursor.comments,
      comment ∈ s.cursor.comments ∨ grammar.BehindKeyword s.cursor.text comment) :
    Holding grammar full base t row b where
  text := text.trans holding.text
  markers := markers.trans holding.markers
  sound := forest ▸ holding.sound
  size := forest ▸ holding.size
  old := forest ▸ holding.old
  logged := faults ▸ holding.logged
  heard := holding.heard.trans heard
  ready := holding.ready
  held := forest ▸ holding.held
  once := holding.once
  placed := forest ▸ holding.placed
  strict strict := by
    have before := holding.strict strict
    exact ⟨by rw [forest, text]; exact before.exact, by rw [forest, text, faults]; exact before.named,
      by rw [forest]; exact before.plain, by rw [faults]; exact before.mild,
      by rw [faults, text]; exact before.located⟩
  spelled := holding.spelled
  tally strict := by
    obtain ⟨pieces, spaced, counted, unclosed, noted, only⟩ := holding.tally strict
    refine ⟨pieces, spaced, ?_, faults ▸ unclosed, fun comment member =>
      (noted comment member).imp_left (heard.keeps ·), fun comment member => ?_⟩
    · rw [ParseState.pieces, forest, faults]
      exact counted
    · rcases comments strict comment member with old | onTrial
      · exact only comment old
      · exact Or.inr (Or.inr (holding.text ▸ onTrial))

/-- In a parse that is not strict anything may be passed over. -/
theorem pass (idle : ¬ full) (further : b ≤ c) : Holding grammar full base s row c where
  toKept := holding.toKept
  ready := holding.ready
  held := holding.held
  once := holding.once
  placed := holding.placed.weaken (Nat.le_refl _) further
  strict := holding.strict
  spelled := holding.spelled
  tally strict := absurd strict idle

/-- Behind `b` a gap is passed over. Its comments are noted, and one without end is reported. -/
theorem gap {reports : Faults} {cursor : Cursor} (text : cursor.text = s.cursor.text)
    (markers : cursor.markers = s.cursor.markers) (heard : s.cursor.Hears cursor)
    (comments : ∀ comment, comment ∈ cursor.comments ↔ comment ∈ s.cursor.comments ∨
      comment ∈ grammar.comments.commentsFrom base.cursor.text b)
    (calm : ∀ fault ∈ reports, fault.Mild)
    (located : ∀ fault ∈ reports, fault.Located s.cursor.text.size) (apart : reports.pieces = [])
    (met : full → reports.openComments = (grammar.comments.runsOut base.cursor.text b).toNat) :
    Holding grammar full base { s with cursor, faults := s.faults ++ reports } row
      (grammar.comments.gapEnd base.cursor.text b) where
  text := text.trans holding.text
  markers := markers.trans holding.markers
  sound := holding.sound
  size := holding.size
  old := holding.old
  logged := holding.logged.trans (List.prefix_append _ _)
  heard := holding.heard.trans heard
  ready := holding.ready
  held := holding.held
  once := holding.once
  placed := holding.placed.weaken (Nat.le_refl _) CommentMarkers.le_gapEnd
  strict strict := by
    have before := holding.strict strict
    have named := before.named_of_more (List.subset_append_left _ reports)
    have exact_ := before.exact
    have within := List.forall_mem_append.mpr ⟨before.located, located⟩
    rw [← text] at named exact_ within
    exact ⟨exact_, named, before.plain, List.forall_mem_append.mpr ⟨before.mild, calm⟩, within⟩
  spelled := holding.spelled
  tally strict := by
    obtain ⟨pieces, spaced, counted, unclosed, noted, only⟩ := holding.tally strict
    have right := CommentMarkers.spaced_gap grammar.comments base.cursor.text b
    have runsOut := CommentMarkers.countRunsOut_append spaced right
    have passed := CommentMarkers.commentsBetween_append spaced right
    rw [List.append_nil, CommentMarkers.countRunsOut_gap] at runsOut
    rw [List.append_nil, CommentMarkers.commentsBetween_gap] at passed
    refine ⟨pieces, by simpa using spaced.append right, ?_, ?_, ?_, ?_⟩
    -- A gap adds no pieces, at most one comment without end, and the comments in it.
    · simpa [ParseState.pieces, Faults.pieces, show List.filterMap _ reports = [] from apart] using counted
    · have split : (s.faults ++ reports).openComments = s.faults.openComments + reports.openComments :=
        List.countP_append
      rw [split, unclosed, met strict, runsOut, Nat.add_assoc]
    · intro comment member
      rw [passed] at member
      rcases List.mem_append.mp member with early | inGap
      · exact (noted comment early).imp_left fun old => (comments comment).mpr (Or.inl old)
      · exact Or.inl ((comments comment).mpr (Or.inr inGap))
    · intro comment member
      rw [passed]
      rcases (comments comment).mp member with old | inGap
      · exact (only comment old).imp_right (Or.imp_left (List.mem_append_left _))
      · exact Or.inr (Or.inl (List.mem_append_right _ inGap))

/-- A fault that stands for no skipped characters. -/
theorem fault (start length : Nat) {cause : Fault.Cause} (quiet : cause.Quiet)
    (located : full → Fault.Located s.cursor.text.size ⟨start, length, cause, false⟩) :
    Holding grammar full base
      { s with faults := s.faults ++ [⟨start, length, cause, false⟩] } row b where
  text := holding.text
  markers := holding.markers
  sound := holding.sound
  size := holding.size
  old := holding.old
  logged := holding.logged.trans (List.prefix_append _ _)
  heard := holding.heard
  ready := holding.ready
  held := holding.held
  once := holding.once
  placed := holding.placed
  strict strict := by
    have before := holding.strict strict
    have calm : Fault.Mild ⟨start, length, cause, false⟩ := ⟨rfl, quiet.1⟩
    exact before.report calm (located strict)
  spelled := holding.spelled
  tally strict := by
    obtain ⟨pieces, tally⟩ := holding.tally strict
    have none : Fault.piece? ⟨start, length, cause, false⟩ = none :=
      if_neg (not_or.mpr ⟨quiet.2.1, quiet.2.2.1⟩)
    have other : (Fault.code ⟨start, length, cause, false⟩ == .commentNotClosed) = false :=
      beq_eq_false_iff_ne.mpr quiet.2.2.2
    refine ⟨pieces, tally.of_perm (List.Perm.of_eq ?_) ?_ rfl⟩
    · simp [ParseState.pieces, Faults.pieces, none]
    · simp [Faults.openComments, List.countP_append, other]

/-- Characters that are skipped with a fault. -/
theorem skipped (fault : Fault) (further : b ≤ fault.stop) (mild : full → fault.Mild)
    (located : full → fault.Located s.cursor.text.size)
    (some : full → fault.piece? = some (fault.start, fault.stop))
    (here : full → b = fault.start ∧ grammar.comments.gapEnd base.cursor.text b = b ∧
      fault.start < fault.stop ∧ fault.start < base.cursor.text.size) :
    Holding grammar full base { s with faults := s.faults ++ [fault] } row fault.stop where
  text := holding.text
  markers := holding.markers
  sound := holding.sound
  size := holding.size
  old := holding.old
  logged := holding.logged.trans (List.prefix_append _ _)
  heard := holding.heard
  ready := holding.ready
  held := holding.held
  once := holding.once
  placed := holding.placed.weaken (Nat.le_refl _) further
  strict strict := by
    have before := holding.strict strict
    exact before.report (mild strict) (located strict)
  spelled := holding.spelled
  tally strict := by
    obtain ⟨pieces, tally⟩ := holding.tally strict
    obtain ⟨rfl, settled, nonempty, inside⟩ := here strict
    have other : fault.code ≠ .commentNotClosed := by
      intro isComment
      simp [Fault.piece?, isComment] at some
      exact absurd strict some
    refine ⟨_, tally.snoc settled nonempty inside
      (by simp [CommentMarkers.commentsFrom_of_settled settled]) ?_ ?_ rfl⟩
    · simp only [ParseState.pieces, Faults.pieces, List.filterMap_append, List.filterMap_cons,
        some strict, List.filterMap_nil, List.append_assoc]
      exact (List.perm_append_comm).append_left _ |>.append_left _
    · simp [Faults.openComments, List.countP_append, other]

end Holding

end ParseState

end ExprLang
