import ExprLang.Proofs.Stock
import ExprLang.Proofs.Tandem.Lock

/-!
From characters to laws. Two texts run together from a place on as long as their characters
correspond. Where they part, at the end of a text or where different gaps begin, stand characters
that are in no word of the grammar, in no name and in no number. So all that the grammar finds at a
place it finds at the corresponding place of the other text.
-/

namespace ExprLang

namespace Tandem

variable (W : Tandem)

/-- From `place` on `count` characters of the texts correspond, and so do the places between them. -/
structure Together (along : Nat → Prop) (place count : Nat) : Prop where
  along : ∀ k ≤ count, along (place + k)
  move : ∀ k ≤ count, W.move (place + k) = W.move place + k
  char : ∀ k < count, ∃ c, W.text[place + k]? = some c ∧ W.other[W.move place + k]? = some (W.fold c)

/-- Nothing of the grammar goes on here, in either text. -/
def Halts (halting : Char → Prop) (place : Nat) : Prop :=
  (∀ c, W.text[place]? = some c → halting c) ∧ ∀ c, W.other[W.move place]? = some c → halting c

/-- What the grammar tells of folded characters and of those that halt. -/
structure Fair (halting : Char → Prop) : Prop where
  plain : W.grammar.extensions = []
  named : W.grammar.Named
  symbol : ∀ symbol ∈ W.grammar.symbols, ∀ e ∈ symbol.toList,
    (∀ c, sameChar W.grammar.caseSensitive (W.fold c) e = sameChar W.grammar.caseSensitive c e) ∧
      ∀ c, halting c → sameChar W.grammar.caseSensitive c e = false
  literal : ∀ c k, W.grammar.isLiteralChar (W.fold c) k = W.grammar.isLiteralChar c k
  unnamed : ∀ c k, halting c → W.grammar.isLiteralChar c k = false
  numbers : ∃ fits : CharSet → Prop,
    (∀ rule ∈ W.grammar.numericRules, rule.pattern.Anchored fits) ∧
      ∀ set, fits set → (∀ c, set.holds (W.fold c) = set.holds c) ∧ ∀ c, halting c → set.holds c = false
  blank : W.fold ' ' = ' '
  fold : ∀ c d, (d ∈ [',', '(', ')', '[', ']', '\\'] ∨ d ∈ W.grammar.quotes ∨
    some d = W.grammar.separator) → (W.fold c = d ↔ c = d)
  separates : ∀ c, some c = W.grammar.separator → Grammar.isBrace c = false

variable {W} {along calm : Nat → Prop} {halting : Char → Prop} {place count : Nat}

namespace Together

theorem zero (here : along place) : W.Together along place 0 where
  along k none := by
    obtain rfl := Nat.le_zero.mp none
    exact here
  move k none := by
    obtain rfl := Nat.le_zero.mp none
    rfl
  char k none := absurd none (Nat.not_lt_zero k)

theorem cons {c : Char} (first : along place) (here : W.text[place]? = some c)
    (there : W.other[W.move place]? = some (W.fold c)) (move : W.move (place + 1) = W.move place + 1)
    (later : W.Together along (place + 1) count) : W.Together along place (count + 1) where
  along k within := by
    cases k with
    | zero => exact first
    | succ k => exact Nat.add_right_comm place 1 k ▸ later.along k (Nat.le_of_succ_le_succ within)
  move k within := by
    cases k with
    | zero => rfl
    | succ k =>
        have := later.move k (Nat.le_of_succ_le_succ within)
        rw [Nat.add_right_comm] at this
        rw [← Nat.add_assoc, this, move]
        omega
  char k within := by
    cases k with
    | zero => exact ⟨c, here, there⟩
    | succ k =>
        obtain ⟨d, hereLater, thereLater⟩ := later.char k (Nat.lt_of_succ_lt_succ within)
        rw [Nat.add_right_comm] at hereLater
        rw [move, Nat.add_right_comm] at thereLater
        exact ⟨d, hereLater, thereLater⟩

variable (together : W.Together along place count)

include together

theorem take {fewer : Nat} (le : fewer ≤ count) : W.Together along place fewer where
  along k within := together.along k (Nat.le_trans within le)
  move k within := together.move k (Nat.le_trans within le)
  char k within := together.char k (Nat.lt_of_lt_of_le within le)

theorem inside (positive : 0 < count) :
    place + count ≤ W.text.size ∧ W.move place + count ≤ W.other.size := by
  obtain ⟨c, here, there⟩ := together.char (count - 1) (by omega)
  have := (Array.getElem?_eq_some_iff.mp here).1
  have := (Array.getElem?_eq_some_iff.mp there).1
  omega

/-- The characters of both texts, one by one. -/
theorem extract : (W.other.extract (W.move place) (W.move place + count)).toList =
    (W.text.extract place (place + count)).toList.map W.fold := by
  refine List.ext_getElem? fun k => ?_
  simp only [Array.getElem?_toList, List.getElem?_map, Array.getElem?_extract]
  by_cases within : k < count
  · obtain ⟨c, here, there⟩ := together.char k within
    have inText := (Array.getElem?_eq_some_iff.mp here).1
    have inOther := (Array.getElem?_eq_some_iff.mp there).1
    rw [if_pos (by omega), if_pos (by omega), here, there, Option.map_some]
  · rw [if_neg (by omega), if_neg (by omega), Option.map_none]

theorem slice : W.other.slice (W.move place) (W.move place + count) =
    W.word (W.text.slice place (place + count)) := by
  rw [Text.slice, Text.slice, word, together.extract, String.toList_ofList]

end Together

/-! Symbols -/

section Symbols

variable (step : ∀ p, along p → W.Together along p 1 ∨ W.Halts halting p)

include step

/-- A word that knows nothing of what halts is written in both texts or in none. -/
theorem spells_alike {caseSensitive : Bool} {symbol : List Char} (onward : along place)
    (fair : ∀ e ∈ symbol, (∀ c, sameChar caseSensitive (W.fold c) e = sameChar caseSensitive c e) ∧
      ∀ c, halting c → sameChar caseSensitive c e = false) :
    W.other.spells caseSensitive symbol (W.move place) = W.text.spells caseSensitive symbol place ∧
      (W.text.spells caseSensitive symbol place = true → W.Together along place symbol.length) := by
  induction symbol generalizing place with
  | nil => exact ⟨rfl, fun _ => .zero onward⟩
  | cons e symbol ih =>
      have fairHere := fair e List.mem_cons_self
      rcases step place onward with together | ⟨here, there⟩
      · obtain ⟨c, here, there⟩ := together.char 0 Nat.one_pos
        have move : W.move (place + 1) = W.move place + 1 := together.move 1 (Nat.le_refl 1)
        obtain ⟨same, goesOn⟩ := ih (together.along 1 (Nat.le_refl 1))
          fun e member => fair e (List.mem_cons_of_mem _ member)
        simp only [Nat.add_zero] at here there
        unfold Text.spells
        rw [here, there]
        dsimp only
        rw [fairHere.1, ← move, same]
        refine ⟨rfl, fun spelled => ?_⟩
        exact (goesOn (Bool.and_eq_true_iff.mp spelled).2).cons onward here there move
      · have never : ∀ {text : Text} {p : Nat}, (∀ c, text[p]? = some c → halting c) →
            text.spells caseSensitive (e :: symbol) p = false := by
          intro text p halts
          unfold Text.spells
          cases found : text[p]? with
          | none => rfl
          | some c =>
              dsimp only
              rw [fairHere.2 c (halts c found), Bool.false_and]
        rw [never here, never there]
        exact ⟨rfl, by rintro ⟨⟩⟩

theorem isWritten_alike {caseSensitive : Bool} {symbol : String} (onward : along place)
    (fair : ∀ e ∈ symbol.toList,
      (∀ c, sameChar caseSensitive (W.fold c) e = sameChar caseSensitive c e) ∧
        ∀ c, halting c → sameChar caseSensitive c e = false) :
    W.other.isWritten caseSensitive (W.move place) symbol = W.text.isWritten caseSensitive place symbol ∧
      (W.text.isWritten caseSensitive place symbol = true → W.Together along place symbol.length) := by
  obtain ⟨same, together⟩ := spells_alike step onward fair
  rw [Text.isWritten, Text.isWritten, same]
  refine ⟨rfl, fun written => ?_⟩
  rw [← String.length_toList]
  exact together (Bool.and_eq_true_iff.mp written).2

end Symbols

/-! Gaps -/

/-- Blanks from `a` to `b`, and no comment among them. -/
def Blanks (markers : CommentMarkers) (text : Text) (a b : Nat) : Prop :=
  ∀ i, a ≤ i → i < b → markers.commentAt? text i = none ∧ text.isBlankAt i = true

/-- From corresponding places both texts come through blanks to corresponding places. -/
def Rejoin (W : Tandem) (calm : Nat → Prop) (p p' q : Nat) : Prop :=
  p ≤ q ∧ p' ≤ W.move q ∧ calm q ∧ Blanks W.grammar.comments W.text p q ∧
    Blanks W.grammar.comments W.other p' (W.move q)

/-- Corresponding comments start at corresponding places, and so do the gaps behind them go on. -/
def CommentAlike (W : Tandem) (calm : Nat → Prop) (place : Nat) : Prop :=
  W.grammar.comments.commentAt? W.text place = none ∧
      W.grammar.comments.commentAt? W.other (W.move place) = none ∨
    ∃ comment image q, W.grammar.comments.commentAt? W.text place = some comment ∧
      W.grammar.comments.commentAt? W.other (W.move place) = some image ∧
      W.Rejoin calm comment.stop image.stop q ∧ image.closed = comment.closed

/-- How two texts run: together, or halting, or through blanks of their own to places that
correspond. Along a word all places count. From calm places on gaps correspond; these are the places
behind tokens, and those behind the words of names that may break off. -/
structure Course (W : Tandem) (along calm : Nat → Prop) (halting : Char → Prop) : Prop
    extends Fair W halting where
  front_iff : ∀ p, W.front p ↔ W.rest p ∧ W.grammar.comments.Settled W.text p
  gap : ∀ p, W.rest p → W.rest (W.grammar.comments.gapEnd W.text p)
  calm_of_rest : ∀ p, W.rest p → calm p
  onward : ∀ p, calm p → along p
  inside : ∀ p, calm p → p ≤ W.text.size ∧ W.move p ≤ W.other.size
  ascends : ∀ p q, calm p → calm q → p < q → W.move p < W.move q
  distance : W.rigid → ∃ distance, (∀ p, W.move p = p + distance) ∧
    W.other.size = W.text.size + distance
  expects : W.rigid → ∀ p length, W.expects p length
  step : ∀ p, along p → W.Together along p 1 ∨ W.Halts halting p
  comment : ∀ p, calm p → W.CommentAlike calm p
  blanks : ∀ p, calm p → W.grammar.comments.commentAt? W.text p = none →
    W.text.isBlankAt p = false ∧ W.other.isBlankAt (W.move p) = false ∨
      ∃ q, p < q ∧ W.Rejoin calm p (W.move p) q
  reach : ∀ p length, W.expects p length → W.front p → p + length ≤ W.text.size →
    W.Together along p length ∧ W.rest (p + length)
  breaks : ∀ p q, W.front p → W.grammar.NameBegins W.text p q → calm q
  lands : ∀ p length, W.expects p length → calm p → W.grammar.comments.Settled W.text p → W.front p
  char : ∀ p, W.front p → W.other[W.move p]? = W.text[p]?.map W.fold ∨
    ¬ W.rigid ∧ W.text[p]? = none ∧ ∃ c, W.other[W.move p]? = some c ∧ some c = W.grammar.separator
  quoted : ∀ p quote, W.front p → W.text[p]? = some quote → quote ∈ W.grammar.quotes → ¬ halting quote
  decoded : ∀ text text', ((∀ c, W.fold c = c) → text' = text) → W.decoded text text'

theorem skipGapWithin_blanks {cursor : Cursor} {stop : Nat} {unclosed : Option Nat}
    (blanks : Blanks cursor.markers cursor.text cursor.position stop) (le : cursor.position ≤ stop)
    {pieces : Nat} (enough : stop - cursor.position ≤ pieces) :
    Cursor.skipGapWithin pieces cursor unclosed =
      Cursor.skipGapWithin (pieces - (stop - cursor.position)) { cursor with position := stop } unclosed := by
  induction pieces generalizing cursor with
  | zero =>
      obtain rfl : cursor.position = stop := by omega
      rw [Nat.sub_self]
  | succ pieces ih =>
      rcases Nat.eq_or_lt_of_le le with rfl | less
      · rw [Nat.sub_self, Nat.sub_zero]
      · obtain ⟨none, blank⟩ := blanks cursor.position (Nat.le_refl _) less
        rw [Cursor.skipGapWithin, none]
        dsimp only
        rw [if_pos blank]
        rw [@ih { cursor with position := cursor.position + 1 }
          (fun i above below => blanks i (Nat.le_of_succ_le above) below) less (by dsimp only; omega)]
        congr 1
        dsimp only
        omega

theorem skipGapWithin_settled {cursor : Cursor} {unclosed : Option Nat}
    (settled : cursor.markers.Settled cursor.text cursor.position) (pieces : Nat) :
    Cursor.skipGapWithin pieces cursor unclosed = (cursor, unclosed) := by
  cases pieces with
  | zero => rfl
  | succ pieces => simp [Cursor.skipGapWithin, settled.1, settled.2]

namespace Course

variable (course : Course W along calm halting)

include course

/-- Both gaps end at places that correspond, and their comments without end begin so. -/
theorem skipGapWithin_alike {c d : Cursor} (text : c.text = W.text) (other : d.text = W.other)
    (markers : c.markers = W.grammar.comments) (markersOther : d.markers = W.grammar.comments)
    (here : calm c.position) (moved : d.position = W.move c.position) {unclosed : Option Nat}
    {pieces pieces' : Nat} (enough : W.text.size - c.position ≤ pieces)
    (enough' : W.other.size - d.position ≤ pieces') :
    calm (Cursor.skipGapWithin pieces c unclosed).1.position ∧
      (Cursor.skipGapWithin pieces' d (unclosed.map W.move)).1.position =
        W.move (Cursor.skipGapWithin pieces c unclosed).1.position ∧
      (Cursor.skipGapWithin pieces' d (unclosed.map W.move)).2 =
        (Cursor.skipGapWithin pieces c unclosed).2.map W.move := by
  induction remaining : W.text.size - c.position using Nat.strongRecOn
    generalizing c d unclosed pieces pieces' with
  | ind remaining ih =>
      obtain ⟨inside, insideOther⟩ := course.inside _ here
      rcases course.comment _ here with ⟨none, noneOther⟩ |
          ⟨comment, image, q, found, foundOther, ⟨le, leOther, calmQ, blanks, blanksOther⟩, closed⟩
      · rcases course.blanks _ here none with ⟨solid, solidOther⟩ |
            ⟨q, less, _, leOther, calmQ, blanks, blanksOther⟩
        -- Neither a comment nor a blank: the gap ends at both places.
        · have settled : c.markers.Settled c.text c.position := by
            rw [text, markers]
            exact ⟨none, solid⟩
          have settledOther : d.markers.Settled d.text d.position := by
            rw [other, markersOther, moved]
            exact ⟨noneOther, solidOther⟩
          rw [skipGapWithin_settled settled, skipGapWithin_settled settledOther]
          exact ⟨here, moved, rfl⟩
        -- Blanks up to the next place that both runs have in common.
        · have insideQ := course.inside q calmQ
          rw [← text, ← markers] at blanks
          rw [← other, ← markersOther, ← moved] at blanksOther
          rw [skipGapWithin_blanks blanks (by omega) (by omega),
            skipGapWithin_blanks blanksOther (by omega) (by omega)]
          exact @ih (W.text.size - q) (by omega) { c with position := q }
            { d with position := W.move q } text other markers markersOther calmQ rfl unclosed _ _
            (by dsimp only; omega) (by dsimp only; omega) rfl
      -- A comment in both texts, and the blanks behind its image.
      · have start := CommentMarkers.start_of_commentAt found
        have startOther := CommentMarkers.start_of_commentAt foundOther
        obtain ⟨longer, bound⟩ := CommentMarkers.commentAt_inside found
        obtain ⟨longerOther, boundOther⟩ := CommentMarkers.commentAt_inside foundOther
        obtain ⟨pieces, rfl⟩ : ∃ fewer, pieces = fewer + 1 := ⟨pieces - 1, by omega⟩
        obtain ⟨pieces', rfl⟩ : ∃ fewer, pieces' = fewer + 1 := ⟨pieces' - 1, by omega⟩
        rw [← text, ← markers] at found
        rw [← other, ← markersOther, ← moved] at foundOther
        rw [Cursor.skipGapWithin, Cursor.skipGapWithin, found, foundOther]
        dsimp only
        have same : (if image.closed = true then unclosed.map W.move else some image.start) =
            (if comment.closed = true then unclosed else some comment.start).map W.move := by
          rw [closed, start, startOther]
          split <;> rfl
        have insideQ := course.inside q calmQ
        rw [← text, ← markers] at blanks
        rw [← other, ← markersOther] at blanksOther
        rw [same, @skipGapWithin_blanks
            { c with position := comment.stop, comments := comment.record c.comments } q _
            blanks le pieces (by dsimp only; omega),
          @skipGapWithin_blanks
            { d with position := image.stop, comments := image.record d.comments } (W.move q) _
            blanksOther leOther pieces' (by dsimp only; omega)]
        exact @ih (W.text.size - q) (by omega)
          { c with position := q, comments := comment.record c.comments }
          { d with position := W.move q, comments := image.record d.comments }
          text other markers markersOther calmQ rfl _ _ _
          (by dsimp only; omega) (by dsimp only; omega) rfl

theorem skipGap_alike {c d : Cursor} (text : c.text = W.text) (other : d.text = W.other)
    (markers : c.markers = W.grammar.comments) (markersOther : d.markers = W.grammar.comments)
    (here : calm c.position) (moved : d.position = W.move c.position) :
    calm c.skipGap.1.position ∧ d.skipGap.1.position = W.move c.skipGap.1.position ∧
      d.skipGap.2 = c.skipGap.2.map W.move :=
  @skipGapWithin_alike W along calm halting course c d text other markers markersOther here moved none _ _
    (by rw [Cursor.remaining, text]) (by rw [Cursor.remaining, other])

theorem gapEnd_alike (here : calm place) : calm (W.grammar.comments.gapEnd W.text place) ∧
    W.grammar.comments.gapEnd W.other (W.move place) = W.move (W.grammar.comments.gapEnd W.text place) := by
  let c : Cursor := { text := W.text, markers := W.grammar.comments, position := place }
  let d : Cursor := { text := W.other, markers := W.grammar.comments, position := W.move place }
  obtain ⟨there, moved, _⟩ := @skipGap_alike W along calm halting course c d rfl rfl rfl rfl here rfl
  rw [Cursor.position_skipGap] at there moved
  rw [Cursor.position_skipGap] at moved
  exact ⟨there, moved⟩

/-! Words -/

theorem literal_alike (onward : along place) (k : Nat) :
    W.other[W.move place]?.any (W.grammar.isLiteralChar · k) =
      W.text[place]?.any (W.grammar.isLiteralChar · k) := by
  rcases course.step place onward with together | ⟨here, there⟩
  · obtain ⟨c, here, there⟩ := together.char 0 Nat.one_pos
    simp only [Nat.add_zero] at here there
    rw [here, there, Option.any_some, Option.any_some, course.literal]
  · have none : ∀ {c? : Option Char}, (∀ c, c? = some c → halting c) →
        c?.any (W.grammar.isLiteralChar · k) = false := by
      intro c? halts
      cases c? with
      | none => rfl
      | some c => exact course.unnamed c k (halts c rfl)
    rw [none here, none there]

theorem isSymbolAt_alike {symbol : String} (listed : symbol ∈ W.grammar.symbols) (onward : along place) :
    W.grammar.isSymbolAt W.other (W.move place) symbol = W.grammar.isSymbolAt W.text place symbol ∧
      (W.grammar.isSymbolAt W.text place symbol = true → W.Together along place symbol.length) := by
  obtain ⟨same, together⟩ := isWritten_alike course.step onward (course.symbol symbol listed)
  refine ⟨?_, fun written => together (Bool.and_eq_true_iff.mp written).1⟩
  rw [Grammar.isSymbolAt, Grammar.isSymbolAt, same]
  cases written : W.text.isWritten W.grammar.caseSensitive place symbol with
  | false => rfl
  | true =>
      have together := together written
      have next := course.literal_alike (together.along _ (Nat.le_refl _)) 1
      rw [together.move _ (Nat.le_refl _)] at next
      rw [next]

theorem keywordAt_alike (onward : along place) :
    W.grammar.keywordAt? W.other (W.move place) = W.grammar.keywordAt? W.text place := by
  have same : ∀ keyword ∈ W.grammar.keywords,
      W.grammar.isSymbolAt W.other (W.move place) keyword.text =
        W.grammar.isSymbolAt W.text place keyword.text := fun keyword member =>
    (course.isSymbolAt_alike (by
      simp only [Grammar.symbols, List.mem_append]
      exact Or.inl (Or.inl (List.mem_map_of_mem member))) onward).1
  rw [Grammar.keywordAt?, Grammar.keywordAt?, List.filter_congr same]

theorem isBlockStartAt_alike (onward : along place) :
    W.grammar.isBlockStartAt W.other (W.move place) = W.grammar.isBlockStartAt W.text place := by
  rw [Grammar.isBlockStartAt, Grammar.isBlockStartAt]
  cases block : W.grammar.codeBlock with
  | none => rfl
  | some pair => exact (course.isSymbolAt_alike (by simp [Grammar.symbols, block]) onward).1

theorem isBlockEndAt_alike (onward : along place) :
    W.grammar.isBlockEndAt W.other (W.move place) = W.grammar.isBlockEndAt W.text place := by
  rw [Grammar.isBlockEndAt, Grammar.isBlockEndAt]
  cases block : W.grammar.codeBlock with
  | none => rfl
  | some pair => exact (course.isSymbolAt_alike (by simp [Grammar.symbols, block]) onward).1

/-! Operators -/

omit course in
/-- The image of the place and the length of a word. -/
def carrySpan (W : Tandem) (span : Nat × Nat) : Nat × Nat := (W.move span.1, span.2)

/-- The next words of an operator, behind all of which but the last a gap begins. -/
theorem moreSpans_alike {parts : List String} (listed : ∀ part ∈ parts, part ∈ W.grammar.symbols)
    (breaks : ∀ words more spans, parts = words ++ more → more ≠ [] →
      W.grammar.moreSpans? W.text place words = some spans → calm (Grammar.spansEnd place spans)) :
    W.grammar.moreSpans? W.other (W.move place) parts =
        (W.grammar.moreSpans? W.text place parts).map (·.map (carrySpan W)) ∧
      ∀ spans, W.grammar.moreSpans? W.text place parts = some spans → ∀ span ∈ spans,
        (calm span.1 ∧ W.grammar.comments.Settled W.text span.1) ∧ W.Together along span.1 span.2 := by
  induction parts generalizing place with
  | nil => exact ⟨rfl, by rintro spans ⟨⟩ span ⟨⟩⟩
  | cons part parts ih =>
      have here : calm place := breaks [] (part :: parts) [] rfl (List.cons_ne_nil _ _) rfl
      obtain ⟨calmStart, moved⟩ := course.gapEnd_alike here
      have apart : W.move (W.grammar.comments.gapEnd W.text place) = W.move place ↔
          W.grammar.comments.gapEnd W.text place = place := by
        refine ⟨fun same => ?_, fun same => congrArg W.move same⟩
        by_contra further
        have := course.ascends _ _ here calmStart
          (Nat.lt_of_le_of_ne CommentMarkers.le_gapEnd (Ne.symm further))
        omega
      obtain ⟨same, together⟩ := course.isSymbolAt_alike (listed part List.mem_cons_self)
        (course.onward _ calmStart)
      simp only [Grammar.moreSpans?, moved, apart, same]
      split
      · exact ⟨rfl, by rintro _ ⟨⟩⟩
      · rename_i further
        split
        · rename_i written
          have together := together written
          have later := @ih (W.grammar.comments.gapEnd W.text place + part.length)
            (fun part member => listed part (List.mem_cons_of_mem _ member)) fun words more spans name left found => by
              have longer : W.grammar.moreSpans? W.text place (part :: words) =
                  some ((W.grammar.comments.gapEnd W.text place, part.length) :: spans) := by
                simp only [Grammar.moreSpans?, if_neg further, if_pos written, found, Option.map_some]
              have ends := breaks (part :: words) more _ (congrArg (part :: ·) name) left longer
              rwa [Grammar.spansEnd_cons] at ends
          obtain ⟨later, laterTogether⟩ := later
          rw [together.move _ (Nat.le_refl _)] at later
          refine ⟨?_, fun spans found => ?_⟩
          · rw [later, Option.map_map, Option.map_map]
            rfl
          · obtain ⟨others, foundLater, rfl⟩ := Option.map_eq_some_iff.mp found
            exact List.forall_mem_cons.mpr ⟨⟨⟨calmStart, CommentMarkers.settled_gapEnd⟩, together⟩,
              laterTogether others foundLater⟩
        · exact ⟨rfl, by rintro _ ⟨⟩⟩

theorem spans_alike {operator : Operator} (member : operator ∈ W.grammar.operators)
    (front : W.front place) :
    W.grammar.spans? W.other (W.move place) operator.nameParts =
        (W.grammar.spans? W.text place operator.nameParts).map (·.map (carrySpan W)) ∧
      ∀ spans, W.grammar.spans? W.text place operator.nameParts = some spans → ∀ span ∈ spans,
        (calm span.1 ∧ W.grammar.comments.Settled W.text span.1) ∧ W.Together along span.1 span.2 := by
  have listed : ∀ part ∈ operator.nameParts, part ∈ W.grammar.symbols := by
    intro part inName
    simp only [Grammar.symbols, List.mem_append]
    exact Or.inl (Or.inr (List.mem_flatMap.mpr ⟨operator, member, inName⟩))
  have breaks : ∀ words more spans, operator.nameParts = words ++ more → words ≠ [] → more ≠ [] →
      W.grammar.spans? W.text place words = some spans → calm (Grammar.spansEnd place spans) :=
    fun words more spans name filled left found =>
      course.breaks place _ front ⟨operator, member, words, more, spans, name, filled, left, found, rfl⟩
  generalize operator.nameParts = parts at listed breaks
  obtain ⟨rest, settled⟩ := (course.front_iff place).mp front
  have here := course.calm_of_rest place rest
  cases parts with
  | nil => exact ⟨rfl, by rintro spans ⟨⟩ span ⟨⟩⟩
  | cons part parts =>
      obtain ⟨same, together⟩ := course.isSymbolAt_alike (listed part List.mem_cons_self)
        (course.onward _ here)
      simp only [Grammar.spans?, same]
      split
      · rename_i written
        have together := together written
        have later := @moreSpans_alike W along calm halting (place + part.length) course parts
          (fun part member => listed part (List.mem_cons_of_mem _ member)) fun words more spans name left found => by
            have longer : W.grammar.spans? W.text place (part :: words) =
                some ((place, part.length) :: spans) := by
              simp only [Grammar.spans?, if_pos written, found, Option.map_some]
            have ends := breaks (part :: words) more _ (congrArg (part :: ·) name) (List.cons_ne_nil _ _)
              left longer
            rwa [Grammar.spansEnd_cons] at ends
        obtain ⟨later, laterTogether⟩ := later
        rw [together.move _ (Nat.le_refl _)] at later
        refine ⟨?_, fun spans found => ?_⟩
        · rw [later, Option.map_map, Option.map_map]
          rfl
        · obtain ⟨others, foundLater, rfl⟩ := Option.map_eq_some_iff.mp found
          exact List.forall_mem_cons.mpr ⟨⟨⟨here, settled⟩, together⟩, laterTogether others foundLater⟩
      · exact ⟨rfl, by rintro _ ⟨⟩⟩

omit course in
def carrySpelling (W : Tandem) (spelling : Grammar.Spelling) : Grammar.Spelling :=
  { spelling with spans := spelling.spans.map (carrySpan W) }

theorem spellings_alike (front : W.front place) :
    W.grammar.spellings W.other (W.move place) =
        (W.grammar.spellings W.text place).map (carrySpelling W) ∧
      ∀ spelling ∈ W.grammar.spellings W.text place, ∀ span ∈ spelling.spans,
        (calm span.1 ∧ W.grammar.comments.Settled W.text span.1) ∧ W.Together along span.1 span.2 := by
  constructor
  · rw [Grammar.spellings, Grammar.spellings, List.map_filterMap]
    refine List.filterMap_congr fun operator member => ?_
    rw [(course.spans_alike member front).1, Option.map_map, Option.map_map]
    rfl
  · intro spelling member
    obtain ⟨operator, inTable, found⟩ := List.mem_filterMap.mp member
    obtain ⟨spans, foundSpans, rfl⟩ := Option.map_eq_some_iff.mp found
    exact (course.spans_alike inTable front).2 spans foundSpans

omit course in
theorem outranks_carry (afterOperand : Bool) (a b : Grammar.Spelling) :
    (carrySpelling W a).outranks afterOperand (carrySpelling W b) = a.outranks afterOperand b := by
  have total : ∀ spelling, (carrySpelling W spelling).total = spelling.total := fun spelling => by
    simp [carrySpelling, Grammar.Spelling.total, Function.comp_def, carrySpan]
  have spans : ∀ spelling, (carrySpelling W spelling).spans.length = spelling.spans.length :=
    fun spelling => List.length_map _
  simp only [Grammar.Spelling.outranks, total, spans]
  rfl

omit course in
theorem best_carry (afterOperand : Bool) (spellings : List Grammar.Spelling) :
    Grammar.Spelling.best? afterOperand (spellings.map (carrySpelling W)) =
      (Grammar.Spelling.best? afterOperand spellings).map (carrySpelling W) := by
  unfold Grammar.Spelling.best?
  rw [List.foldl_map, ← List.foldl_hom (Option.map (carrySpelling W))]
  · rfl
  intro best spelling
  cases best with
  | none => rfl
  | some other =>
      simp only [Option.map_some, outranks_carry]
      split <;> rfl

/-- Words at different places stay at different places. -/
theorem carrySpans_inj {a b : List (Nat × Nat)} (calmA : ∀ span ∈ a, calm span.1)
    (calmB : ∀ span ∈ b, calm span.1) : a.map (carrySpan W) = b.map (carrySpan W) ↔ a = b := by
  have single : ∀ p q, calm p → calm q → W.move p = W.move q → p = q := by
    intro p q calmP calmQ same
    rcases Nat.lt_trichotomy p q with less | rfl | more
    · have := course.ascends p q calmP calmQ less
      omega
    · rfl
    · have := course.ascends q p calmQ calmP more
      omega
  refine ⟨fun same => ?_, fun same => congrArg _ same⟩
  induction a generalizing b with
  | nil => exact (List.map_eq_nil_iff.mp same.symm).symm
  | cons span a ih =>
      cases b with
      | nil => cases same
      | cons other b =>
          obtain ⟨head, tail⟩ := List.cons.inj same
          obtain ⟨start, length⟩ := Prod.mk.inj head
          rw [ih (fun _ member => calmA _ (List.mem_cons_of_mem _ member))
            (fun _ member => calmB _ (List.mem_cons_of_mem _ member)) tail]
          have := single _ _ (calmA span List.mem_cons_self) (calmB other List.mem_cons_self) start
          rw [Prod.ext this length]

theorem operatorAt_alike (afterOperand : Bool) (front : W.front place) :
    W.grammar.operatorAt? W.other (W.move place) afterOperand =
        (W.grammar.operatorAt? W.text place afterOperand).map W.carryMatch ∧
      ∀ written, W.grammar.operatorAt? W.text place afterOperand = some written →
        ∀ part ∈ written.parts, calm part.1 ∧ W.grammar.comments.Settled W.text part.1 := by
  obtain ⟨same, together⟩ := course.spellings_alike front
  unfold Grammar.operatorAt?
  dsimp only
  rw [same, best_carry]
  cases found : Grammar.Spelling.best? afterOperand (W.grammar.spellings W.text place) with
  | none => exact ⟨rfl, nofun⟩
  | some best =>
      have calms := together best (Grammar.best_mem found)
      have equals : ∀ spelling ∈ W.grammar.spellings W.text place,
          ((carrySpelling W spelling).spans == (carrySpelling W best).spans) =
            (spelling.spans == best.spans) := by
        intro spelling member
        rw [Bool.eq_iff_iff, beq_iff_eq, beq_iff_eq]
        exact course.carrySpans_inj
          (fun span inSpans => (together spelling member span inSpans).1.1)
          (fun span inSpans => (calms span inSpans).1.1)
      have operators : (((W.grammar.spellings W.text place).map (carrySpelling W)).filter
            (·.spans == (carrySpelling W best).spans)).map (·.operator) =
          ((W.grammar.spellings W.text place).filter (·.spans == best.spans)).map (·.operator) := by
        rw [List.filter_map, List.map_map]
        exact congrArg (List.map (·.operator)) (List.filter_congr equals)
      dsimp only [Option.map_some]
      rw [operators]
      split
      · exact ⟨rfl, nofun⟩
      · constructor
        · simp only [Option.map_some, carryMatch, carrySpelling, List.map_map, Option.some.injEq,
            OperatorMatch.mk.injEq, and_true]
          refine List.map_congr_left fun span member => ?_
          exact congrArg (Prod.mk _) (calms span member).2.slice
        · rintro written ⟨⟩ part member
          obtain ⟨span, inSpans, rfl⟩ := List.mem_map.mp member
          exact (calms span inSpans).1

end Course

end Tandem

end ExprLang
