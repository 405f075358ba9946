import ExprLang.Cursor

/-!
Where symbols, comments and gaps end. Whatever is written has a first character and ends inside the
text; so every piece of a gap consumes a character, the bound on the pieces is never reached, and
behind a gap no other one starts.
-/

namespace ExprLang

namespace Text

variable {text : Text}

theorem length_slice (text : Text) (start stop : Nat) :
    (text.slice start stop).length = min stop text.size - start := by
  simp only [slice, String.length_ofList, Array.length_toList, Array.size_extract]

theorem length_rest (text : Text) (start : Nat) : (text.rest start).length = text.size - start := by
  simp [rest]

/-- A slice reaches as far as it is long. -/
theorem slice_eq (text : Text) (start stop : Nat) :
    text.slice start stop = text.slice start (start + (text.slice start stop).length) := by
  have same : text.extract start stop =
      text.extract start (start + (text.slice start stop).length) := by
    rw [Array.extract_eq_extract_right, length_slice]
    omega
  exact congrArg (fun part : Text => String.ofList part.toList) same

/-- Only inside the text is there anything to slice. -/
theorem inside_of_slice {word : String} {start stop : Nat} (filled : 0 < word.length)
    (same : word = text.slice start stop) : start < text.size := by
  rw [same, length_slice] at filled
  omega

theorem slice_single {place : Nat} {c : Char} (here : text[place]? = some c) :
    text.slice place (place + 1) = String.singleton c := by
  obtain ⟨inside, rfl⟩ := Array.getElem?_eq_some_iff.mp here
  have taken : (text.extract place (place + 1)).toList = [text[place]] := by
    simp [List.extract_eq_take_drop, List.take_one, List.head?_drop]
  rw [slice, taken, ← String.toList_singleton, String.ofList_toList]

theorem spells_inside {caseSensitive : Bool} {symbol : List Char} {place : Nat}
    (nonempty : symbol ≠ []) (spelled : text.spells caseSensitive symbol place = true) :
    place + symbol.length ≤ text.size := by
  induction symbol generalizing place with
  | nil => exact absurd rfl nonempty
  | cons c rest ih =>
      unfold spells at spelled
      split at spelled
      · cases spelled
      · rename_i actual here
        obtain ⟨inside, _⟩ := Array.getElem?_eq_some_iff.mp here
        cases rest with
        | nil => exact inside
        | cons d rest =>
            have later := ih (List.cons_ne_nil d rest) (Bool.and_eq_true_iff.mp spelled).2
            simp only [List.length_cons] at later ⊢
            omega

/-- What is written is not empty and ends inside the text. -/
theorem isWritten_inside {caseSensitive : Bool} {place : Nat} {symbol : String}
    (written : text.isWritten caseSensitive place symbol = true) :
    0 < symbol.length ∧ place + symbol.length ≤ text.size := by
  obtain ⟨filled, spelled⟩ := Bool.and_eq_true_iff.mp written
  have nonempty : symbol.toList ≠ [] := by
    intro empty
    rw [String.toList_eq_nil_iff.mp empty] at filled
    cases filled
  have inside := spells_inside nonempty spelled
  rw [String.length_toList] at inside
  refine ⟨?_, inside⟩
  rw [← String.length_toList]
  exact List.length_pos_iff.mpr nonempty

/-- What is written ends with a character of the symbol. -/
theorem isWritten_last {caseSensitive : Bool} {place : Nat} {symbol : String}
    (written : text.isWritten caseSensitive place symbol = true) :
    ∃ c e, text[place + symbol.length - 1]? = some c ∧ e ∈ symbol.toList ∧
      sameChar caseSensitive c e = true := by
  have each : ∀ (chars : List Char) (place : Nat), chars ≠ [] →
      text.spells caseSensitive chars place = true →
      ∃ c e, text[place + chars.length - 1]? = some c ∧ e ∈ chars ∧ sameChar caseSensitive c e = true := by
    intro chars
    induction chars with
    | nil => exact fun _ nonempty _ => absurd rfl nonempty
    | cons e rest ih =>
        intro place _ spelled
        unfold spells at spelled
        split at spelled
        · cases spelled
        · rename_i c here
          obtain ⟨same, spelled⟩ := Bool.and_eq_true_iff.mp spelled
          cases rest with
          | nil => exact ⟨c, e, here, List.mem_cons_self, same⟩
          | cons d rest =>
              obtain ⟨c, e', last, member, same⟩ := ih (place + 1) (List.cons_ne_nil d rest) spelled
              refine ⟨c, e', ?_, List.mem_cons_of_mem _ member, same⟩
              rwa [Nat.add_right_comm] at last
  obtain ⟨filled, spelled⟩ := Bool.and_eq_true_iff.mp written
  have nonempty : symbol.toList ≠ [] := by
    intro empty
    rw [String.toList_eq_nil_iff.mp empty] at filled
    cases filled
  have last := each symbol.toList place nonempty spelled
  rwa [String.length_toList] at last

/-- At a character no word without it is written. -/
theorem not_isWritten_of_char {c : Char} {place : Nat} {word : String} (here : text[place]? = some c)
    (unwritten : c ∉ word.toList) : text.isWritten true place word = false := by
  rw [isWritten]
  cases chars : word.toList with
  | nil =>
      obtain rfl := String.toList_eq_nil_iff.mp chars
      rfl
  | cons e rest =>
      have different : (c == e) = false := by
        rw [beq_eq_false_iff_ne]
        rintro rfl
        exact unwritten (chars ▸ List.mem_cons_self)
      simp [spells, here, sameChar, different]

theorem le_seek (found : Nat → Bool) (steps place : Nat) : place ≤ seek found steps place := by
  induction steps generalizing place with
  | zero => exact Nat.le_refl _
  | succ steps ih =>
      unfold seek
      split
      · exact Nat.le_refl _
      · exact Nat.le_trans (Nat.le_succ place) (ih (place + 1))

theorem seek_le (found : Nat → Bool) (steps place : Nat) :
    seek found steps place ≤ place + steps := by
  induction steps generalizing place with
  | zero => exact Nat.le_refl _
  | succ steps ih =>
      unfold seek
      split
      · exact Nat.le_add_right _ _
      · have later := ih (place + 1)
        omega

/-- Where nothing is found the search goes on. -/
theorem seek_skip {f : Nat → Bool} {steps place next : Nat} (le : place ≤ next)
    (enough : next - place ≤ steps) (missed : ∀ i, place ≤ i → i < next → f i = false) :
    seek f steps place = seek f (steps - (next - place)) next := by
  induction steps generalizing place with
  | zero =>
      obtain rfl : place = next := by omega
      rw [Nat.zero_sub]
  | succ steps ih =>
      rcases Nat.eq_or_lt_of_le le with rfl | less
      · rw [Nat.sub_self, Nat.sub_zero]
      · rw [seek, if_neg (Bool.eq_false_iff.mp (missed place (Nat.le_refl _) less)),
          ih less (by omega) fun i above => missed i (Nat.le_of_succ_le above)]
        congr 1
        omega

/-- The search ends where something is found. -/
theorem seek_le_of_found {f : Nat → Bool} {steps place found : Nat} (le : place ≤ found)
    (isFound : f found = true) : seek f steps place ≤ found := by
  induction steps generalizing place with
  | zero => exact le
  | succ steps ih =>
      rw [seek]
      split
      · exact le
      · rename_i missed
        refine ih (Nat.lt_of_le_of_ne le ?_)
        rintro rfl
        exact missed isFound

theorem seek_found {f : Nat → Bool} {steps place : Nat}
    (stopped : seek f steps place < place + steps) : f (seek f steps place) = true := by
  induction steps generalizing place with
  | zero => exact absurd stopped (Nat.lt_irrefl _)
  | succ steps ih =>
      unfold seek at stopped ⊢
      split
      · assumption
      · rename_i missed
        rw [if_neg missed] at stopped
        exact ih (by omega)

/-- The next line feed, or the end of the text. -/
def lineFeed (text : Text) (place : Nat) : Nat :=
  seek (fun i => text[i]? == some '\n') (text.size - place) place

/-- The next place where the word is written, or the end of the text. -/
def next (text : Text) (word : String) (place : Nat) : Nat :=
  seek (fun i => text.isWritten true i word) (text.size - place) place

end Text

namespace CommentMarkers

variable {markers : CommentMarkers} {text : Text} {place : Nat}

theorem lineAt_eq {marker : String} (given : markers.line = some marker) (text : Text) (place : Nat) :
    markers.lineAt? text place = if text.isWritten true place marker then
      some ⟨place, text.lineFeed (place + marker.length) - place, .line, true⟩ else none := by
  rw [lineAt?, given]
  rfl

theorem multilineAt_eq {opening closing : String} (given : markers.multiline = some (opening, closing))
    (text : Text) (place : Nat) :
    markers.multilineAt? text place = if text.isWritten true place opening then
      if text.next closing (place + opening.length) < text.size then
        some ⟨place, text.next closing (place + opening.length) + closing.length - place, .multiline, true⟩
      else some ⟨place, text.size - place, .multiline, false⟩
    else none := by
  rw [multilineAt?, given]
  rfl

theorem lineAt_inside {comment : Comment} (found : markers.lineAt? text place = some comment) :
    place < comment.stop ∧ comment.stop ≤ text.size := by
  unfold lineAt? at found
  split at found
  · cases found
  · split at found
    · rename_i marker _ written
      cases found
      obtain ⟨filled, inside⟩ := Text.isWritten_inside written
      have behind := Text.le_seek (fun i => text[i]? == some '\n')
        (text.size - (place + marker.length)) (place + marker.length)
      have before := Text.seek_le (fun i => text[i]? == some '\n')
        (text.size - (place + marker.length)) (place + marker.length)
      constructor <;> simp only [Comment.stop] <;> omega
    · cases found

theorem multilineAt_inside {comment : Comment}
    (found : markers.multilineAt? text place = some comment) :
    place < comment.stop ∧ comment.stop ≤ text.size := by
  unfold multilineAt? at found
  split at found
  · cases found
  · split at found
    · rename_i opening closing _ written
      obtain ⟨filled, inside⟩ := Text.isWritten_inside written
      have behind := Text.le_seek (fun i => text.isWritten true i closing)
        (text.size - (place + opening.length)) (place + opening.length)
      dsimp only at found
      split at found
      · rename_i closes
        cases found
        have closed := Text.seek_found (f := fun i => text.isWritten true i closing)
          (show _ < (place + opening.length) + (text.size - (place + opening.length)) by omega)
        obtain ⟨filledEnd, insideEnd⟩ := Text.isWritten_inside closed
        constructor <;> simp only [Comment.stop] <;> omega
      · cases found
        constructor <;> simp only [Comment.stop] <;> omega
    · cases found

/-- A comment is not empty and ends inside the text. -/
theorem commentAt_inside {comment : Comment} (found : markers.commentAt? text place = some comment) :
    place < comment.stop ∧ comment.stop ≤ text.size := by
  rcases Option.or_eq_some_iff.mp found with isLine | ⟨_, isMultiline⟩
  · exact lineAt_inside isLine
  · exact multilineAt_inside isMultiline

theorem start_of_commentAt {comment : Comment}
    (found : markers.commentAt? text place = some comment) : comment.start = place := by
  rcases Option.or_eq_some_iff.mp found with isLine | ⟨_, isMultiline⟩
  · unfold lineAt? at isLine
    split at isLine <;> grind
  · unfold multilineAt? at isMultiline
    split at isMultiline <;> grind

/-- No gap starts here. -/
def Settled (markers : CommentMarkers) (text : Text) (place : Nat) : Prop :=
  markers.commentAt? text place = none ∧ text.isBlankAt place = false

theorem settled_of_size_le (outside : text.size ≤ place) : markers.Settled text place := by
  constructor
  · cases found : markers.commentAt? text place with
    | none => rfl
    | some comment =>
        have inside := commentAt_inside found
        omega
  · simp [Text.isBlankAt, outside]

theorem isBlankAt_inside (blank : text.isBlankAt place = true) : place < text.size := by
  refine Nat.lt_of_not_le fun outside => ?_
  have settled : ({} : CommentMarkers).Settled text place := settled_of_size_le outside
  rw [settled.2] at blank
  cases blank

theorem gapEndWithin_settled (settled : markers.Settled text place) (pieces : Nat) :
    markers.gapEndWithin text pieces place = place := by
  cases pieces with
  | zero => rfl
  | succ pieces => simp [gapEndWithin, settled.1, settled.2]

/-- Every piece of a gap consumes a character, so there are enough pieces. -/
theorem gapEndWithin_spec {pieces : Nat} (enough : text.size - place ≤ pieces) :
    place ≤ markers.gapEndWithin text pieces place ∧
      (place ≤ text.size → markers.gapEndWithin text pieces place ≤ text.size) ∧
      markers.Settled text (markers.gapEndWithin text pieces place) := by
  induction pieces generalizing place with
  | zero =>
      have outside : text.size ≤ place := Nat.le_of_sub_eq_zero (Nat.le_zero.mp enough)
      exact ⟨Nat.le_refl _, id, settled_of_size_le outside⟩
  | succ pieces ih =>
      unfold gapEndWithin
      cases found : markers.commentAt? text place with
      | some comment =>
          obtain ⟨longer, inside⟩ := commentAt_inside found
          obtain ⟨behind, within, settled⟩ := @ih comment.stop (by omega)
          exact ⟨Nat.le_trans (Nat.le_of_lt longer) behind, fun _ => within inside, settled⟩
      | none =>
          cases blank : text.isBlankAt place with
          | true =>
              have inside := isBlankAt_inside blank
              obtain ⟨behind, within, settled⟩ := @ih (place + 1) (by omega)
              exact ⟨Nat.le_of_succ_le behind, fun _ => within inside, settled⟩
          | false => exact ⟨Nat.le_refl _, id, found, blank⟩

theorem le_gapEnd : place ≤ markers.gapEnd text place := (gapEndWithin_spec (Nat.le_refl _)).1

theorem gapEnd_le (inside : place ≤ text.size) : markers.gapEnd text place ≤ text.size :=
  (gapEndWithin_spec (Nat.le_refl _)).2.1 inside

theorem settled_gapEnd : markers.Settled text (markers.gapEnd text place) :=
  (gapEndWithin_spec (Nat.le_refl _)).2.2

theorem gapEnd_of_settled (settled : markers.Settled text place) :
    markers.gapEnd text place = place := gapEndWithin_settled settled _

/-- Behind a gap there is no other one. -/
@[simp]
theorem gapEnd_gapEnd : markers.gapEnd text (markers.gapEnd text place) = markers.gapEnd text place :=
  gapEnd_of_settled settled_gapEnd

/-! Comments without end -/

def runsOutWithin (markers : CommentMarkers) (text : Text) : Nat → Nat → Bool
  | 0, _ => false
  | pieces + 1, place =>
      match markers.commentAt? text place with
      | some comment => !comment.closed || runsOutWithin markers text pieces comment.stop
      | none => text.isBlankAt place && runsOutWithin markers text pieces (place + 1)

/-- Whether the gap at `place` has a comment without end. -/
def runsOut (markers : CommentMarkers) (text : Text) (place : Nat) : Bool :=
  markers.runsOutWithin text (text.size - place) place

theorem runsOut_of_settled (settled : markers.Settled text place) :
    markers.runsOut text place = false := by
  unfold runsOut
  cases text.size - place with
  | zero => rfl
  | succ pieces => simp [runsOutWithin, settled.1, settled.2]

/-- A comment without end takes the rest of the text. -/
theorem stop_of_unclosed {comment : Comment} (found : markers.commentAt? text place = some comment)
    (unclosed : comment.closed = false) : comment.stop = text.size := by
  rcases Option.or_eq_some_iff.mp found with isLine | ⟨_, isMultiline⟩
  · unfold lineAt? at isLine
    split at isLine
    · cases isLine
    · split at isLine
      · cases isLine
        cases unclosed
      · cases isLine
  · have inside := multilineAt_inside isMultiline
    unfold multilineAt? at isMultiline
    split at isMultiline
    · cases isMultiline
    · split at isMultiline
      · dsimp only at isMultiline
        split at isMultiline
        · cases isMultiline
          cases unclosed
        · cases isMultiline
          simp only [Comment.stop] at inside ⊢
          omega
      · cases isMultiline

theorem gapEndWithin_of_runsOut {pieces : Nat}
    (out : markers.runsOutWithin text pieces place = true) :
    markers.gapEndWithin text pieces place = text.size := by
  induction pieces generalizing place with
  | zero => cases out
  | succ pieces ih =>
      unfold runsOutWithin at out
      unfold gapEndWithin
      cases found : markers.commentAt? text place with
      | some comment =>
          simp only [found, Bool.or_eq_true, Bool.not_eq_true'] at out ⊢
          rcases out with unclosed | later
          · rw [stop_of_unclosed found unclosed]
            exact gapEndWithin_settled (settled_of_size_le (Nat.le_refl _)) pieces
          · exact ih later
      | none =>
          simp only [found, Bool.and_eq_true] at out ⊢
          rw [if_pos out.1]
          exact ih out.2

theorem gapEnd_of_runsOut (out : markers.runsOut text place = true) :
    markers.gapEnd text place = text.size := gapEndWithin_of_runsOut out

/-! Pieces with gaps between them -/

/-- From `a` to `b` there is a gap before each piece, and nothing or a whole gap behind the last. -/
def Spaced (markers : CommentMarkers) (text : Text) : Nat → List (Nat × Nat) → Nat → Prop
  | a, [], b => b = a ∨ b = markers.gapEnd text a
  | a, (start, stop) :: rest, b =>
      markers.gapEnd text a = start ∧ start < stop ∧ Spaced markers text stop rest b

/-- The number of gaps from `a` to `b` that have a comment without end. -/
def countRunsOut (markers : CommentMarkers) (text : Text) : Nat → List (Nat × Nat) → Nat → Nat
  | a, [], b => if b = a then 0 else (markers.runsOut text a).toNat
  | a, (_, stop) :: rest, b =>
      (markers.runsOut text a).toNat + countRunsOut markers text stop rest b

variable {a b c : Nat} {pieces more : List (Nat × Nat)}

theorem spaced_refl (markers : CommentMarkers) (text : Text) (a : Nat) :
    markers.Spaced text a [] a := Or.inl rfl

theorem spaced_gap (markers : CommentMarkers) (text : Text) (a : Nat) :
    markers.Spaced text a [] (markers.gapEnd text a) := Or.inr rfl

theorem Spaced.le (spaced : markers.Spaced text a pieces b) : a ≤ b := by
  induction pieces generalizing a with
  | nil =>
      rcases spaced with rfl | rfl
      · exact Nat.le_refl _
      · exact le_gapEnd
  | cons piece rest ih =>
      obtain ⟨starts, nonempty, later⟩ := spaced
      have before : a ≤ piece.1 := starts ▸ le_gapEnd
      have behind := ih later
      omega

theorem Spaced.append (left : markers.Spaced text a pieces b)
    (right : markers.Spaced text b more c) : markers.Spaced text a (pieces ++ more) c := by
  induction pieces generalizing a with
  | nil =>
      rcases left with rfl | rfl
      · exact right
      · cases more with
        | nil => exact Or.inr (right.elim id fun further => further.trans gapEnd_gapEnd)
        | cons piece rest => exact ⟨gapEnd_gapEnd.symm.trans right.1, right.2⟩
  | cons piece rest ih => exact ⟨left.1, left.2.1, ih left.2.2⟩

/-- Behind a gap there is no comment, so it does not matter where the pieces are cut. -/
theorem countRunsOut_append (left : markers.Spaced text a pieces b)
    (right : markers.Spaced text b more c) :
    markers.countRunsOut text a (pieces ++ more) c =
      markers.countRunsOut text a pieces b + markers.countRunsOut text b more c := by
  induction pieces generalizing a with
  | nil =>
      by_cases same : b = a
      · subst same
        simp [countRunsOut]
      · have isEnd : b = markers.gapEnd text a := left.resolve_left same
        have settled : markers.Settled text b := isEnd ▸ settled_gapEnd
        have none := runsOut_of_settled settled
        cases more with
        | nil =>
            have stays : c = b := right.elim id fun further => further.trans (gapEnd_of_settled settled)
            simp [countRunsOut, stays, same]
        | cons piece rest => simp [countRunsOut, same, none]
  | cons piece rest ih =>
      simp only [List.cons_append, countRunsOut, ih left.2.2, Nat.add_assoc]

theorem countRunsOut_gap :
    markers.countRunsOut text b [] (markers.gapEnd text b) = (markers.runsOut text b).toNat := by
  unfold countRunsOut
  split
  · rename_i stays
    rw [runsOut_of_settled (stays ▸ settled_gapEnd)]
    rfl
  · rfl

/-- Where none is counted no gap has a comment without end. -/
theorem runsOut_of_countRunsOut (none : markers.countRunsOut text a pieces text.size = 0) :
    ∀ gap ∈ a :: pieces.map Prod.snd, markers.runsOut text gap = false := by
  induction pieces generalizing a with
  | nil =>
      intro gap member
      obtain rfl := List.mem_singleton.mp member
      unfold countRunsOut at none
      split at none
      · rename_i same
        subst same
        exact runsOut_of_settled (settled_of_size_le (Nat.le_refl _))
      · simpa using none
  | cons piece rest ih =>
      obtain ⟨here, later⟩ := Nat.add_eq_zero_iff.mp none
      intro gap member
      rcases List.mem_cons.mp member with rfl | inRest
      · simpa using here
      · exact ih later gap inRest

/-- A gap in front of a piece inside the text has no comment without end. -/
theorem runsOut_of_piece (inside : markers.gapEnd text a < text.size) :
    markers.runsOut text a = false := by
  cases out : markers.runsOut text a with
  | false => rfl
  | true => exact absurd (gapEnd_of_runsOut out) (Nat.ne_of_lt inside)

/-- Where the last of the pieces behind `a` ends. -/
def lastStop (a : Nat) (pieces : List (Nat × Nat)) : Nat := pieces.foldl (fun _ piece => piece.2) a

/-- Inside the text only the last gap can have a comment without end. -/
theorem Spaced.countRunsOut_eq (spaced : markers.Spaced text a pieces b) (inside : b ≤ text.size) :
    markers.countRunsOut text a pieces b =
      if b = lastStop a pieces then 0 else (markers.runsOut text (lastStop a pieces)).toNat := by
  induction pieces generalizing a with
  | nil => rfl
  | cons piece rest ih =>
      obtain ⟨starts, filled, later⟩ := spaced
      have none := @runsOut_of_piece markers text a (by have := later.le; omega)
      rw [countRunsOut, none, ih later]
      exact Nat.zero_add _

/-- The last piece ends furthest behind. -/
theorem Spaced.lastStop_eq (spaced : markers.Spaced text a pieces b) :
    lastStop a pieces = pieces.foldl (fun stop piece => max stop piece.2) a := by
  induction pieces generalizing a with
  | nil => rfl
  | cons piece rest ih =>
      obtain ⟨starts, filled, later⟩ := spaced
      have before : a ≤ piece.1 := starts ▸ le_gapEnd
      have further : max a piece.2 = piece.2 := by omega
      rw [List.foldl_cons, further]
      exact ih later

/-- Whoever has met a comment without end is at the end of the text. -/
theorem Spaced.atEnd (spaced : markers.Spaced text a pieces b) (inside : b ≤ text.size)
    (met : 0 < markers.countRunsOut text a pieces b) : b = text.size := by
  induction pieces generalizing a with
  | nil =>
      by_cases same : b = a
      · simp [countRunsOut, same] at met
      · have isEnd : b = markers.gapEnd text a := spaced.resolve_left same
        rw [countRunsOut, if_neg same] at met
        cases out : markers.runsOut text a with
        | false => simp [out] at met
        | true => exact isEnd.trans (gapEnd_of_runsOut out)
  | cons piece rest ih =>
      obtain ⟨starts, filled, later⟩ := spaced
      have none := @runsOut_of_piece markers text a (by have := later.le; omega)
      rw [countRunsOut, none] at met
      exact ih later (by simpa using met)

/-- Behind the gap at `b` stands one more piece. -/
theorem Spaced.snoc {stop : Nat} (left : markers.Spaced text a pieces b)
    (nonempty : markers.gapEnd text b < stop) :
    markers.Spaced text a (pieces ++ [(markers.gapEnd text b, stop)]) stop :=
  left.append ⟨rfl, nonempty, spaced_refl markers text stop⟩

theorem countRunsOut_snoc {stop : Nat} (left : markers.Spaced text a pieces b)
    (nonempty : markers.gapEnd text b < stop) (inside : markers.gapEnd text b < text.size) :
    markers.countRunsOut text a (pieces ++ [(markers.gapEnd text b, stop)]) stop =
      markers.countRunsOut text a pieces b := by
  have right : markers.Spaced text b [(markers.gapEnd text b, stop)] stop :=
    ⟨rfl, nonempty, spaced_refl markers text stop⟩
  rw [countRunsOut_append left right]
  simp [countRunsOut, runsOut_of_piece inside]

/-- Pieces are not empty, and each one lies behind the one before. -/
theorem Spaced.apart (spaced : markers.Spaced text a pieces b) :
    (∀ piece ∈ pieces, a ≤ piece.1 ∧ piece.1 < piece.2) ∧
      pieces.Pairwise fun left right => left.2 ≤ right.1 := by
  induction pieces generalizing a with
  | nil => exact ⟨nofun, List.Pairwise.nil⟩
  | cons first rest ih =>
      obtain ⟨starts, filled, more⟩ := spaced
      obtain ⟨behind, apart⟩ := ih more
      have here : a ≤ first.1 := starts ▸ le_gapEnd
      refine ⟨?_, List.pairwise_cons.mpr ⟨fun piece member => (behind piece member).1, apart⟩⟩
      refine List.forall_mem_cons.mpr ⟨⟨here, filled⟩, fun piece member => ?_⟩
      exact ⟨by have := (behind piece member).1; omega, (behind piece member).2⟩

/-- No piece ends behind the last gap. -/
theorem Spaced.stop_le (spaced : markers.Spaced text a pieces b) : ∀ piece ∈ pieces, piece.2 ≤ b := by
  induction pieces generalizing a with
  | nil => nofun
  | cons first rest ih => exact List.forall_mem_cons.mpr ⟨spaced.2.2.le, ih spaced.2.2⟩

/-- The gaps end where the pieces start, and the last one where the text does. -/
theorem Spaced.gapEnds (spaced : markers.Spaced text a pieces b) :
    (a :: pieces.map Prod.snd).map (markers.gapEnd text) =
      pieces.map Prod.fst ++ [markers.gapEnd text b] := by
  induction pieces generalizing a with
  | nil =>
      have same : markers.gapEnd text a = markers.gapEnd text b := by
        rcases spaced with rfl | rfl
        · rfl
        · exact gapEnd_gapEnd.symm
      exact congrArg (fun place => [place]) same
  | cons first rest ih =>
      obtain ⟨starts, _, more⟩ := spaced
      have later := ih more
      simp only [List.map_cons, List.cons_append] at later ⊢
      rw [starts, later]

end CommentMarkers

namespace Cursor

theorem skipGapWithin_spec {pieces : Nat} {cursor : Cursor} {unclosed : Option Nat} :
    (skipGapWithin pieces cursor unclosed).1.text = cursor.text ∧
      (skipGapWithin pieces cursor unclosed).1.markers = cursor.markers ∧
      (skipGapWithin pieces cursor unclosed).1.position =
        cursor.markers.gapEndWithin cursor.text pieces cursor.position := by
  induction pieces generalizing cursor unclosed with
  | zero => exact ⟨rfl, rfl, rfl⟩
  | succ pieces ih =>
      unfold skipGapWithin CommentMarkers.gapEndWithin
      cases cursor.markers.commentAt? cursor.text cursor.position with
      | some comment => exact ih
      | none =>
          dsimp only
          split
          · exact ih
          · exact ⟨rfl, rfl, rfl⟩

/-- The start of a comment without end is given if there is one; it lies inside the text. -/
theorem skipGapWithin_unclosed {pieces : Nat} {cursor : Cursor} {unclosed : Option Nat} :
    (skipGapWithin pieces cursor unclosed).2.isSome =
        (unclosed.isSome || cursor.markers.runsOutWithin cursor.text pieces cursor.position) ∧
      ∀ start, (skipGapWithin pieces cursor unclosed).2 = some start →
        unclosed = some start ∨ start < cursor.text.size := by
  induction pieces generalizing cursor unclosed with
  | zero => exact ⟨by simp [skipGapWithin, CommentMarkers.runsOutWithin], fun _ given => Or.inl given⟩
  | succ pieces ih =>
      unfold skipGapWithin CommentMarkers.runsOutWithin
      cases found : cursor.markers.commentAt? cursor.text cursor.position with
      | some comment =>
          obtain ⟨filled, inside⟩ := CommentMarkers.commentAt_inside found
          obtain ⟨isGiven, within⟩ := @ih
            { cursor with
              position := comment.stop
              comments := comment.record cursor.comments }
            (if comment.closed then unclosed else some comment.start)
          have starts : comment.start < cursor.text.size := by
            have := CommentMarkers.start_of_commentAt found
            omega
          cases closed : comment.closed <;> simp only [closed, if_true, if_false, Bool.false_eq_true,
            Option.isSome_some, Bool.true_or, Bool.not_true, Bool.not_false, Bool.false_or,
            Bool.or_true] at isGiven within ⊢
          · refine ⟨isGiven, fun start given => Or.inr ?_⟩
            rcases within start given with same | inside
            · cases same
              exact starts
            · exact inside
          · exact ⟨isGiven, within⟩
      | none =>
          dsimp only
          split
          · rename_i blank
            simpa [blank] using @ih { cursor with position := cursor.position + 1 } unclosed
          · rename_i solid
            exact ⟨by simp [solid], fun _ given => Or.inl given⟩

variable (cursor : Cursor)

theorem unclosed_skipGap :
    cursor.skipGap.2.isSome = cursor.markers.runsOut cursor.text cursor.position :=
  (@skipGapWithin_unclosed cursor.remaining cursor none).1

theorem unclosed_inside {start : Nat} (unclosed : cursor.skipGap.2 = some start) :
    start < cursor.text.size :=
  ((@skipGapWithin_unclosed cursor.remaining cursor none).2 start unclosed).resolve_left nofun

@[simp]
theorem text_skipGap : cursor.skipGap.1.text = cursor.text := skipGapWithin_spec.1

@[simp]
theorem markers_skipGap : cursor.skipGap.1.markers = cursor.markers := skipGapWithin_spec.2.1

@[simp]
theorem position_skipGap : cursor.skipGap.1.position = cursor.gapEnd cursor.position :=
  skipGapWithin_spec.2.2

theorem remaining_le {before after : Cursor} (text : after.text = before.text)
    (further : before.position ≤ after.position) : after.remaining ≤ before.remaining := by
  unfold remaining
  rw [text]
  omega

theorem remaining_lt {before after : Cursor} (text : after.text = before.text)
    (further : before.position < after.position) (inside : after.position ≤ after.text.size) :
    after.remaining < before.remaining := by
  unfold remaining
  rw [← text]
  omega

end Cursor

end ExprLang
