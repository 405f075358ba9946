import ExprLang.Proofs.Tandem.Course
import ExprLang.Proofs.Tandem.Operands

/-!
The rest of the laws: numbers, names and text constants at places that correspond. With them two texts
that take the same course are lawful.
-/

namespace ExprLang

/-- Where two searches meet the same up to a place where both end, they end at the same distance. -/
theorem Text.seek_alike {f g : Nat → Bool} {p q n : Nat} (same : ∀ k < n, g (q + k) = f (p + k))
    (ends : f (p + n) = true) (endsOther : g (q + n) = true) {a b : Nat} (enough : n ≤ a)
    (enoughOther : n ≤ b) : ∃ k ≤ n, seek f a p = p + k ∧ seek g b q = q + k := by
  induction n generalizing p q a b with
  | zero =>
      have stays : ∀ {f : Nat → Bool} {p : Nat} (a : Nat), f p = true → seek f a p = p := by
        intro f p a ends
        cases a with
        | zero => rfl
        | succ a => rw [seek, if_pos ends]
      exact ⟨0, Nat.le_refl 0, stays a ends, stays b endsOther⟩
  | succ n ih =>
      obtain ⟨a, rfl⟩ : ∃ less, a = less + 1 := ⟨a - 1, by omega⟩
      obtain ⟨b, rfl⟩ : ∃ less, b = less + 1 := ⟨b - 1, by omega⟩
      have sameHere := same 0 (Nat.succ_pos n)
      simp only [Nat.add_zero] at sameHere
      rw [seek, seek, sameHere]
      split
      · exact ⟨0, Nat.zero_le _, rfl, rfl⟩
      · have onward : ∀ p k : Nat, p + 1 + k = p + (k + 1) := fun p k => by omega
        obtain ⟨k, le, here, there⟩ := @ih (p + 1) (q + 1)
          (fun k less => by rw [onward, onward]; exact same (k + 1) (Nat.succ_lt_succ less))
          (by rw [onward]; exact ends) (by rw [onward]; exact endsOther) a b
          (Nat.le_of_succ_le_succ enough) (Nat.le_of_succ_le_succ enoughOther)
        exact ⟨k + 1, Nat.succ_le_succ le, by rw [here, onward], by rw [there, onward]⟩

theorem Text.getElem_rest (text : Text) (start k : Nat) : (text.rest start)[k]? = text[start + k]? := by
  simp only [rest, Array.getElem?_toList, Array.getElem?_extract]
  split
  · rfl
  · exact (Array.getElem?_eq_none (by omega)).symm

namespace Constant

theorem decode_length_pos (escape : TextEscape) (quote c : Char) (rest : List Char) :
    0 < (decode escape quote (c :: rest)).length := by
  cases rest with
  | nil =>
      rw [decode]
      split <;> exact Nat.one_pos
  | cons d rest =>
      rw [decode]
      split
      · split
        · exact Nat.add_pos_left Nat.two_pos _
        · exact Nat.one_pos
      · split
        · exact Nat.add_pos_left Nat.two_pos _
        · exact Nat.add_pos_left Nat.one_pos _

theorem exists_cons {others : List Char} {c : Char} (first : others[0]? = some c) :
    ∃ rest, others = c :: rest := by
  cases others with
  | nil => cases first
  | cons d rest => exact ⟨rest, congrArg (· :: rest) (Option.some.inj first)⟩

/-- A closing quote that is not doubled ends the constant. -/
theorem decode_closing {escape : TextEscape} {quote : Char} {rest : List Char}
    (single : escape = .doubledQuote → rest[0]? ≠ some quote) :
    decode escape quote (quote :: rest) = ⟨[], 1, true⟩ := by
  cases rest with
  | nil => rw [decode, if_pos rfl]
  | cons d rest =>
      rw [decode, if_pos rfl, if_neg]
      rintro ⟨doubled, rfl⟩
      exact single doubled rfl

/-- A constant ends in the same place if its characters correspond, whatever follows but a quote. -/
theorem decode_alike {fold : Char → Char} {escape : TextEscape} {quote : Char}
    (isQuote : ∀ c, fold c = quote ↔ c = quote) (isBackslash : ∀ c, fold c = '\\' ↔ c = '\\')
    {chars others : List Char}
    (same : ∀ k < (decode escape quote chars).length, others[k]? = chars[k]?.map fold)
    (next : (decode escape quote chars).closed = true →
      (others[(decode escape quote chars).length]? = some quote ↔
        chars[(decode escape quote chars).length]? = some quote))
    (ends : (decode escape quote chars).closed = false → others.length = chars.length) :
    (decode escape quote others).length = (decode escape quote chars).length ∧
      (decode escape quote others).closed = (decode escape quote chars).closed ∧
      ((∀ c, fold c = c) → (decode escape quote others).text = (decode escape quote chars).text) := by
  have quoted : fold quote = quote := (isQuote quote).mpr rfl
  -- The end of the text, a quote or another character there, a doubled quote, the closing quote, an
  -- escape, and a character that stands for itself.
  fun_induction decode escape quote chars generalizing others with
  | case1 =>
      obtain rfl := List.length_eq_zero_iff.mp (ends rfl)
      exact ⟨rfl, rfl, fun _ => rfl⟩
  | case2 =>
      obtain ⟨rest, rfl⟩ := exists_cons ((same 0 Nat.one_pos).trans (congrArg some quoted))
      have single : rest[0]? ≠ some quote := fun again => absurd ((next rfl).mp again) (by rintro ⟨⟩)
      rw [decode_closing fun _ => single]
      exact ⟨rfl, rfl, fun _ => rfl⟩
  | case3 c other =>
      obtain ⟨rest, rfl⟩ := exists_cons (same 0 Nat.one_pos)
      obtain rfl := List.length_eq_zero_iff.mp (Nat.succ.inj (ends rfl))
      rw [decode, if_neg (mt (isQuote c).mp other)]
      exact ⟨rfl, rfl, fun plain => congrArg (fun c => [c]) (plain c)⟩
  | case4 d rest doubled ih =>
      obtain ⟨isDoubled, rfl⟩ := doubled
      simp only [cons, Nat.add_comm 2] at same next ends ⊢
      obtain ⟨others, rfl⟩ := exists_cons ((same 0 (Nat.succ_pos _)).trans (congrArg some quoted))
      obtain ⟨others, rfl⟩ := exists_cons
        ((same 1 (Nat.succ_lt_succ (Nat.succ_pos _))).trans (congrArg some quoted))
      obtain ⟨length, closed, text⟩ := @ih others
        (fun k less => same (k + 2) (Nat.add_lt_add_right less 2)) next
        (fun open_ => Nat.succ.inj (Nat.succ.inj (ends open_)))
      rw [decode, if_pos rfl, if_pos ⟨isDoubled, rfl⟩]
      exact ⟨congrArg (2 + ·) length |>.trans (Nat.add_comm _ _), closed,
        fun plain => congrArg (d :: ·) (text plain)⟩
  | case5 d rest single =>
      obtain ⟨others, rfl⟩ := exists_cons ((same 0 Nat.one_pos).trans (congrArg some quoted))
      have alone : escape = .doubledQuote → others[0]? ≠ some quote := fun doubled again =>
        single ⟨doubled, Option.some.inj ((next rfl).mp again)⟩
      rw [decode_closing alone]
      exact ⟨rfl, rfl, fun _ => rfl⟩
  | case6 c d rest other escaped ih =>
      obtain ⟨rfl, isEscape⟩ := escaped
      simp only [cons, Nat.add_comm 2] at same next ends ⊢
      obtain ⟨others, rfl⟩ := exists_cons ((same 0 (Nat.succ_pos _)).trans
        (congrArg some ((isBackslash _).mpr rfl)))
      obtain ⟨others, rfl⟩ := exists_cons
        (same 1 (Nat.succ_lt_succ (Nat.succ_pos _)))
      obtain ⟨length, closed, text⟩ := @ih others
        (fun k less => same (k + 2) (Nat.add_lt_add_right less 2)) next
        (fun open_ => Nat.succ.inj (Nat.succ.inj (ends open_)))
      rw [decode, if_neg other, if_pos ⟨rfl, isEscape⟩]
      exact ⟨congrArg (2 + ·) length |>.trans (Nat.add_comm _ _), closed,
        fun plain => congrArg₂ List.cons (congrArg unescape (plain d)) (text plain)⟩
  | case7 c d rest other plain ih =>
      have positive := decode_length_pos escape quote d rest
      simp only [cons, Nat.add_comm 1] at same next ends ⊢
      obtain ⟨others, rfl⟩ := exists_cons (same 0 (Nat.succ_pos _))
      obtain ⟨length, closed, text⟩ := @ih others
        (fun k less => same (k + 1) (Nat.add_lt_add_right less 1)) next
        (fun open_ => Nat.succ.inj (ends open_))
      obtain ⟨others, rfl⟩ := exists_cons
        (same 1 (Nat.succ_lt_succ positive))
      rw [decode, if_neg (mt (isQuote c).mp other), if_neg (mt (And.imp_left (isBackslash c).mp) plain)]
      exact ⟨congrArg (1 + ·) length |>.trans (Nat.add_comm _ _), closed,
        fun same => congrArg₂ List.cons (same c) (text same)⟩

end Constant

/-- No number reaches behind the end of the text. -/
theorem Grammar.numberAt_inside {grammar : Grammar} {fits : CharSet → Prop} {text : Text} {place : Nat}
    {written : NumericMatch} (anchored : ∀ rule ∈ grammar.numericRules, rule.pattern.Anchored fits)
    (found : grammar.numberAt? text place = some written) : place + written.length ≤ text.size := by
  have positive := numberAt_length found
  obtain ⟨rule, member, found⟩ := List.exists_of_findSome?_eq_some found
  let rest := text.extract place text.size
  have size : rest.size = text.size - place := by simp [rest]
  have none : ∀ c, rest[rest.size]? = some c → ∀ set, fits set → set.holds c = false := by simp
  have agree : Agree fits rest rest rest.size :=
    ⟨fun k less => ⟨rest[k], rest[k], by simp [less], by simp [less], fun _ _ => rfl⟩, none, none⟩
  split at found
  · cases found
  · rename_i start stop match_
    have bound := (Pattern.find_agree agree (anchored rule member)).2 start stop match_
    split at found
    · cases found
      dsimp only at positive ⊢
      omega
    · cases found

namespace Tandem.Course

variable {W : Tandem} {along calm : Nat → Prop} {halting : Char → Prop} {place : Nat}
  (course : W.Course along calm halting)

include course

theorem along_of_front (front : W.front place) : along place :=
  course.onward _ (course.calm_of_rest _ ((course.front_iff place).mp front).1)

/-- The texts run together for a while, and then they halt. -/
theorem exists_halt (onward : along place) :
    ∃ count, W.Together along place count ∧ W.Halts halting (place + count) := by
  induction remaining : W.text.size - place using Nat.strongRecOn generalizing place with
  | ind remaining ih =>
      rcases course.step place onward with together | halts
      · obtain ⟨c, here, there⟩ := together.char 0 Nat.one_pos
        have inside := (Array.getElem?_eq_some_iff.mp here).1
        obtain ⟨count, later, halts⟩ :=
          ih (W.text.size - (place + 1)) (by omega) (together.along 1 (Nat.le_refl 1)) rfl
        refine ⟨count + 1, later.cons onward here there (together.move 1 (Nat.le_refl 1)), ?_⟩
        rwa [show place + (count + 1) = place + 1 + count by omega]
      · exact ⟨0, .zero onward, halts⟩

theorem numberAt_alike (onward : along place) :
    W.grammar.numberAt? W.other (W.move place) = W.grammar.numberAt? W.text place := by
  obtain ⟨fits, anchored, fair⟩ := course.numbers
  obtain ⟨count, together, halts⟩ := course.exists_halt onward
  have here : ∀ k, (W.text.extract place W.text.size)[k]? = W.text[place + k]? :=
    fun k => Array.getElem?_toList.symm.trans (W.text.getElem_rest place k)
  have there : ∀ k, (W.other.extract (W.move place) W.other.size)[k]? = W.other[W.move place + k]? :=
    fun k => Array.getElem?_toList.symm.trans (W.other.getElem_rest (W.move place) k)
  have agree : Agree fits (W.text.extract place W.text.size)
      (W.other.extract (W.move place) W.other.size) count := by
    refine ⟨fun k less => ?_, fun c found set fit => ?_, fun c found set fit => ?_⟩
    · obtain ⟨c, inText, inOther⟩ := together.char k less
      exact ⟨c, W.fold c, (here k).trans inText, (there k).trans inOther,
        fun set fit => (fair set fit).1 c⟩
    · exact (fair set fit).2 c (halts.1 c ((here count).symm.trans found))
    · refine (fair set fit).2 c (halts.2 c ?_)
      rw [together.move count (Nat.le_refl _), ← there count, found]
  unfold Grammar.numberAt?
  generalize W.grammar.numericRules = rules at anchored
  induction rules with
  | nil => rfl
  | cons rule rules ih =>
      obtain ⟨anchoredHere, anchored⟩ := List.forall_mem_cons.mp anchored
      simp only [List.findSome?_cons, (Pattern.find_agree agree anchoredHere).1] at ih ⊢
      rw [ih anchored]

theorem nameEnd_alike (onward : along place) : W.grammar.nameEnd W.other (W.move place) =
    W.move place + (W.grammar.nameEnd W.text place - place) := by
  obtain ⟨count, together, halts⟩ := course.exists_halt onward
  have bound : count ≤ W.text.size - place ∧ count ≤ W.other.size - W.move place := by
    rcases Nat.eq_zero_or_pos count with rfl | positive
    · exact ⟨Nat.zero_le _, Nat.zero_le _⟩
    · have := together.inside positive
      omega
  have here : ∀ k ≤ count, W.other[W.move place + k]?.any (W.grammar.isLiteralChar · k) =
      W.text[place + k]?.any (W.grammar.isLiteralChar · k) := by
    intro k within
    rw [← together.move k within]
    exact course.literal_alike (together.along k within) k
  have ends : W.text[place + count]?.any (W.grammar.isLiteralChar · count) = false := by
    cases found : W.text[place + count]? with
    | none => rfl
    | some c => exact course.unnamed c count (halts.1 c found)
  obtain ⟨k, _, stop, stopOther⟩ := @Text.seek_alike
    (fun i => !W.text[i]?.any (W.grammar.isLiteralChar · (i - place)))
    (fun i => !W.other[i]?.any (W.grammar.isLiteralChar · (i - W.move place))) place (W.move place) count
    (fun k less => by simp only [Nat.add_sub_cancel_left, here k (Nat.le_of_lt less)])
    (by simp only [Nat.add_sub_cancel_left, ends, Bool.not_false])
    (by simp only [Nat.add_sub_cancel_left, here count (Nat.le_refl _), ends, Bool.not_false])
    _ _ bound.1 bound.2
  rw [Grammar.nameEnd, Grammar.nameEnd, stop, stopOther, Nat.add_sub_cancel_left]

theorem constant_alike {quote : Char} (front : W.front place) (here : W.text[place]? = some quote)
    (isQuote : quote ∈ W.grammar.quotes)
    (expects : W.expects place (1 + (constantAt W.grammar quote W.text place).length))
    (loose : W.rigid ∨ (constantAt W.grammar quote W.text place).closed = true) :
    ∃ decoded, constantAt W.grammar quote W.other (W.move place) =
        { constantAt W.grammar quote W.text place with text := decoded } ∧
      W.decoded (String.ofList (constantAt W.grammar quote W.text place).text)
        (String.ofList decoded) := by
  have inside := (Array.getElem?_eq_some_iff.mp here).1
  have bound := Constant.length_decode_le W.grammar.textEscape quote (W.text.rest (place + 1))
  rw [Text.length_rest] at bound
  have together := (course.reach place _ expects front (by simp only [constantAt]; omega)).1
  have folds : ∀ c, W.fold c = quote ↔ c = quote := fun c => course.fold c quote (Or.inr (Or.inl isQuote))
  have index : ∀ text p k, (Text.rest text (p + 1))[k]? = text[p + (1 + k)]? := fun text p k => by
    rw [Text.getElem_rest, Nat.add_assoc]
  obtain ⟨length, closed, text⟩ := @Constant.decode_alike W.fold W.grammar.textEscape quote folds
    (fun c => course.fold c '\\' (Or.inl (by simp))) (W.text.rest (place + 1))
    (W.other.rest (W.move place + 1))
    (fun k less => by
      obtain ⟨c, inText, inOther⟩ := together.char (1 + k) (Nat.add_lt_add_left less 1)
      rw [index, index, inText, inOther, Option.map_some])
    (fun _ => by
      have behind := together.along _ (Nat.le_refl _)
      have moved := together.move _ (Nat.le_refl _)
      simp only [constantAt] at behind moved
      rw [index, index, ← moved]
      rcases course.step _ behind with further | halts
      · obtain ⟨c, inText, inOther⟩ := further.char 0 Nat.one_pos
        simp only [Nat.add_zero] at inText inOther
        rw [inText, inOther, Option.some_inj, Option.some_inj, folds]
      · have halting := course.quoted place quote front here isQuote
        exact iff_of_false (fun again => halting (halts.2 quote again))
          fun again => halting (halts.1 quote again))
    (fun open_ => by
      obtain ⟨distance, moves, sizes⟩ := course.distance (loose.resolve_right (by
        rw [constantAt, open_]
        exact Bool.false_ne_true))
      rw [Text.length_rest, Text.length_rest, sizes, moves]
      omega)
  refine ⟨(constantAt W.grammar quote W.other (W.move place)).text, ?_, course.decoded _ _ fun plain => ?_⟩
  · have same : ∀ a b : Constant, a.length = b.length → a.closed = b.closed →
        a = { b with text := a.text } := by
      rintro ⟨_, _, _⟩ ⟨_, _, _⟩ rfl rfl
      rfl
    exact same _ _ length closed
  · simp only [constantAt, text plain]

theorem opening_alike (front : W.front place) :
    Grammar.isOpeningBraceAt W.other (W.move place) = Grammar.isOpeningBraceAt W.text place := by
  rw [Grammar.isOpeningBraceAt, Grammar.isOpeningBraceAt]
  rcases course.char place front with same | ⟨_, none, c, there, separator⟩
  · have brace : ∀ c d, d ∈ ['(', '['] → (W.fold c == d) = (c == d) := by
      intro c d member
      rw [Bool.eq_iff_iff, beq_iff_eq, beq_iff_eq]
      exact course.fold c d (Or.inl (by simp at member ⊢; tauto))
    rw [same]
    cases W.text[place]? with
    | none => rfl
    | some c => simp [brace c '(', brace c '[']
  · have := course.separates c separator
    simp only [Grammar.isBrace, Bool.or_eq_false_iff] at this
    rw [none, there, Option.any_none, Option.any_some, this.1.1.1, this.1.2]
    rfl

theorem terminator_alike (front : W.front place) :
    W.grammar.isTerminatorAt W.other (W.move place) = W.grammar.isTerminatorAt W.text place := by
  have ends := course.isBlockEndAt_alike (course.along_of_front front)
  rw [Grammar.isTerminatorAt, Grammar.isTerminatorAt, ends]
  rcases course.char place front with same | ⟨_, none, c, there, separator⟩
  · rw [same]
    cases W.text[place]? with
    | none => rfl
    | some c =>
        have sign : ∀ d ∈ [',', ')', ']'], (W.fold c == d) = (c == d) := by
          intro d member
          rw [Bool.eq_iff_iff, beq_iff_eq, beq_iff_eq]
          exact course.fold c d (Or.inl (by simp at member ⊢; tauto))
        have separator : (some (W.fold c) == W.grammar.separator) = (some c == W.grammar.separator) := by
          cases separator : W.grammar.separator with
          | none => rfl
          | some d =>
              rw [Bool.eq_iff_iff, beq_iff_eq, beq_iff_eq, Option.some_inj, Option.some_inj]
              exact course.fold c d (Or.inr (Or.inr separator.symm))
        simp only [Option.map_some, sign ',' (by simp), sign ')' (by simp), sign ']' (by simp), separator]
  · rw [none, there]
    simp [separator]

theorem stands_alike {afterOperand : Bool} {written : OperatorMatch} (front : W.front place)
    (found : W.grammar.operatorAt? W.text place afterOperand = some written) (awaits : W.Awaits written) :
    W.Stands written ∧ place < written.stop := by
  have stands := Grammar.operatorAt_stands course.named ((course.front_iff place).mp front).2 found
  have calms := (course.operatorAt_alike afterOperand front).2 written found
  have each : ∀ (words : List (Nat × String)) a b, W.grammar.comments.Spelled W.text a words b →
      ∀ word ∈ words, word.1 + word.2.length ≤ W.text.size ∧ 0 < word.2.length := by
    intro words
    induction words with
    | nil => nofun
    | cons word rest ih =>
        intro a b spelled
        exact List.forall_mem_cons.mpr ⟨⟨spelled.2.2.1, spelled.2.1⟩, ih _ _ spelled.2.2.2.2⟩
  refine ⟨⟨stands.nonempty, fun part member => ?_⟩, stands.lt_stop⟩
  obtain ⟨inside, filled⟩ := each _ _ _ stands.spelled part member
  obtain ⟨calm, settled⟩ := calms part member
  exact ⟨course.lands _ _ (awaits part member filled) calm settled, inside, filled⟩

/-- Two texts that take one course are lawful. -/
theorem lawful : W.Lawful where
  plain := course.plain
  named := course.named
  rest_of_front p front := ((course.front_iff p).mp front).1
  inside p rest := course.inside p (course.calm_of_rest p rest)
  ascends p q restP restQ := course.ascends p q (course.calm_of_rest p restP) (course.calm_of_rest q restQ)
  distance := course.distance
  expects := course.expects
  consume p length expects front inside := by
    obtain ⟨together, rest⟩ := course.reach p length expects front inside
    exact ⟨rest, together.move length (Nat.le_refl _)⟩
  slice p length expects front inside := (course.reach p length expects front inside).1.slice
  gap p rest := by
    have there := (course.front_iff _).mpr ⟨course.gap p rest, CommentMarkers.settled_gapEnd⟩
    exact ⟨there, (course.gapEnd_alike (course.calm_of_rest p rest)).2⟩
  unclosed c d text other markers markersOther rest moved _ :=
    (course.skipGap_alike text other markers markersOther (course.calm_of_rest _ rest) moved).2.2
  char := course.char
  blank := course.blank
  fold c d known := course.fold c d (known.imp_left fun member => by simp at member ⊢; tauto)
  opening p := course.opening_alike
  terminator p := course.terminator_alike
  blockStart p front := course.isBlockStartAt_alike (course.along_of_front front)
  blockEnd p front := course.isBlockEndAt_alike (course.along_of_front front)
  keyword p front := course.keywordAt_alike (course.along_of_front front)
  operator p afterOperand front := (course.operatorAt_alike afterOperand front).1
  stands p afterOperand written := course.stands_alike
  number p front := course.numberAt_alike (course.along_of_front front)
  digits p written found := by
    obtain ⟨fits, anchored, _⟩ := course.numbers
    exact Grammar.numberAt_inside anchored found
  name p front := course.nameEnd_alike (course.along_of_front front)
  constant p quote := course.constant_alike

end Tandem.Course

end ExprLang
