import ExprLang.Output.Diagnostic
import ExprLang.Proofs.Language
import ExprLang.Proofs.Parse.Statements
import Mathlib.Data.Prod.Lex
import Mathlib.Order.Monotone.Defs

/-!
Where diagnostics point to. All faults of a language without extensions lie within the text, and those whose
length is a distance have one. Line and column are as good as the position: they come in its order, and the
position can be computed from them.
-/

namespace ExprLang

open ParseState

/-! Lines and columns -/

namespace Text

variable {text : Text} {position line column : Nat}

def lines (text : Text) : List (List Char) := text.toList.splitOn '\n'

/-- How many characters the lines before this one have, line feeds included. -/
def charactersBefore (text : Text) (line : Nat) : Nat :=
  ((text.lines.take (line - 1)).flatMap fun chars => chars ++ ['\n']).length

/-- The text has a line of this number, and with this column it stands for the position. -/
structure Marks (text : Text) (position line column : Nat) : Prop where
  exists_line : 0 < line ∧ line ≤ text.lines.length
  column_pos : 0 < column
  counted : text.charactersBefore line + column = position + 1

end Text

theorem advance_append (place : Nat × Nat) (chars more : List Char) :
    advance place (chars ++ more) = advance (advance place chars) more := by
  induction chars generalizing place with
  | nil => rfl
  | cons c rest ih =>
      obtain ⟨line, column⟩ := place
      rw [List.cons_append, advance, advance]
      by_cases feed : c = '\n'
      · rw [if_pos feed, if_pos feed, ih]
      · rw [if_neg feed, if_neg feed, ih]

/-- Each character leads further on in the line or to the next one. -/
theorem lt_advance_one (place : Nat × Nat) (c : Char) : toLex place < toLex (advance place [c]) := by
  obtain ⟨line, column⟩ := place
  rw [advance, Prod.Lex.toLex_lt_toLex]
  by_cases feed : c = '\n'
  · rw [if_pos feed]
    exact Or.inl (Nat.lt_succ_self line)
  · rw [if_neg feed]
    exact Or.inr ⟨rfl, Nat.lt_succ_self column⟩

theorem lt_advance (place : Nat × Nat) {chars : List Char} (some : chars ≠ []) :
    toLex place < toLex (advance place chars) := by
  induction chars generalizing place with
  | nil => exact absurd rfl some
  | cons c rest ih =>
      have first := lt_advance_one place c
      by_cases single : rest = []
      · rwa [single]
      · rw [← List.singleton_append, advance_append]
        exact first.trans (ih (advance place [c]) single)

theorem strictMonoOn_lineColumn (text : Text) :
    StrictMonoOn (fun position => toLex (lineColumn text position)) (Set.Iic text.size) := by
  intro i _ j inside less
  have within : j ≤ text.toList.length := inside
  have split : text.toList.take j = text.toList.take i ++ (text.toList.drop i).take (j - i) := by
    rw [← List.take_add, Nat.add_sub_cancel' (Nat.le_of_lt less)]
  have some : (text.toList.drop i).take (j - i) ≠ [] := by
    apply List.ne_nil_of_length_pos
    rw [List.length_take, List.length_drop]
    omega
  dsimp only [lineColumn]
  rw [split, advance_append]
  exact lt_advance _ some

/-- Where a number of characters leads to from a line and a column, with the lines that they pass. -/
structure Crosses (chars : List Char) (start : Nat × Nat) (count passed : Nat) (stop : Nat × Nat) : Prop where
  line : stop.1 = start.1 + passed
  exists_line : passed < (chars.splitOn '\n').length
  column_pos : 0 < start.2 → 0 < stop.2
  counted : (((chars.splitOn '\n').take passed).flatMap fun chars => chars ++ ['\n']).length + stop.2 =
    count + if passed = 0 then start.2 else 1

theorem crosses_none (chars : List Char) (start : Nat × Nat) : Crosses chars start 0 0 start where
  line := rfl
  exists_line := List.length_pos_of_ne_nil (List.splitOn_ne_nil _ _)
  column_pos := id
  counted := by simp

section Crosses

variable {c : Char} {rest : List Char} {line column count passed : Nat} {stop : Nat × Nat}

/-- The line that ends here has been passed, and the others are those of the rest. -/
theorem Crosses.behind_lineFeed (crosses : Crosses rest (line + 1, 1) count passed stop) :
    Crosses ('\n' :: rest) (line, column) (count + 1) (passed + 1) stop := by
  have lines : ('\n' :: rest).splitOn '\n' = [] :: rest.splitOn '\n' := by
    rw [List.splitOn_eq_splitOnP, List.splitOnP_cons_eq_if_modifyHead]
    rfl
  constructor
  · rw [crosses.line, Nat.add_right_comm, Nat.add_assoc]
  · rw [lines, List.length_cons]
    exact Nat.succ_lt_succ crosses.exists_line
  · exact fun _ => crosses.column_pos Nat.one_pos
  · have counted := crosses.counted
    rw [ite_self] at counted
    rw [lines, List.take_succ_cons, List.flatMap_cons, if_neg (Nat.succ_ne_zero passed)]
    simp only [List.length_append, List.length_singleton, List.length_nil]
    omega

/-- The first line of the rest has one character more. -/
theorem Crosses.behind_other (other : c ≠ '\n') (crosses : Crosses rest (line, column + 1) count passed stop) :
    Crosses (c :: rest) (line, column) (count + 1) passed stop := by
  obtain ⟨first, others, whole⟩ := List.exists_cons_of_ne_nil (List.splitOn_ne_nil '\n' rest)
  have lines : (c :: rest).splitOn '\n' = (c :: first) :: others := by
    rw [List.splitOn_eq_splitOnP, List.splitOnP_cons_eq_if_modifyHead,
      if_neg (by simpa using other), ← List.splitOn_eq_splitOnP, whole]
    rfl
  constructor
  · exact crosses.line
  · have inside := crosses.exists_line
    rw [whole] at inside
    rwa [lines]
  · exact fun _ => crosses.column_pos (Nat.succ_pos column)
  · have counted := crosses.counted
    rw [whole] at counted
    rw [lines]
    cases passed with
    | zero =>
        rw [if_pos rfl] at counted ⊢
        simp only [List.take_zero, List.flatMap_nil, List.length_nil] at counted ⊢
        omega
    | succ passed =>
        rw [if_neg (Nat.succ_ne_zero passed)] at counted ⊢
        simp only [List.take_succ_cons, List.flatMap_cons, List.length_append, List.length_cons,
          List.length_nil] at counted ⊢
        omega

end Crosses

theorem exists_crosses (chars : List Char) (start : Nat × Nat) {count : Nat} (inside : count ≤ chars.length) :
    ∃ passed, Crosses chars start count passed (advance start (chars.take count)) := by
  induction chars generalizing start count with
  | nil =>
      obtain rfl := Nat.le_zero.mp inside
      exact ⟨0, crosses_none [] start⟩
  | cons c rest ih =>
      cases count with
      | zero => exact ⟨0, crosses_none (c :: rest) start⟩
      | succ count =>
          obtain ⟨line, column⟩ := start
          have within : count ≤ rest.length := Nat.le_of_succ_le_succ inside
          rw [List.take_succ_cons, advance]
          by_cases feed : c = '\n'
          · rw [if_pos feed, feed]
            obtain ⟨passed, crosses⟩ := ih (line + 1, 1) within
            exact ⟨passed + 1, crosses.behind_lineFeed⟩
          · rw [if_neg feed]
            obtain ⟨passed, crosses⟩ := ih (line, column + 1) within
            exact ⟨passed, crosses.behind_other feed⟩

/-- The position can be counted from the line and the column. -/
theorem marks_lineColumn (text : Text) {position : Nat} (inside : position ≤ text.size) :
    text.Marks position (lineColumn text position).1 (lineColumn text position).2 := by
  obtain ⟨passed, crosses⟩ := exists_crosses text.toList (1, 1) inside
  have line : (lineColumn text position).1 = 1 + passed := crosses.line
  constructor
  · rw [line]
    exact ⟨Nat.lt_add_right passed Nat.one_pos, Nat.add_comm 1 passed ▸ crosses.exists_line⟩
  · exact crosses.column_pos Nat.one_pos
  · rw [Text.charactersBefore, line, Nat.add_sub_cancel_left]
    have counted := crosses.counted
    rwa [ite_self] at counted

/-! Diagnostics -/

namespace Grammar

variable {grammar : Grammar} {config : Config} {isLiteralChar : Char → Nat → Bool}

/-- Every fault of a strict parse has its place in the text, also if the parse stops. -/
theorem located_of_build (built : build config isLiteralChar [] = .ok grammar) (text : String) :
    ∀ fault ∈ (grammar.parse text).faults, fault.Located text.length := by
  obtain ⟨named, plain⟩ := named_of_build built
  have size : text.length = (Text.ofString text).size := rfl
  rw [size]
  rcases @finalState_cases _ True named (fun _ => plain) _ (tidy_of_plain plain (Text.ofString text)) with
    ⟨_, rooted, _⟩ | ⟨_, halted⟩
  · obtain ⟨_, _, standing⟩ := rooted.standing
    have located := (standing.strict trivial).located
    rwa [standing.text] at located
  · have located := halted.located trivial
    rwa [halted.text] at located

/-- Each fault ends within the text, and where its length is the distance of two places the second one is
behind the first. Line and column of a diagnostic stand for its position; over all positions up to the end
of the text they grow with the position, which is the number of the characters in the lines before and of
those before it in its own line. -/
theorem diagnostics_point_into_the_text (built : build config isLiteralChar [] = .ok grammar) (text : String) :
    (∀ fault ∈ (grammar.parse text).faults, fault.Located text.length) ∧
      (∀ diagnostic ∈ (grammar.parse text).diagnostics,
        diagnostic.start + diagnostic.length ≤ text.length ∧
          (Text.ofString text).Marks diagnostic.start diagnostic.line diagnostic.column) ∧
      StrictMonoOn (fun position => toLex (lineColumn (Text.ofString text) position)) (Set.Iic text.length) ∧
      ∀ position ≤ text.length, (Text.ofString text).Marks position
        (lineColumn (Text.ofString text) position).1 (lineColumn (Text.ofString text) position).2 := by
  have located := located_of_build built text
  refine ⟨located, ?_, strictMonoOn_lineColumn _, fun _ => marks_lineColumn _⟩
  intro diagnostic member
  obtain ⟨fault, isFault, rfl⟩ := List.mem_map.mp member
  have inside : fault.start + fault.length ≤ text.length := (located fault isFault).inside
  exact ⟨inside, marks_lineColumn _ (Nat.le_trans (Nat.le_add_right _ _) inside)⟩

/-- Faults on three lines, the last one at the end of the text. -/
theorem diagnostics_on_three_lines :
    build sampleConfig stockLiteralChar [] = .ok (sampleGrammar []) ∧
      ((sampleGrammar []).parse "x + +\n const const)\n/* y").diagnostics.map
        (fun diagnostic => (diagnostic.line, diagnostic.column, diagnostic.start, diagnostic.length)) =
          [(2, 8, 13, 5), (2, 2, 7, 5), (1, 3, 2, 1), (1, 5, 4, 1), (2, 13, 18, 1), (3, 1, 20, 4)] ∧
      ∀ diagnostic ∈ ((sampleGrammar []).parse "x + +\n const const)\n/* y").diagnostics,
        diagnostic.start + diagnostic.length ≤ 24 :=
  ⟨build_sample, by decide +kernel, fun diagnostic member =>
    ((diagnostics_point_into_the_text build_sample _).2.1 diagnostic member).1⟩

end Grammar

end ExprLang
