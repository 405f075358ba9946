import ExprLang.Proofs.Language
import ExprLang.Proofs.Parse.Statements

/-!
The parser never fails on its own account. Each of its guards records a fault of its own if it fires:
where a part is refused, where braces are to be parsed and there is no brace, and where a round of a
list gets no further. None of these faults is ever in the result of a language without extensions, so
such a parse stops for one reason only, a symbol that nothing in the language begins with.
-/

namespace ExprLang

open ParseState

namespace Grammar

variable {grammar : Grammar} {config : Config} {isLiteralChar : Char → Nat → Bool}

/-- No guard of the parser ever fires. A critical fault is an invalid symbol; it is the only one and
the last fault of all, and no item reaches behind the place where it stands. -/
theorem parse_stops_at_invalid_symbols_only (built : build config isLiteralChar [] = .ok grammar)
    (text : String) :
    (∀ fault ∈ (grammar.parse text).faults, fault.code ≠ .parserImplementation) ∧
      ∀ fault ∈ (grammar.parse text).faults, fault.critical = true →
        ∃ before symbol, (grammar.parse text).faults = before ++ [fault] ∧
          (∀ other ∈ before, other.critical = false) ∧
          fault.length = 1 ∧ fault.cause = .invalidSymbol symbol ∧
          ∀ id, (grammar.parse text).forest.stop id ≤ fault.start := by
  obtain ⟨named, plain⟩ := named_of_build built
  rcases @finalState_cases _ True named (fun _ => plain) _ (tidy_of_plain plain _) with
    ⟨_, rooted, _⟩ | ⟨_, halted⟩
  · obtain ⟨_, _, standing⟩ := rooted.standing
    have mild := (standing.strict trivial).mild
    exact ⟨fun fault member => (mild fault member).2,
      fun fault member critical => absurd ((mild fault member).1.symm.trans critical) nofun⟩
  · obtain ⟨before, symbol, faults, mild⟩ := halted.last trivial
    have cases : ∀ fault ∈ (grammar.parse text).faults, fault.Mild ∨
        fault = ⟨(grammar.finalState (Text.ofString text)).cursor.position, 1,
          .invalidSymbol symbol, true⟩ := by
      intro fault member
      have inAll : fault ∈ (grammar.finalState (Text.ofString text)).faults := member
      rw [faults] at inAll
      rcases List.mem_append.mp inAll with early | last
      · exact Or.inl (mild fault early)
      · exact Or.inr (List.mem_singleton.mp last)
    refine ⟨fun fault member => ?_, fun fault member critical => ?_⟩
    · rcases cases fault member with mild | rfl
      · exact mild.2
      · nofun
    · rcases cases fault member with mild | rfl
      · exact absurd (mild.1.symm.trans critical) nofun
      · refine ⟨before, symbol, faults, fun other early => (mild other early).1, rfl, rfl, fun id => ?_⟩
        by_cases inside : id < (grammar.parse text).forest.size
        · exact (halted.within id (Nat.zero_le id) inside).2
        · rw [Forest.stop_of_size_le (Nat.le_of_not_lt inside)]
          exact Nat.zero_le _

/-- The parser stops at a symbol that begins nothing. -/
theorem stopped_at_invalid_symbol :
    build sampleConfig stockLiteralChar [] = .ok (sampleGrammar []) ∧
      ((sampleGrammar []).parse "const a + # b").faults.map Fault.code = [.invalidSymbol] ∧
      ∀ fault ∈ ((sampleGrammar []).parse "const a + # b").faults,
        fault.code ≠ .parserImplementation :=
  ⟨build_sample, by decide +kernel, (parse_stops_at_invalid_symbols_only build_sample _).1⟩

end Grammar

end ExprLang
