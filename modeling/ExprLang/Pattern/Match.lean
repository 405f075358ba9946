import ExprLang.Pattern.Basic
import ExprLang.Text

/-!
What a pattern matches. `ends` lists every place where a match from a given place can end, in the
order of preference and each once; a match takes the first place, from the leftmost start that has
one. Since a pattern remembers nothing but its place, dropping a later repeat of a place loses no
match.
-/

namespace ExprLang

namespace Assertion

def holds (text : Text) (wordChars : CharSet) (position : Nat) : Assertion → Bool
  | textStart => position == 0
  | textEnd => position == text.size
  | lineStart => before == none || before == some '\n'
  | lineEnd => after == none || after == some '\n'
  | anyLineStart =>
      before == none || before == some '\n' || (before == some '\r' && after != some '\n')
  | anyLineEnd =>
      after == none || after == some '\r' || (after == some '\n' && before != some '\r')
  | wordBoundary => inWordBefore != inWordAfter
  | notWordBoundary => inWordBefore == inWordAfter
  | wordStart => !inWordBefore && inWordAfter
  | wordEnd => inWordBefore && !inWordAfter
  | wordStartHalf => !inWordBefore
  | wordEndHalf => !inWordAfter
where
  before : Option Char := if position = 0 then none else text[position - 1]?
  after : Option Char := text[position]?
  inWordBefore : Bool := before.any wordChars.holds
  inWordAfter : Bool := after.any wordChars.holds

end Assertion

namespace Pattern

/-- Places visited in a repetition, each with the repetitions still allowed there, and the places
where it may stop, the preferred one last. -/
structure Walk where
  seen : List (Option Nat × Nat) := []
  found : List Nat := []

namespace Walk

def stop (walk : Walk) (position : Nat) : Walk :=
  if position ∈ walk.found then walk else { walk with found := position :: walk.found }

/-- Goes on repeating from `position`; `step` gives where one more repetition ends. A repetition
without limit stops once it has consumed nothing. -/
def visit (step : Nat → List Nat) (eager : Bool) : Nat → Option Nat → Nat → Walk → Walk
  | 0, _, _, walk => walk
  | depth + 1, allowed, position, walk =>
      if (allowed, position) ∈ walk.seen then walk
      else
        let go := fun walk =>
          if allowed = some 0 then walk
          else (step position).foldl
            (fun walk next =>
              if allowed = none ∧ next = position then walk.stop position
              else visit step eager depth (allowed.map (· - 1)) next walk)
            walk
        let entered := { walk with seen := (allowed, position) :: walk.seen }
        if eager then (go entered).stop position else go (entered.stop position)

end Walk

/-- The places after exactly `count` repetitions. -/
def copies (step : Nat → List Nat) : Nat → List Nat → List Nat
  | 0, positions => positions
  | count + 1, positions => copies step count (positions.flatMap step).eraseDups

def repeated (text : Text) (step : Nat → List Nat) (min : Nat) (max : Option Nat) (eager : Bool)
    (position : Nat) : List Nat :=
  let allowed := max.map (· - min)
  let depth := match allowed with
    | none => text.size + 1
    | some count => count + 1
  let walk := (copies step min [position]).foldl
    (fun walk start => walk.visit step eager depth allowed start) ({} : Walk)
  walk.found.reverse

def ends (text : Text) : Pattern → Nat → List Nat
  | empty, position => [position]
  | char set, position => if text[position]?.any set.holds then [position + 1] else []
  | assertion place wordChars, position =>
      if place.holds text wordChars position then [position] else []
  | sequence p q, position => ((ends text p position).flatMap (ends text q)).eraseDups
  | alternative p q, position => (ends text p position ++ ends text q position).eraseDups
  | repetition p min max eager, position => repeated text (ends text p) min max eager position

/-- Tries the next `starts` places from `position` on. -/
def findFrom (pattern : Pattern) (text : Text) : Nat → Nat → Option (Nat × Nat)
  | 0, _ => none
  | starts + 1, position =>
      match ends text pattern position with
      | stop :: _ => some (position, stop)
      | [] => findFrom pattern text starts (position + 1)

/-- Start and end of the leftmost match. -/
def find? (pattern : Pattern) (text : Text) : Option (Nat × Nat) :=
  pattern.findFrom text (text.size + 1) 0

end Pattern

end ExprLang
