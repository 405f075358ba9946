/-!
Sets of code points as sorted, disjoint, inclusive ranges, and the search in them.
-/

namespace ExprLang.Unicode

/-- Each pair is the first and the last code point of a range; the ranges ascend. -/
abbrev Ranges := Array (Nat × Nat)

namespace Ranges

/-- Looks between the indices `low` and `high`; `steps` bounds the halvings. -/
def search (ranges : Ranges) (code : Nat) : Nat → Nat → Nat → Bool
  | 0, _, _ => false
  | steps + 1, low, high =>
      if low < high then
        let middle := (low + high) / 2
        match ranges[middle]? with
        | none => false
        | some (first, last) =>
            if code < first then search ranges code steps low middle
            else if last < code then search ranges code steps (middle + 1) high
            else true
      else false

/-- Whether some range holds `code`. Each halving drops an index, so the size is enough steps. -/
def holds (ranges : Ranges) (code : Nat) : Bool :=
  ranges.search code (ranges.size + 1) 0 ranges.size

end Ranges

end ExprLang.Unicode
