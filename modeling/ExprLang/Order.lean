/-!
Sorting and merging by recursion on the rows themselves, so that all that is built on them can be
evaluated in a proof.
-/

namespace ExprLang

variable {α : Type} (le : α → α → Bool)

/-- Puts a value in front of the first one that it may stand before. -/
def insertBy (value : α) : List α → List α
  | [] => [value]
  | other :: rest =>
      if le value other then value :: other :: rest else other :: insertBy value rest

/-- Values that may stand in either order keep theirs. -/
def sortBy : List α → List α
  | [] => []
  | value :: rest => insertBy le value (sortBy rest)

/-- `rest` merges what comes behind `value` with others. -/
def mergeBehind (value : α) (rest : List α → List α) : List α → List α
  | [] => value :: rest []
  | other :: others =>
      if le value other then value :: rest (other :: others)
      else other :: mergeBehind value rest others

/-- Makes one row of two. Of their first values the one of the left row comes next if it may. -/
def mergeBy : List α → List α → List α
  | [] => fun others => others
  | value :: rest => mergeBehind le value (mergeBy rest)

end ExprLang
