import ExprLang.Unicode.Lowercase

/-!
Simple case folding: the characters that differ from one another in case only. Most come in pairs of
a capital and its lowercase; the table holds the other sets.
-/

namespace ExprLang.Unicode

/-- Sets of characters that are one up to case and no pair of the lowercase mapping. -/
def caseSets : List (List Nat) :=
  [[75, 107, 8490], [83, 115, 383], [181, 924, 956], [197, 229, 8491], [452, 453, 454],
   [455, 456, 457], [458, 459, 460], [497, 498, 499], [837, 921, 953, 8126], [912, 8147],
   [914, 946, 976], [917, 949, 1013], [920, 952, 977, 1012], [922, 954, 1008], [928, 960, 982],
   [929, 961, 1009], [931, 962, 963], [934, 966, 981], [937, 969, 8486], [944, 8163],
   [1042, 1074, 7296], [1044, 1076, 7297], [1054, 1086, 7298], [1057, 1089, 7299],
   [1058, 1090, 7300, 7301], [1066, 1098, 7302], [1122, 1123, 7303], [7304, 42570, 42571],
   [7776, 7777, 7835], [64261, 64262]]

/-- Whether `code` is what some code point of the run maps to. -/
def CaseRun.reaches (run : CaseRun) (code : Nat) : Bool :=
  let source := (code : Int) - run.shift
  run.first ≤ source && source ≤ run.last && (source - run.first) % run.stride == 0

/-- The characters that are `c` up to case, without `c`. -/
def caseVariants (c : Char) : List Char :=
  let code := c.toNat
  match caseSets.find? (·.contains code) with
  | some set => (set.filter (· ≠ code)).map Char.ofNat
  | none =>
      if code < 128 then
        if c.isUpper then [c.toLower] else if c.isLower then [c.toUpper] else []
      else
        match lowercaseRun? code with
        | some run => [Char.ofNat (code + run.shift).toNat]
        | none =>
            match lowercaseRuns.find? fun run => run.reaches code with
            | some run => [Char.ofNat (code - run.shift).toNat]
            | none => []

end ExprLang.Unicode
