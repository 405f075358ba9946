import ExprLang.Pattern.Basic

/-!
The written form of a pattern: literals, classes with set operations, groups with flags, counted
repetitions, assertions and escapes. Look-around and references back have no written form.

Every step of the reader consumes a character, so the length of the text bounds its recursion.
-/

namespace ExprLang

inductive PatternError where
  | groupUnclosed
  | groupUnopened
  | badGroupName
  | badFlags
  | lookAround
  | backReference
  | nothingToRepeat
  | badCount
  | badEscape
  | badCodePoint
  | unknownProperty
  | classUnclosed
  | badClassRange
  | badClassItem
  | notUnicode
  deriving DecidableEq, Repr

def PatternError.message : PatternError → String
  | groupUnclosed => "unclosed group"
  | groupUnopened => "unopened group"
  | badGroupName => "invalid capture group name"
  | badFlags => "invalid flags"
  | lookAround => "look-around is not supported"
  | backReference => "backreferences are not supported"
  | nothingToRepeat => "repetition operator missing expression"
  | badCount => "invalid repetition count"
  | badEscape => "unrecognized escape sequence"
  | badCodePoint => "invalid character code"
  | unknownProperty => "Unicode property not found"
  | classUnclosed => "unclosed character class"
  | badClassRange => "invalid character class range"
  | badClassItem => "invalid item in a character class"
  | notUnicode => "Unicode is required here"

abbrev Attempt := Except PatternError

namespace Pattern

structure Flags where
  anyCase : Bool := false
  multiLine : Bool := false
  dotAll : Bool := false
  swapGreed : Bool := false
  unicode : Bool := true
  anyLineEnd : Bool := false
  /-- Blanks and comments between the items of the pattern mean nothing. -/
  verbose : Bool := false

namespace Flags

def set (flags : Flags) (value : Bool) : Char → Option Flags
  | 'i' => some { flags with anyCase := value }
  | 'm' => some { flags with multiLine := value }
  | 's' => some { flags with dotAll := value }
  | 'U' => some { flags with swapGreed := value }
  | 'u' => some { flags with unicode := value }
  | 'R' => some { flags with anyLineEnd := value }
  | 'x' => some { flags with verbose := value }
  | _ => none

def word (flags : Flags) : CharSet := if flags.unicode then .word else .asciiWord

def fold (flags : Flags) (set : CharSet) : CharSet := if flags.anyCase then .anyCase set else set

def literal (flags : Flags) (c : Char) : CharSet := flags.fold (.single c)

def dot (flags : Flags) : CharSet :=
  if flags.dotAll then .complement .nothing
  else .complement (.ofRanges (('\n', '\n') :: if flags.anyLineEnd then [('\r', '\r')] else []))

def lineStart (flags : Flags) : Assertion :=
  if flags.multiLine then (if flags.anyLineEnd then .anyLineStart else .lineStart) else .textStart

def lineEnd (flags : Flags) : Assertion :=
  if flags.multiLine then (if flags.anyLineEnd then .anyLineEnd else .lineEnd) else .textEnd

end Flags

/-- Drops blanks and comments; a comment runs from a number sign up to the end of the line. -/
def dropNotes : Bool → List Char → List Char
  | _, [] => []
  | true, c :: rest => dropNotes (c ≠ '\n') rest
  | false, c :: rest =>
      if Unicode.isBlank c then dropNotes false rest
      else if c = '#' then dropNotes true rest
      else c :: rest

def Flags.skip (flags : Flags) (input : List Char) : List Char :=
  if flags.verbose then dropNotes false input else input

/-! Escapes -/

inductive Primitive where
  | char (c : Char)
  | set (set : CharSet)
  | assertion (place : Assertion)

def isMeta (c : Char) : Bool := "\\.+*?()|[]\x7b\x7d^$#&-~".toList.contains c

/-- Characters that stand for themselves behind a backslash. -/
def isEscapable (c : Char) : Bool :=
  isMeta c || (c.toNat < 128 && !c.isAlphanum && c != '<' && c != '>')

def hexValue? (c : Char) : Option Nat :=
  if c.isDigit then some (c.toNat - '0'.toNat)
  else if 'a' ≤ c ∧ c ≤ 'f' then some (c.toNat - 'a'.toNat + 10)
  else if 'A' ≤ c ∧ c ≤ 'F' then some (c.toNat - 'A'.toNat + 10)
  else none

def charOfCode (code : Nat) : Attempt Char :=
  if code.isValidChar then .ok (Char.ofNat code) else .error .badCodePoint

def readHexDigits (flags : Flags) : Nat → Nat → List Char → Attempt (Nat × List Char)
  | 0, code, input => .ok (code, input)
  | _ + 1, _, [] => .error .badCodePoint
  | digits + 1, code, c :: rest =>
      match hexValue? c with
      | some value => readHexDigits flags digits (16 * code + value) (flags.skip rest)
      | none => .error .badCodePoint

/-- Reads up to the closing brace; `steps` bounds the digits. -/
def readBracedHex (flags : Flags) : Nat → Option Nat → List Char → Attempt (Nat × List Char)
  | 0, _, _ => .error .badCodePoint
  | _, _, [] => .error .badCodePoint
  | steps + 1, code, c :: rest =>
      if c = '\x7d' then
        match code with
        | some code => .ok (code, flags.skip rest)
        | none => .error .badCodePoint
      else match hexValue? c with
        | some value =>
            readBracedHex flags steps (some (16 * code.getD 0 + value)) (flags.skip rest)
        | none => .error .badCodePoint

def readHex (flags : Flags) (digits : Nat) (input : List Char) : Attempt (Char × List Char) := do
  let (code, rest) ← match flags.skip input with
    | '\x7b' :: rest => readBracedHex flags (rest.length + 1) none (flags.skip rest)
    | rest => readHexDigits flags digits 0 rest
  return (← charOfCode code, rest)

/-- The characters up to the closing brace. -/
def readBraced (flags : Flags) : Nat → List Char → List Char → Attempt (List Char × List Char)
  | 0, _, _ => .error .unknownProperty
  | _, _, [] => .error .unknownProperty
  | steps + 1, name, c :: rest =>
      if c = '\x7d' then .ok (name.reverse, rest)
      else readBraced flags steps (c :: name) (flags.skip rest)

def splitAtSign (sign : Char) : List Char → List Char → Option (List Char × List Char)
  | _, [] => none
  | before, c :: rest =>
      if c = sign then some (before.reverse, rest) else splitAtSign sign (c :: before) rest

def splitAtNotEqual : List Char → List Char → Option (List Char × List Char)
  | before, '!' :: '=' :: rest => some (before.reverse, rest)
  | before, c :: rest => splitAtNotEqual (c :: before) rest
  | _, [] => none

/-- `name`, or a name and a value with a sign between them. -/
def propertyOf (text : List Char) : Option CharSet :=
  match splitAtNotEqual [] text with
  | some (name, value) => (CharSet.propertyValue? name value).map .complement
  | none =>
      match (splitAtSign ':' [] text).or (splitAtSign '=' [] text) with
      | some (name, value) => CharSet.propertyValue? name value
      | none => CharSet.property? text

def readProperty (flags : Flags) (negated : Bool) (input : List Char) :
    Attempt (CharSet × List Char) := do
  if !flags.unicode then throw .notUnicode
  let (name, rest) ← match flags.skip input with
    | [] => .error .unknownProperty
    | '\x7b' :: rest => readBraced flags (rest.length + 1) [] (flags.skip rest)
    | c :: rest => if c = '\\' then .error .unknownProperty else .ok ([c], flags.skip rest)
  match propertyOf name with
  | none => throw .unknownProperty
  | some set => return (if negated then .complement (flags.fold set) else flags.fold set, rest)

/-- The class of one of the letters d, s and w, and the rest of the characters for a capital. -/
def letterClass (flags : Flags) (letter : Char) : Attempt CharSet :=
  let set : CharSet := match letter.toLower with
    | 'd' => if flags.unicode then .digit else .asciiDigit
    | 's' => if flags.unicode then .blank else .asciiBlank
    | _ => flags.word
  if letter.isLower then .ok set
  else if flags.unicode then .ok (.complement set) else .error .notUnicode

/-- Behind a boundary escape a name in braces may choose one side of a word. -/
def readBoundary (flags : Flags) (input : List Char) : Attempt (Assertion × List Char) :=
  match input with
  | '\x7b' :: rest =>
      let inside := flags.skip rest
      let isNameChar := fun c : Char => c.isAlpha || c == '-'
      match inside with
      | [] => .error .badEscape
      | c :: _ =>
          if !isNameChar c then .ok (.wordBoundary, input)
          else match inside.span isNameChar with
            | (name, '\x7d' :: rest) =>
                match String.ofList name with
                | "start" => .ok (.wordStart, rest)
                | "end" => .ok (.wordEnd, rest)
                | "start-half" => .ok (.wordStartHalf, rest)
                | "end-half" => .ok (.wordEndHalf, rest)
                | _ => .error .badEscape
            | _ => .error .badEscape
  | _ => .ok (.wordBoundary, input)

/-- Reads what stands behind a backslash. -/
def readEscape (flags : Flags) : List Char → Attempt (Primitive × List Char)
  | [] => .error .badEscape
  | c :: rest =>
      if c.isDigit then .error .backReference
      else match c with
        | 'x' => do let (c, rest) ← readHex flags 2 rest; return (.char c, rest)
        | 'u' => do let (c, rest) ← readHex flags 4 rest; return (.char c, rest)
        | 'U' => do let (c, rest) ← readHex flags 8 rest; return (.char c, rest)
        | 'p' => do let (set, rest) ← readProperty flags false rest; return (.set set, rest)
        | 'P' => do let (set, rest) ← readProperty flags true rest; return (.set set, rest)
        | 'd' | 's' | 'w' | 'D' | 'S' | 'W' => do return (.set (← letterClass flags c), rest)
        | 'a' => .ok (.char '\x07', rest)
        | 'f' => .ok (.char '\x0c', rest)
        | 't' => .ok (.char '\t', rest)
        | 'n' => .ok (.char '\n', rest)
        | 'r' => .ok (.char '\r', rest)
        | 'v' => .ok (.char '\x0b', rest)
        | 'A' => .ok (.assertion .textStart, rest)
        | 'z' => .ok (.assertion .textEnd, rest)
        | 'b' => do let (place, rest) ← readBoundary flags rest; return (.assertion place, rest)
        | 'B' => if flags.unicode then .ok (.assertion .notWordBoundary, rest)
            else .error .notUnicode
        | '<' => .ok (.assertion .wordStart, rest)
        | '>' => .ok (.assertion .wordEnd, rest)
        | _ => if isEscapable c then .ok (.char c, rest) else .error .badEscape

/-! Classes -/

/-- `[:name:]` or `[:^name:]`, read behind its first bracket. -/
def readAsciiClass? (input : List Char) : Option (CharSet × List Char) :=
  match input with
  | ':' :: rest =>
      let (negated, rest) := match rest with
        | '^' :: rest => (true, rest)
        | _ => (false, rest)
      match rest.span (· ≠ ':') with
      | (name, ':' :: ']' :: rest) =>
          (CharSet.asciiClass? (String.ofList name)).map fun set =>
            (if negated then .complement set else set, rest)
      | _ => none
  | _ => none

def readClassItem (flags : Flags) : List Char → Attempt (Primitive × List Char)
  | [] => .error .classUnclosed
  | '\\' :: rest => readEscape flags rest
  | c :: rest => .ok (.char c, rest)

/-- A single item or a range of two literals. -/
def readClassRange (flags : Flags) (input : List Char) : Attempt (CharSet × List Char) := do
  let (first, rest) ← readClassItem flags input
  let alone : Attempt CharSet := match first with
    | .char c => .ok (flags.literal c)
    | .set set => .ok set
    | .assertion _ => .error .badClassItem
  match flags.skip rest with
  | [] => throw .classUnclosed
  | '-' :: behind =>
      match flags.skip behind with
      | [] => throw .classUnclosed
      | ']' :: _ | '-' :: _ => return (← alone, '-' :: behind)
      | behind => do
          let (last, rest) ← readClassItem flags behind
          match first, last with
          | .char a, .char b =>
              if a ≤ b then return (flags.fold (.range a.toNat b.toNat), rest)
              else throw .badClassRange
          | _, _ => throw .badClassRange
  | rest => return (← alone, rest)

/-- A set operation that still waits for its right side. -/
abbrev PendingSet := Option ((CharSet → CharSet → CharSet) × CharSet)

def PendingSet.close (pending : PendingSet) (items : CharSet) : CharSet :=
  match pending with
  | none => items
  | some (operation, left) => operation left items

/-- Leading hyphens of a class are literals. -/
def readHyphens (flags : Flags) : Nat → CharSet → List Char → CharSet × List Char
  | steps + 1, items, '-' :: rest =>
      readHyphens flags steps (.union items (.single '-')) (flags.skip rest)
  | _, items, rest => (items, rest)

/-- What follows the opening bracket: whether the class is negated, and its first literals. -/
def readClassHead (flags : Flags) (input : List Char) : Attempt ((Bool × CharSet) × List Char) := do
  let (negated, rest) := match flags.skip input with
    | '^' :: rest => (true, flags.skip rest)
    | rest => (false, rest)
  match rest with
  | [] => throw .classUnclosed
  | ']' :: rest =>
      let rest := flags.skip rest
      if rest.isEmpty then throw .classUnclosed
      return ((negated, .single ']'), rest)
  | _ =>
      let (items, rest) := readHyphens flags rest.length .nothing rest
      if rest.isEmpty then throw .classUnclosed
      return ((negated, items), rest)

mutual

/-- Reads a class behind its opening bracket, up to and with the closing one. -/
def readClass (flags : Flags) : Nat → List Char → Attempt (CharSet × List Char)
  | 0, _ => .error .classUnclosed
  | steps + 1, input => do
      let ((negated, items), rest) ← readClassHead flags input
      if negated && !flags.unicode then throw .notUnicode
      let (set, rest) ← readClassItems flags steps none items rest
      return (if negated then .complement set else set, rest)

def readClassItems (flags : Flags) :
    Nat → PendingSet → CharSet → List Char → Attempt (CharSet × List Char)
  | 0, _, _, _ => .error .classUnclosed
  | steps + 1, pending, items, input =>
      match flags.skip input with
      | [] => .error .classUnclosed
      | ']' :: rest => .ok (pending.close items, rest)
      | '[' :: rest =>
          match readAsciiClass? rest with
          | some (set, rest) =>
              readClassItems flags steps pending (.union items (flags.fold set)) rest
          | none => do
              let (set, rest) ← readClass flags steps rest
              readClassItems flags steps pending (.union items set) rest
      | '&' :: '&' :: rest =>
          readClassItems flags steps (some (.intersection, pending.close items)) .nothing rest
      | '-' :: '-' :: rest =>
          readClassItems flags steps (some (.difference, pending.close items)) .nothing rest
      | '~' :: '~' :: rest =>
          readClassItems flags steps (some (.symmetricDifference, pending.close items)) .nothing
            rest
      | rest => do
          let (set, rest) ← readClassRange flags rest
          readClassItems flags steps pending (.union items set) rest

end

/-! Repetitions -/

/-- A decimal number with blanks around it. -/
def readCount (flags : Flags) (input : List Char) : Option (Option Nat × List Char) :=
  let input := input.dropWhile Unicode.isBlank
  let rec digits : Nat → Option Nat → List Char → Option Nat × List Char
    | 0, value, rest => (value, rest)
    | _, value, [] => (value, [])
    | steps + 1, value, c :: rest =>
        if c.isDigit then
          digits steps (some (10 * value.getD 0 + (c.toNat - '0'.toNat))) (flags.skip rest)
        else (value, c :: rest)
  let (value, rest) := digits (input.length + 1) none input
  if value.any (UInt32.size ≤ ·) then none
  else some (value, flags.skip (rest.dropWhile Unicode.isBlank))

/-- Reads the counts behind an opening brace, up to and with the closing one. -/
def readCounts (flags : Flags) (input : List Char) : Attempt ((Nat × Option Nat) × List Char) := do
  let some (first, rest) := readCount flags (flags.skip input) | throw .badCount
  match rest with
  | ',' :: rest =>
      let some first := first | throw .badCount
      match flags.skip rest with
      | '\x7d' :: rest => return ((first, none), rest)
      | rest =>
          match readCount flags rest with
          | some (some last, '\x7d' :: rest) =>
              if last < first then throw .badCount else return ((first, some last), rest)
          | _ => throw .badCount
  | '\x7d' :: rest =>
      match first with
      | some count => return ((count, some count), rest)
      | none => throw .badCount
  | _ => throw .badCount

/-! Groups -/

inductive GroupHead where
  /-- Flags for the rest of the enclosing group. -/
  | flags (flags : Flags)
  | group (flags : Flags) (name : Option String)

/-- Reads flags up to a colon or a closing parenthesis. A hyphen clears the flags behind it, stands
once and not last. -/
def readFlags : Bool → Bool → List Char → Flags → List Char → Attempt (Flags × List Char)
  | _, _, _, _, [] => .error .badFlags
  | negated, dangling, seen, flags, c :: rest =>
      if c = ':' ∨ c = ')' then
        if dangling then .error .badFlags else .ok (flags, c :: rest)
      else if seen.contains c then .error .badFlags
      else if c = '-' then readFlags true true (c :: seen) flags rest
      else match flags.set (!negated) c with
        | some flags => readFlags negated false (c :: seen) flags rest
        | none => .error .badFlags

def isNameChar (first : Bool) (c : Char) : Bool :=
  c == '_' ||
    if first then Unicode.isAlphabetic c
    else c == '.' || c == '[' || c == ']' || Unicode.isAlphanumeric c

def readGroupName (input : List Char) : Attempt (String × List Char) :=
  match input.span (· ≠ '>') with
  | (first :: name, '>' :: rest) =>
      if isNameChar true first && name.all (isNameChar false) then
        .ok (String.ofList (first :: name), rest)
      else .error .badGroupName
  | _ => .error .badGroupName

/-- Reads what follows an opening parenthesis, up to the body of the group. -/
def readGroupHead (flags : Flags) (input : List Char) : Attempt (GroupHead × List Char) :=
  match flags.skip input with
  | '?' :: '=' :: _ | '?' :: '!' :: _ | '?' :: '<' :: '=' :: _ | '?' :: '<' :: '!' :: _ =>
      .error .lookAround
  | '?' :: 'P' :: '<' :: rest | '?' :: '<' :: rest => do
      let (name, rest) ← readGroupName rest
      return (.group flags (some name), rest)
  | '?' :: rest => do
      match ← readFlags false false [] flags rest with
      | (inner, ':' :: behind) => return (.group inner none, behind)
      | (inner, _ :: behind) =>
          if rest.head? = some ')' then throw .nothingToRepeat
          return (.flags inner, behind)
      | (_, []) => throw .badFlags
  | rest => .ok (.group flags none, rest)

/-- Items of a sequence, the last one first; a setting of flags is no item to repeat. -/
abbrev Items := List (Option Pattern)

def Items.close (items : Items) : Pattern := ofSequence (items.reverse.filterMap id)

def repeatLast (items : Items) (min : Nat) (max : Option Nat) (eager : Bool) :
    Attempt Items :=
  match items with
  | some p :: before => .ok (some (.repetition p min max eager) :: before)
  | _ => .error .nothingToRepeat

/-- A question mark behind a repetition turns its preference round. -/
def readEagerness (flags : Flags) : List Char → Bool × List Char
  | '?' :: rest => (flags.swapGreed, rest)
  | rest => (!flags.swapGreed, rest)

structure Progress where
  pattern : Pattern
  /-- Names of the groups read so far. -/
  names : List String

/-- Reads the branches of a group up to its closing parenthesis or the end of the text. -/
def readBranches :
    Nat → Flags → List String → List Pattern → Items → List Char → Attempt (Progress × List Char)
  | 0, _, _, _, _, _ => .error .groupUnclosed
  | steps + 1, flags, names, branches, items, input => do
      let proceed := readBranches steps flags names branches
      let close : Progress := ⟨ofBranches (items.close :: branches).reverse, names⟩
      match flags.skip input with
      | [] => return (close, [])
      | ')' :: rest => return (close, ')' :: rest)
      | '|' :: rest => readBranches steps flags names (items.close :: branches) [] rest
      | '(' :: rest =>
          match ← readGroupHead flags rest with
          | (.flags flags, rest) => readBranches steps flags names branches (none :: items) rest
          | (.group inner name, rest) => do
              if name.any names.contains then throw .badGroupName
              let (body, rest) ← readBranches steps inner (name.toList ++ names) [] [] rest
              match rest with
              | ')' :: rest =>
                  readBranches steps flags body.names branches (some body.pattern :: items) rest
              | _ => throw .groupUnclosed
      | '[' :: rest => do
          let (set, rest) ← readClass flags (rest.length + 2) rest
          proceed (some (.char set) :: items) rest
      | '?' :: rest => do
          let (eager, rest) := readEagerness flags rest
          proceed (← repeatLast items 0 (some 1) eager) rest
      | '*' :: rest => do
          let (eager, rest) := readEagerness flags rest
          proceed (← repeatLast items 0 none eager) rest
      | '+' :: rest => do
          let (eager, rest) := readEagerness flags rest
          proceed (← repeatLast items 1 none eager) rest
      | '\x7b' :: rest => do
          let ((min, max), rest) ← readCounts flags rest
          let (eager, rest) := readEagerness flags (flags.skip rest)
          proceed (← repeatLast items min max eager) rest
      | '.' :: rest =>
          if flags.unicode then proceed (some (.char flags.dot) :: items) rest
          else throw .notUnicode
      | '^' :: rest => proceed (some (.assertion flags.lineStart flags.word) :: items) rest
      | '$' :: rest => proceed (some (.assertion flags.lineEnd flags.word) :: items) rest
      | '\\' :: rest => do
          match ← readEscape flags rest with
          | (.char c, rest) => proceed (some (.char (flags.literal c)) :: items) rest
          | (.set set, rest) => proceed (some (.char set) :: items) rest
          | (.assertion place, rest) => proceed (some (.assertion place flags.word) :: items) rest
      | c :: rest => proceed (some (.char (flags.literal c)) :: items) rest

/-- The pattern that a text writes. -/
def read (text : String) : Attempt Pattern := do
  let input := text.toList
  match ← readBranches (input.length + 1) {} [] [] [] input with
  | (progress, []) => return progress.pattern
  | (_, _ :: _) => throw .groupUnopened

/-- The pattern, tried at the start of a text. It is read inside a group of its own, so whatever
the text writes beyond that group is read as well. -/
def readAnchored (text : String) : Attempt Pattern :=
  read ("^(?:" ++ text ++ ")")

end Pattern

end ExprLang
