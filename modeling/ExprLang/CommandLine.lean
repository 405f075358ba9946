import ExprLang.Output.TreeJson
import ExprLang.Language.ConfigJson
import ExprLang.Language.CLike

/-!
The commands that parse or check a text, and how their arguments are written. What a command does
depends on its arguments, the standard input and the files that it can read.
-/

namespace ExprLang

inductive OutputFormat where
  | outline
  | json
  deriving DecidableEq, Repr

namespace OutputFormat

def name : OutputFormat → String
  | outline => "outline"
  | json => "json"

/-- The format of that name, in any case of its letters, or the text of the complaint. -/
def ofName (name : String) : Except String OutputFormat :=
  match String.ofList (name.toList.map Char.toLower) with
  | "outline" => .ok outline
  | "json" => .ok json
  | other => .error s!"unknown format '{other}', expected outline or json"

end OutputFormat

/-! Commands -/

structure ParseReport where
  rendered : String
  diagnostics : List String
  deriving DecidableEq, Repr

/-- A document as the parse command prints it. -/
def Document.report (document : Document) (format : OutputFormat) (pretty : Bool) :
    ParseReport where
  rendered := match format with
    | .outline => document.outline
    | .json =>
        let json := document.toJson.sortNames
        if pretty then json.pretty else json.compact
  diagnostics := document.diagnostics.map (·.describe)

inductive FileError where
  | missing
  | isDirectory
  | notDirectory
  | other (reason : String)
  deriving DecidableEq, Repr

def FileError.message : FileError → String
  | missing => "No such file or directory (os error 2)"
  | isDirectory => "Is a directory (os error 21)"
  | notDirectory => "Not a directory (os error 20)"
  | other reason => reason

inductive CommandError where
  | languageFile (path : String) (error : FileError)
  | language (error : LanguageError)
  deriving DecidableEq, Repr

def CommandError.message : CommandError → String
  | languageFile path error => s!"cannot read language file '{path}': {error.message}"
  | language error => s!"invalid language: {error.message}"

inductive Command where
  | version
  | parse (text language : Option String) (format : OutputFormat) (pretty : Bool)
  | check (text language : Option String)
  deriving DecidableEq, Repr

namespace Command

/-- The text that the command is given; the others take the standard input. -/
def text? : Command → Option String
  | version => some ""
  | parse text .. | check text _ => text

end Command

structure Outcome where
  code : Nat
  stdout : String := ""
  stderr : String := ""
  deriving DecidableEq, Repr

def linesOf (lines : List String) : String := String.join (lines.map (· ++ "\n"))

def versionText : String := "clove-expr 0.1.0"

def loadConfig (readFile : String → Except FileError String) :
    Option String → Except CommandError Config
  | none => .ok .cLike
  | some path =>
      match readFile path with
      | .error error => .error (.languageFile path error)
      | .ok text => (Config.parse text).mapError fun error => .language (.invalidJson error)

def loadGrammar (readFile : String → Except FileError String) (path : Option String) :
    Except CommandError Grammar := do
  let config ← loadConfig readFile path
  (Grammar.build config stockLiteralChar []).mapError .language

namespace Command

/-- Codes: 0 without faults, 1 with faults in the text, 2 if the command could not run. -/
def run (command : Command) (readFile : String → Except FileError String) (input : String) :
    Outcome :=
  let text := command.text?.getD input
  match command with
  | version => { code := 0, stdout := linesOf [versionText] }
  | parse _ language format pretty =>
      match loadGrammar readFile language with
      | .error error => { code := 2, stderr := linesOf [error.message] }
      | .ok grammar =>
          let report := (grammar.parse text).report format pretty
          { code := if report.diagnostics.isEmpty then 0 else 1
            stdout := linesOf [report.rendered]
            stderr := linesOf report.diagnostics }
  | check _ language =>
      match loadGrammar readFile language with
      | .error error => { code := 2, stderr := linesOf [error.message] }
      | .ok grammar =>
          let found := (grammar.parse text).diagnostics
          if found.isEmpty then { code := 0, stdout := linesOf ["No errors"] }
          else { code := 1, stdout := linesOf (found.map (·.describe)) }

/-! Arguments -/

inductive Name where
  | parse
  | check
  deriving DecidableEq, Repr

inductive Flag where
  | language
  | format
  | pretty
  | verbose
  deriving DecidableEq, Repr

def Flag.takesValue : Flag → Bool
  | language | format => true
  | pretty | verbose => false

/-- The flags of each command; the check command prints in one way only. -/
def Flag.belongsTo (flag : Flag) (name : Name) : Bool :=
  match flag, name with
  | .format, .check | .pretty, .check => false
  | _, _ => true

def Flag.ofLetter? : Char → Option Flag
  | 'l' => some language
  | 'f' => some format
  | 'p' => some pretty
  | 'v' => some verbose
  | _ => none

def Flag.ofWord? : String → Option Flag
  | "language" => some language
  | "format" => some format
  | "pretty" => some pretty
  | "verbose" => some verbose
  | _ => none

structure Arguments where
  text : Option String := none
  /-- Each flag once, with its value. -/
  flags : List (Flag × String) := []
  /-- A flag that takes the next argument as its value. -/
  waiting : Option Flag := none
  /-- Behind two hyphens every argument is text. -/
  onlyText : Bool := false

namespace Arguments

def addFlag (name : Name) (arguments : Arguments) (flag : Flag) (value : String) :
    Option Arguments :=
  if flag.belongsTo name && !arguments.flags.any (·.1 == flag) then
    some { arguments with flags := (flag, value) :: arguments.flags }
  else none

def addText (arguments : Arguments) (text : String) : Option Arguments :=
  match arguments.text with
  | none => some { arguments with text := some text }
  | some _ => none

/-- Letters behind one hyphen: flags without value, and last at most one with a value, which is the
rest of the letters, with or without an equals sign before it, or else the next argument. -/
def addLetters (name : Name) (arguments : Arguments) : List Char → Option Arguments
  | [] => some arguments
  | letter :: rest => do
      let flag ← Flag.ofLetter? letter
      if !flag.takesValue then addLetters name (← arguments.addFlag name flag "") rest
      else match rest with
        | [] =>
            if flag.belongsTo name && !arguments.flags.any (·.1 == flag) then
              return { arguments with waiting := some flag }
            else none
        | '=' :: value => arguments.addFlag name flag (String.ofList value)
        | value => arguments.addFlag name flag (String.ofList value)

def addWord (name : Name) (arguments : Arguments) (word : List Char) : Option Arguments := do
  match word.span (· ≠ '=') with
  | (word, []) =>
      let flag ← Flag.ofWord? (String.ofList word)
      if !flag.takesValue then arguments.addFlag name flag ""
      else if flag.belongsTo name && !arguments.flags.any (·.1 == flag) then
        return { arguments with waiting := some flag }
      else none
  | (word, _ :: value) =>
      let flag ← Flag.ofWord? (String.ofList word)
      if flag.takesValue then arguments.addFlag name flag (String.ofList value) else none

def add (name : Name) (arguments : Arguments) (argument : String) : Option Arguments :=
  if arguments.onlyText then arguments.addText argument
  else match arguments.waiting, argument.toList with
    | some _, '-' :: _ :: _ => none
    | some flag, _ => { arguments with waiting := none }.addFlag name flag argument
    | none, ['-', '-'] => some { arguments with onlyText := true }
    | none, '-' :: '-' :: word => arguments.addWord name word
    | none, '-' :: letter :: letters => arguments.addLetters name (letter :: letters)
    | none, _ => arguments.addText argument

def value? (arguments : Arguments) (flag : Flag) : Option String := arguments.flags.lookup flag

/-- A command from its arguments, if the values of its flags are such as it takes. -/
def toCommand (arguments : Arguments) (name : Name) : Option Command := do
  if arguments.waiting.isSome then none
  let language := arguments.value? .language
  if language == some "" then none
  match name with
  | .check => return .check arguments.text language
  | .parse =>
      let format ← match arguments.value? .format with
        | none => some .outline
        | some name => (OutputFormat.ofName name).toOption
      return .parse arguments.text language format (arguments.value? .pretty).isSome

end Arguments

def ofCommandArguments (name : Name) (arguments : List String) : Option Command := do
  let arguments ← arguments.foldlM (Arguments.add name) {}
  arguments.toCommand name

/-- Letters before the command: only the version, and once that everything is said. -/
def readTopLetters (verbose : Bool) : List Char → Option (Bool ⊕ Command)
  | [] => some (.inl verbose)
  | 'V' :: _ => some (.inr .version)
  | 'v' :: rest => if verbose then none else readTopLetters true rest
  | _ => none

/-- The command that a list of arguments writes; there is none for a request for help. -/
def readTop : Bool → List String → Option Command
  | _, [] => none
  | verbose, argument :: rest =>
      match argument.toList with
      | ['-', '-'] => none
      | '-' :: '-' :: word =>
          match String.ofList word with
          | "version" => some .version
          | "verbose" => if verbose then none else readTop true rest
          | _ => none
      | '-' :: letter :: letters =>
          match readTopLetters verbose (letter :: letters) with
          | none => none
          | some (.inr command) => some command
          | some (.inl verbose) => readTop verbose rest
      | _ =>
          match argument with
          | "parse" => ofCommandArguments .parse rest
          | "check" => ofCommandArguments .check rest
          | _ => none

def ofArguments (arguments : List String) : Option Command := readTop false arguments

end Command

/-! Folders -/

/-- The pieces of a path between slashes. -/
def pathPieces : List Char → List Char → List String
  | piece, [] => [String.ofList piece.reverse]
  | piece, c :: rest =>
      if c = '/' then String.ofList piece.reverse :: pathPieces [] rest
      else pathPieces (c :: piece) rest

/-- Whether a piece of a path stays in its folder. -/
def staysHere (piece : String) : Bool := piece == "" || piece == "."

/-- Reads a file of a folder that holds these files and nothing else. -/
def readFrom (files : List (String × String)) (path : String) : Except FileError String :=
  let pieces := pathPieces [] path.toList
  let isFolder := !path.isEmpty && pieces.all fun piece => staysHere piece || piece == ".."
  let below := if path.startsWith "/" then pieces else pieces.dropWhile staysHere
  match below with
  | [] => if path.isEmpty then .error .missing else .error .isDirectory
  | name :: rest =>
      match files.lookup name with
      | some content => if rest.isEmpty then .ok content else .error .notDirectory
      | none => if isFolder then .error .isDirectory else .error .missing

end ExprLang
