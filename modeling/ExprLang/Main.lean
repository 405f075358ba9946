import ExprLang.CommandLine

/-!
The program: reads the language file and, if the command has no text of its own, the standard input.
-/

namespace ExprLang

def usage : String :=
  "Usage: clove-expr [-v] parse [TEXT] [-l FILE] [-f outline|json] [-p]\n" ++
  "       clove-expr [-v] check [TEXT] [-l FILE]\n" ++
  "       clove-expr -V"

def fileError : IO.Error → FileError
  | .noFileOrDirectory .. => .missing
  | .inappropriateType .. => .isDirectory
  | error => .other (toString error)

def languagePath? : Command → Option String
  | .version => none
  | .parse _ language _ _ | .check _ language => language

def readLanguage (path : Option String) : IO (Except FileError String) := do
  match path with
  | none => return .error .missing
  | some path =>
      try
        return .ok (← IO.FS.readFile path)
      catch error => return .error (fileError error)

end ExprLang

open ExprLang

def main (arguments : List String) : IO UInt32 := do
  match Command.ofArguments arguments with
  | none =>
      IO.eprintln usage
      return 2
  | some command =>
      let file ← readLanguage (languagePath? command)
      let input ← match command.text? with
        | some text => pure text
        | none => do (← IO.getStdin).readToEnd
      let outcome := command.run (fun _ => file) input
      IO.print outcome.stdout
      IO.eprint outcome.stderr
      return UInt32.ofNat outcome.code
