import ExprLang.Language.Config

/-!
The language that is used when no other one is given. Its binary operators have the priorities of C;
its unary operators apply before any binary one, member access included.
-/

namespace ExprLang.Config

def cLikeOperators : List OperatorEntry :=
  let binary := fun (name : String) (priority : Int32) =>
    OperatorEntry.ofName name .binary priority
  let before := fun name => OperatorEntry.ofName name .prefixOp 2
  let behind := fun name => OperatorEntry.ofName name .postfixOp 1
  [binary "." 0, behind "++", behind "--", before "!", before "~", before "-", before "++",
   before "--", binary "*" 3, binary "/" 3, binary "%" 3, binary "+" 4, binary "-" 4,
   binary "<<" 5, binary ">>" 5, binary "<" 6, binary "<=" 6, binary ">" 6, binary ">=" 6,
   binary "==" 7, binary "!=" 7, binary "&" 8, binary "^" 9, binary "|" 10, binary "&&" 11,
   binary "||" 12, binary "=" 14, binary "+=" 14, binary "-=" 14]

def cLike : Config where
  keywords := [⟨1, "const"⟩, ⟨2, "static"⟩, ⟨3, "return"⟩, ⟨4, "if"⟩, ⟨5, "else"⟩, ⟨6, "while"⟩]
  operators := cLikeOperators
  textEscape := .backslash

end ExprLang.Config
