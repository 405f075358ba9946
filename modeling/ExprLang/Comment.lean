import ExprLang.Text

/-!
Comments and the gaps between the tokens of a text. A gap is a run of blanks and whole comments;
`gapEnd` looks where it ends. A marker without characters marks nothing, so every comment is longer
than nothing and a gap of a text of `n` characters has at most `n` pieces.
-/

namespace ExprLang

/-- A line comment runs up to the line feed, the other kind up to and with its end marker. -/
structure CommentMarkers where
  line : Option String := none
  multiline : Option (String × String) := none
  deriving DecidableEq, Repr

inductive CommentKind where
  | line
  | multiline
  deriving DecidableEq, Repr

structure Comment where
  start : Nat
  length : Nat
  kind : CommentKind
  /-- False for a comment that runs to the end of the text for want of its end marker. -/
  closed : Bool
  deriving DecidableEq, Repr

namespace Comment

def stop (comment : Comment) : Nat := comment.start + comment.length

/-- Comments are kept in text order, one for each start. -/
def record (comment : Comment) : List Comment → List Comment
  | [] => [comment]
  | other :: rest =>
      if comment.start < other.start then comment :: other :: rest
      else if comment.start = other.start then other :: rest
      else other :: record comment rest

end Comment

namespace CommentMarkers

def lineAt? (markers : CommentMarkers) (text : Text) (position : Nat) : Option Comment :=
  match markers.line with
  | none => none
  | some marker =>
      if text.isWritten true position marker then
        let inside := position + marker.length
        let stop := Text.seek (fun i => text[i]? == some '\n') (text.size - inside) inside
        some ⟨position, stop - position, .line, true⟩
      else none

/-- The end marker is looked for behind the start marker, so the two never overlap. -/
def multilineAt? (markers : CommentMarkers) (text : Text) (position : Nat) : Option Comment :=
  match markers.multiline with
  | none => none
  | some (opening, closing) =>
      if text.isWritten true position opening then
        let inside := position + opening.length
        let found := Text.seek (fun i => text.isWritten true i closing) (text.size - inside) inside
        if found < text.size then
          some ⟨position, found + closing.length - position, .multiline, true⟩
        else some ⟨position, text.size - position, .multiline, false⟩
      else none

/-- The comment that starts at `position`; a line marker wins over the other. -/
def commentAt? (markers : CommentMarkers) (text : Text) (position : Nat) : Option Comment :=
  (markers.lineAt? text position).or (markers.multilineAt? text position)

def gapEndWithin (markers : CommentMarkers) (text : Text) : Nat → Nat → Nat
  | 0, position => position
  | pieces + 1, position =>
      match markers.commentAt? text position with
      | some comment => gapEndWithin markers text pieces comment.stop
      | none =>
          if text.isBlankAt position then gapEndWithin markers text pieces (position + 1)
          else position

/-- The end of the blanks and comments that start at `position`. -/
def gapEnd (markers : CommentMarkers) (text : Text) (position : Nat) : Nat :=
  markers.gapEndWithin text (text.size - position) position

end CommentMarkers

end ExprLang
