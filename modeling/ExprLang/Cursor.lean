import ExprLang.Comment

/-!
A cursor in a text, with the comments it has passed over. Skipping a gap moves the cursor to
`gapEnd` and records each comment of the gap; looking ahead moves and records nothing.
-/

namespace ExprLang

structure Cursor where
  text : Text
  markers : CommentMarkers
  position : Nat := 0
  /-- Every comment skipped so far, in text order. -/
  comments : List Comment := []

namespace Cursor

def atEnd (cursor : Cursor) : Bool := cursor.text.size ≤ cursor.position

def char? (cursor : Cursor) (position : Nat) : Option Char := cursor.text[position]?

def current? (cursor : Cursor) : Option Char := cursor.char? cursor.position

def peek? (cursor : Cursor) (offset : Nat) : Option Char := cursor.char? (cursor.position + offset)

/-- A cursor never stands behind the end of its text. -/
def moveTo (cursor : Cursor) (position : Nat) : Cursor :=
  { cursor with position := min position cursor.text.size }

def skip (cursor : Cursor) (count : Nat) : Cursor := cursor.moveTo (cursor.position + count)

def remaining (cursor : Cursor) : Nat := cursor.text.size - cursor.position

def slice (cursor : Cursor) (start stop : Nat) : String := cursor.text.slice start stop

def isWritten (cursor : Cursor) (position : Nat) (symbol : String) (caseSensitive : Bool) : Bool :=
  cursor.text.isWritten caseSensitive position symbol

def gapEnd (cursor : Cursor) (position : Nat) : Nat := cursor.markers.gapEnd cursor.text position

def skipGapWithin : Nat → Cursor → Option Nat → Cursor × Option Nat
  | 0, cursor, unclosed => (cursor, unclosed)
  | pieces + 1, cursor, unclosed =>
      match cursor.markers.commentAt? cursor.text cursor.position with
      | some comment =>
          skipGapWithin pieces
            { cursor with
              position := comment.stop
              comments := comment.record cursor.comments }
            (if comment.closed then unclosed else some comment.start)
      | none =>
          if cursor.text.isBlankAt cursor.position then
            skipGapWithin pieces { cursor with position := cursor.position + 1 } unclosed
          else (cursor, unclosed)

/-- Also gives the start of a comment that was skipped and has no end. -/
def skipGap (cursor : Cursor) : Cursor × Option Nat :=
  skipGapWithin cursor.remaining cursor none

end Cursor

end ExprLang
