import PugTokens.Position
import PugTokens.Scan

namespace PugTokens

/-! # A cursor over a text

The cursor knows its place, where the token being read began, and the last mark
of its end.  It can be put anywhere, also where no character begins; there,
everything that looks at the text fails, and nothing else does.
-/

structure Cursor where
  source : List Char
  position : Position := .start
  tokenStart : Position := .start
  /-- Where the token being read was last said to end. -/
  marked : Option Position := none
  /-- Whether a character of the token has been taken. -/
  hasText : Bool := false
  deriving DecidableEq, Repr

namespace Cursor

def begin (cursor : Cursor) : Cursor :=
  { cursor with tokenStart := cursor.position, marked := none, hasText := false }

def goTo (cursor : Cursor) (position : Position) : Cursor :=
  begin { cursor with position }

def ofPlace (source : List Char) (position : Position) : Cursor :=
  goTo { source } position

/-! ## Moves -/

def take (cursor : Cursor) (c : Char) : Cursor :=
  { cursor with position := cursor.position.advance c, hasText := true }

/-- Step over a character that comes before the token; once the token has text,
    its beginning stays where it is. -/
def skip (cursor : Cursor) (c : Char) : Cursor :=
  let next := cursor.position.advance c
  { cursor with
    position := next
    tokenStart := if cursor.hasText then cursor.tokenStart else next }

def mark (cursor : Cursor) : Cursor := { cursor with marked := some cursor.position }

def move (cursor : Cursor) : Move → Cursor
  | .take none => cursor
  | .take (some c) => cursor.take c
  | .skip c => cursor.skip c
  | .mark => cursor.mark

def play (cursor : Cursor) (moves : List Move) : Cursor := moves.foldl move cursor

@[simp] theorem play_append (cursor : Cursor) (left right : List Move) :
    cursor.play (left ++ right) = (cursor.play left).play right := by
  simp [play]

@[simp] theorem source_play (cursor : Cursor) (moves : List Move) :
    (cursor.play moves).source = cursor.source := by
  induction moves generalizing cursor with
  | nil => rfl
  | cons first moves induction =>
      refine (induction (cursor.move first)).trans ?_
      cases first with
      | take c => cases c <;> rfl
      | skip c => rfl
      | mark => rfl

theorem position_move (cursor : Cursor) (move : Move) :
    (cursor.move move).position = cursor.position.advanceAll move.text := by
  cases move with
  | take c => cases c <;> rfl
  | skip c => rfl
  | mark => rfl

/-- Moves lead to the place right after the text that they step over. -/
theorem position_play (cursor : Cursor) (moves : List Move) :
    (cursor.play moves).position = cursor.position.advanceAll (Move.textOf moves) := by
  induction moves generalizing cursor with
  | nil => rfl
  | cons first moves induction =>
      have after := induction (cursor.move first)
      rw [position_move] at after
      rw [Move.textOf_cons, Position.advanceAll_append]
      exact after

/-- Where the token ends: at the last mark, or here if there is none. -/
def tokenEnd (cursor : Cursor) : Position := cursor.marked.getD cursor.position

/-- The part of the text that the token covers.  If all that came before it lies
    beyond its end, it is the point of its end. -/
def span (cursor : Cursor) : Span :=
  if cursor.tokenEnd.offset < cursor.tokenStart.offset then .point cursor.tokenEnd
  else ⟨cursor.tokenStart, cursor.tokenEnd⟩

/-- Finish the token: go to its end and begin the next one there. -/
def finish (cursor : Cursor) : Span × Cursor :=
  (cursor.span, cursor.goTo cursor.tokenEnd)

/-! ## Looking at the text -/

def unread (cursor : Cursor) : Except TextError (List Char) :=
  Text.dropBytes cursor.position.offset cursor.source

def peek (cursor : Cursor) : Except TextError (Option Char) :=
  return (← cursor.unread).head?

def atEnd (cursor : Cursor) : Except TextError Bool :=
  return (← cursor.unread).isEmpty

def takeNext (cursor : Cursor) : Except TextError Cursor := do
  match ← cursor.peek with
  | none => return cursor
  | some c => return cursor.take c

def skipNext (cursor : Cursor) : Except TextError Cursor := do
  match ← cursor.peek with
  | none => return cursor
  | some c => return cursor.skip c

/-- Step over the character at the cursor outside of any token. -/
def bump (cursor : Cursor) : Except TextError (Option Char × Cursor) := do
  match ← cursor.peek with
  | none => return (none, cursor)
  | some c => return (some c, { cursor with position := cursor.position.advance c })

def view (cursor : Cursor) : Except TextError View :=
  return ⟨← cursor.unread, cursor.position.column = 0⟩

/-- Scan for a token here, and move as the scan asks.  If no kind is asked for
    the text is not looked at. -/
def scan (cursor : Cursor) (context : Context) (valid : KindSet) :
    Except TextError (Outcome × Cursor) :=
  if valid.isEmpty then
    .ok (.nothing context, cursor)
  else do
    let outcome := PugTokens.scan context valid (← cursor.view)
    return (outcome, cursor.play outcome.moves)

end Cursor

end PugTokens
