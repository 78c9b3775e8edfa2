import PugTokens.Reading.Reachable

namespace PugTokens

/-! # Reading through one cursor

A reader does what can be done with a reading, but through a single cursor that
it keeps from one operation to the next.  The cursor remembers more than a
checkpoint stores: where the last token began, where its end was marked and
whether it had text.
-/

structure Reader where
  cursor : Cursor
  context : Context := .initial
  deriving DecidableEq, Repr

namespace Reader

open Reading (Operation Answer)

def ofText (source : List Char) : Reader := { cursor := { source } }

/-- The text, the place and the context, without what else the cursor knows. -/
def reading (reader : Reader) : Reading :=
  ⟨reader.cursor.source, reader.cursor.position, reader.context⟩

/-- Begin a token and scan for it; if there is none, go back to where it would
    have begun. -/
def scan (reader : Reader) (valid : KindSet) :
    Except TextError (Option Token × Reader) := do
  let (outcome, moved) ← reader.cursor.begin.scan reader.context valid
  match outcome.kind with
  | none =>
      return (none, { reader with cursor := moved.goTo reader.cursor.position })
  | some kind =>
      let (span, finished) := moved.finish
      return (some ⟨kind, span⟩, ⟨finished, outcome.context⟩)

def bump (reader : Reader) : Except TextError (Option Char × Reader) := do
  let (c, cursor) ← reader.cursor.bump
  return (c, { reader with cursor })

def skipLine (reader : Reader) : Except TextError (List Char × Reader) := do
  let line := (← reader.cursor.unread).takeWhile (· ≠ '\n')
  let position := reader.cursor.position.advanceAll line
  return (line, { reader with cursor := { reader.cursor with position } })

def closeLevel (reader : Reader) : Option Token × Reader :=
  if reader.context.levels.isBare then (none, reader)
  else
    (some ⟨.dedent, .point reader.cursor.position⟩,
      { reader with context := reader.context.dedent })

def checkpoint (reader : Reader) : Except Context.EncodeError Checkpoint :=
  return ⟨reader.cursor.position, ← reader.context.encode⟩

def resume (reader : Reader) (checkpoint : Checkpoint) :
    Except Context.DecodeError Reader := do
  let context ← Context.decode checkpoint.bytes
  return ⟨reader.cursor.goTo checkpoint.position, context⟩

def perform (reader : Reader) : Operation → Except TextError (Answer × Reader)
  | .scan valid => do
      let (token, after) ← reader.scan valid
      return (.token token, after)
  | .bump => do
      let (c, after) ← reader.bump
      return (.char c, after)
  | .skipLine => do
      let (line, after) ← reader.skipLine
      return (.text line, after)
  | .closeLevel => .ok (.token reader.closeLevel.1, reader.closeLevel.2)
  | .atEnd => return (.flag (← reader.cursor.atEnd), reader)
  | .rest => return (.text (← reader.cursor.unread), reader)
  | .checkpoint => .ok (.checkpoint reader.checkpoint, reader)
  | .encode => .ok (.bytes reader.context.encode, reader)

/-- Do one thing after the other, with the answers and what can be seen of the
    reader after each. -/
def performAll (reader : Reader) :
    List Operation → Except TextError (List (Answer × Reading))
  | [] => .ok []
  | operation :: later => do
      let (answer, after) ← reader.perform operation
      return (answer, after.reading) :: (← after.performAll later)

/-- A reader of a text that comes about from its beginning, where checkpoints
    are resumed that were taken from such readers. -/
inductive Reachable (source : List Char) : Reader → Prop
  | start : Reachable source (.ofText source)
  | perform {reader after : Reader} {answer : Answer} (operation : Operation) :
      Reachable source reader → reader.perform operation = .ok (answer, after) →
      Reachable source after
  | resume {reader earlier after : Reader} {checkpoint : Checkpoint} :
      Reachable source reader → Reachable source earlier →
      earlier.checkpoint = .ok checkpoint → reader.resume checkpoint = .ok after →
      Reachable source after

end Reader

end PugTokens
