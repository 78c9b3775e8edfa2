import PugTokens.Context.Bytes
import PugTokens.Cursor

namespace PugTokens

/-! # Reading a text

A reading is a text, a place in it and the context there.  Scanning either
finds a token and moves behind it or leaves the reading as it was.  A
checkpoint is the place and the stored context; resuming from one gives back
the reading that it was taken from.
-/

structure Reading where
  source : List Char
  position : Position := .start
  context : Context := .initial
  deriving DecidableEq, Repr

structure Checkpoint where
  position : Position
  bytes : List UInt8
  deriving DecidableEq, Repr

namespace Reading

def ofText (source : List Char) : Reading := { source }

def unread (reading : Reading) : Except TextError (List Char) :=
  Text.dropBytes reading.position.offset reading.source

/-- What a scan sees, given what is still to be read. -/
def view (reading : Reading) (unread : List Char) : View :=
  ⟨unread, reading.position.column = 0⟩

/-- Move over a run of characters that belong to no token. -/
def pass (reading : Reading) (text : List Char) : Reading :=
  { reading with position := reading.position.advanceAll text }

/-- Look for a token here, given what is still to be read; if there is none the
    reading stays as it is. -/
def tokenAt (reading : Reading) (valid : KindSet) (unread : List Char) :
    Option Token × Reading :=
  let outcome := PugTokens.scan reading.context valid (reading.view unread)
  match outcome.kind with
  | none => (none, reading)
  | some kind =>
      let cursor := (Cursor.ofPlace reading.source reading.position).play outcome.moves
      (some ⟨kind, cursor.span⟩,
        { reading with position := cursor.tokenEnd, context := outcome.context })

def scan (reading : Reading) (valid : KindSet) :
    Except TextError (Option Token × Reading) :=
  return reading.tokenAt valid (← reading.unread)

def bump (reading : Reading) : Except TextError (Option Char × Reading) :=
  return match ← reading.unread with
  | [] => (none, reading)
  | c :: _ => (some c, reading.pass [c])

def skipLine (reading : Reading) : Except TextError (List Char × Reading) :=
  return let line := (← reading.unread).takeWhile (· ≠ '\n')
  (line, reading.pass line)

def closeLevel (reading : Reading) : Option Token × Reading :=
  if reading.context.levels.isBare then (none, reading)
  else
    (some ⟨.dedent, .point reading.position⟩,
      { reading with context := reading.context.dedent })

def atEnd (reading : Reading) : Except TextError Bool :=
  return (← reading.unread).isEmpty

def checkpoint (reading : Reading) : Except Context.EncodeError Checkpoint :=
  return ⟨reading.position, ← reading.context.encode⟩

def resume (reading : Reading) (checkpoint : Checkpoint) :
    Except Context.DecodeError Reading :=
  return { reading with
    position := checkpoint.position
    context := ← Context.decode checkpoint.bytes }

/-- Take what `next` gives until it gives nothing, at most `limit` times.  Each
    answer comes with the state after it; the last state follows at the end. -/
def drain {σ α ε : Type} (next : σ → Except ε (Option α × σ)) :
    Nat → σ → Except ε (List (α × σ) × σ)
  | 0, state => .ok ([], state)
  | limit + 1, state => do
      match ← next state with
      | (none, after) => return ([], after)
      | (some answer, after) =>
          let (later, last) ← drain next limit after
          return ((answer, after) :: later, last)

end Reading

end PugTokens
