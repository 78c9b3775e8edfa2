import PugTokens.Reading

namespace PugTokens.Reading

/-! # Readings that come about

What can be done with a reading, as data, so that sequences of operations can be
compared, and the readings that they lead to.
-/

inductive Operation
  | scan (valid : KindSet)
  | bump
  | skipLine
  | closeLevel
  | atEnd
  | rest
  | checkpoint
  | encode
  deriving DecidableEq, Repr

inductive Answer
  | token (token : Option Token)
  | char (c : Option Char)
  | text (text : List Char)
  | flag (value : Bool)
  | checkpoint (answer : Except Context.EncodeError Checkpoint)
  | bytes (answer : Except Context.EncodeError (List UInt8))

def perform (reading : Reading) : Operation → Except TextError (Answer × Reading)
  | .scan valid => do
      let (token, after) ← reading.scan valid
      return (.token token, after)
  | .bump => do
      let (c, after) ← reading.bump
      return (.char c, after)
  | .skipLine => do
      let (line, after) ← reading.skipLine
      return (.text line, after)
  | .closeLevel => .ok (.token reading.closeLevel.1, reading.closeLevel.2)
  | .atEnd => return (.flag (← reading.atEnd), reading)
  | .rest => return (.text (← reading.unread), reading)
  | .checkpoint => .ok (.checkpoint reading.checkpoint, reading)
  | .encode => .ok (.bytes reading.context.encode, reading)

/-- Do one thing after the other, with the answers and the readings after each. -/
def performAll (reading : Reading) :
    List Operation → Except TextError (List (Answer × Reading))
  | [] => .ok []
  | operation :: later => do
      let (answer, after) ← reading.perform operation
      return (answer, after) :: (← after.performAll later)

/-- A reading of a text that comes about from its beginning, where checkpoints
    are resumed that were taken from such readings. -/
inductive Reachable (source : List Char) : Reading → Prop
  | start : Reachable source (.ofText source)
  | perform {reading after : Reading} {answer : Answer} (operation : Operation) :
      Reachable source reading → reading.perform operation = .ok (answer, after) →
      Reachable source after
  | resume {reading earlier after : Reading} {checkpoint : Checkpoint} :
      Reachable source reading → Reachable source earlier →
      earlier.checkpoint = .ok checkpoint → reading.resume checkpoint = .ok after →
      Reachable source after

/-- The position is the true one of a place in the text. -/
def Placed (source : List Char) (position : Position) : Prop :=
  ∃ before rest, source = before ++ rest ∧ position = .after before

end PugTokens.Reading
