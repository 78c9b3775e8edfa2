import PugTokens.Scan

namespace PugTokens

/-! # A text read once

A text that is read from front to back and counted in characters.  It has the
column of its place but knows neither lines nor bytes, and the column may begin
anywhere, as in a text that is handed over in the middle of a line.
-/

structure Tape where
  /-- The text from the place on. -/
  unread : List Char
  read : Nat := 0
  column : Nat
  /-- The characters that had been read at the last mark. -/
  marked : Option Nat := none
  deriving DecidableEq, Repr

namespace Tape

def step (tape : Tape) (c : Char) : Tape :=
  { tape with
    unread := tape.unread.tail
    read := tape.read + 1
    column := if c = '\n' then 0 else tape.column + 1 }

def move (tape : Tape) : Move → Tape
  | .take none => tape
  | .take (some c) => tape.step c
  | .skip c => tape.step c
  | .mark => { tape with marked := some tape.read }

def play (tape : Tape) (moves : List Move) : Tape := moves.foldl move tape

def view (tape : Tape) : View := ⟨tape.unread, tape.column = 0⟩

/-- Scan for a token here, with no mark made before. -/
def scan (tape : Tape) (context : Context) (valid : KindSet) : Outcome × Tape :=
  let outcome := PugTokens.scan context valid tape.view
  (outcome, { tape with marked := none }.play outcome.moves)

end Tape

end PugTokens
