import PugTokens.Reading

namespace PugTokens

/-! # The outline of a document

All layout tokens of a text.  Whatever else stands in a line is passed over,
and the levels that are open at the end of the text are closed there.
-/

structure Outline where
  reading : Reading
  /-- The text has been read, and only its levels are still to be closed. -/
  finished : Bool := false
  deriving DecidableEq, Repr

namespace Outline

def ofText (source : List Char) : Outline := { reading := .ofText source }

/-- Close one level that is open at the end of the text. -/
def close (outline : Outline) : Option Token × Outline :=
  let (token, reading) := outline.reading.closeLevel
  (token, ⟨reading, true⟩)

/-- The next token.  Where a line begins there may be indentation to report.
    If there is none the rest of the line is passed over, and behind it is
    either a line break or the end. -/
def next (outline : Outline) : Except TextError (Option Token × Outline) := do
  if outline.finished then return outline.close
  match ← outline.reading.scan .layout with
  | (some token, reading) => return (some token, { outline with reading })
  | (none, _) =>
      let (_, passed) ← outline.reading.skipLine
      match ← passed.scan .layout with
      | (some token, reading) => return (some token, { outline with reading })
      | (none, _) => return close { outline with reading := passed }

/-- More tokens than a text has: at most one line break for each character, and
    at most one opened and one closed level for each line. -/
def limit (source : List Char) : Nat := 3 * (source.length + 1)

/-- All tokens of a text, each with the outline after it, and the last outline. -/
def all (source : List Char) :
    Except TextError (List (Token × Outline) × Outline) :=
  Reading.drain next (limit source) (ofText source)

end Outline

end PugTokens
