import PugTokens.Reading

namespace PugTokens

/-! # The values of an attribute list

All tokens of a text that holds attribute values, such as what stands between
the brackets of a tag.  Characters at which no token begins are passed over one
at a time, and so is the character after a token without text.
-/

structure Values where
  reading : Reading
  valid : KindSet
  deriving DecidableEq, Repr

namespace Values

def ofText (source : List Char) (valid : KindSet) : Values :=
  ⟨.ofText source, valid⟩

/-- Look for a token from here on, given what is still to be read. -/
def search (valid : KindSet) (reading : Reading) :
    List Char → Option Token × Reading
  | [] => (none, reading)
  | c :: rest =>
      match reading.tokenAt valid (c :: rest) with
      | (some token, after) => (some token, after)
      | (none, _) => search valid (reading.pass [c]) rest

/-- The next token; after one without text, one character is passed over. -/
def next (values : Values) : Except TextError (Option Token × Values) := do
  match search values.valid values.reading (← values.reading.unread) with
  | (none, reading) => return (none, { values with reading })
  | (some token, reading) =>
      if token.span.isEmpty then
        let (_, passed) ← reading.bump
        return (some token, { values with reading := passed })
      else
        return (some token, { values with reading })

/-- More tokens than a text has: at most one for each character. -/
def limit (source : List Char) : Nat := source.length + 1

/-- All tokens of a text, each with the values after it, and what is left at
    the end. -/
def all (source : List Char) (valid : KindSet) :
    Except TextError (List (Token × Values) × Values) :=
  Reading.drain next (limit source) (ofText source valid)

end Values

end PugTokens
