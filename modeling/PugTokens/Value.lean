import PugTokens.Move

namespace PugTokens.Value

/-! # Attribute values

One value of an attribute list: a plain quoted string or a script expression.
The scan reads a character at a time with one character of lookahead.  Brackets
and quotes nest, a backslash in a quoted run carries the next character with
it, and blanks end a value only at the root and only if no operator stands
beside them.

A value is first of all what its beginning makes it: a quote, or a backslash
read within one, makes a literal, a word makes a script.  A bracket, an
operator or a template quote turns it into a script for good.
-/

/-- What the characters read so far amount to. -/
inductive Shape
  | literal
  | script
  deriving DecidableEq, Repr

/-- The kind of token for a shape: literals count as strings where strings are
    asked for. -/
def Shape.kind (valid : KindSet) : Shape → Kind
  | literal => if .string ∈ valid then .string else .script
  | script => .script

/-- How the next character is to be taken. -/
inductive Phase
  /-- By its class. -/
  | ready
  /-- As the second half of an escape, whatever it is. -/
  | escape
  /-- As a further blank of a run. -/
  | blanks
  deriving DecidableEq, Repr

/-- A scan between two characters. -/
structure Progress where
  context : Context
  found : Option Shape := none
  phase : Phase := .ready
  deriving DecidableEq, Repr

namespace Progress

/-- The value begins as a literal, unless it has begun already. -/
def asLiteral (progress : Progress) : Progress :=
  { progress with found := progress.found.or (some .literal) }

/-- The value begins as a script, unless it has begun already. -/
def asWord (progress : Progress) : Progress :=
  { progress with found := progress.found.or (some .script) }

/-- The value is a script, however it began. -/
def asScript (progress : Progress) : Progress :=
  { progress with found := some .script }

def within (progress : Progress) (change : Context → Context) : Progress :=
  { progress with context := change progress.context }

def enterPhase (progress : Progress) (phase : Phase) : Progress :=
  { progress with phase }

end Progress

inductive Step
  /-- The value ends before the character. -/
  | stop (progress : Progress)
  /-- The character belongs to the value, which goes on. -/
  | go (progress : Progress) (moves : List Move)
  /-- The character belongs to the value, which ends after it. -/
  | close (progress : Progress) (moves : List Move)
  deriving DecidableEq, Repr

def Step.taking (c : Char) (progress : Progress) : Step := .go progress [.take (some c)]

def stepQuoted (progress : Progress) (c : Char) : Step :=
  if c = '\x5c' then .taking c (progress.asLiteral.enterPhase .escape)
  else .taking c (progress.asWord.within .settle)

/-- A quote, which opens or closes a quoted run. -/
def stepQuote (progress : Progress) (c : Char) : Step :=
  let begun := if isTemplateQuote c then progress.asScript else progress.asLiteral
  .taking c (begun.within (·.toggle c))

/-- A closing bracket: one that does not pair with the innermost enclosure
    belongs to the text around the value. -/
def stepCloser (progress : Progress) (c : Char) : Step :=
  if some progress.context.enclosures.top = openerOf? c then
    .taking c (progress.asScript.within (·.settle.leave))
  else
    .stop (progress.within .settle)

/-- An operator outside all enclosures: a `:` belongs to the value only as the
    other half of a `?`. -/
def stepRootOperator (progress : Progress) (c : Char) : Step :=
  if c = ':' then
    if progress.context.awaitsColon then
      .taking c (progress.asScript.within (·.answer.await))
    else
      .stop (progress.asScript.within .settle)
  else if c = '?' then
    .taking c (progress.asScript.within (·.ask.await))
  else
    .taking c (progress.asScript.within .await)

/-- A blank.  The end of the value is marked where a run of blanks begins, and
    again where it ends unless an operator stands on either side. -/
def stepBlank (progress : Progress) (c : Char) (ahead : Option Char) : Step :=
  let moves := (if progress.phase = .blanks then [] else [.mark]) ++ [.take (some c)]
  if ahead.any isBlank then
    .go (progress.enterPhase .blanks) moves
  else if progress.context.pending || ahead.any isOperator then
    .go (progress.enterPhase .ready) moves
  else
    let settled := (progress.within .settle).enterPhase .ready
    if progress.found.isSome && progress.context.atRoot then
      .close settled (moves ++ [.mark])
    else
      .go settled (moves ++ [.mark])

/-- A character outside quoted runs, by its class. -/
def stepClass (progress : Progress) (c : Char) (ahead : Option Char) : Step :=
  match CharClass.ofChar c with
  | .word => .taking c (progress.asWord.within .settle)
  | .quote => stepQuote progress c
  | .opener => .taking c (progress.asScript.within (·.settle.enter c))
  | .closer => stepCloser progress c
  | .operator =>
      if progress.context.atRoot then stepRootOperator progress c
      else .taking c (progress.asScript.within .await)
  | .comma =>
      if progress.context.atRoot then .stop progress
      else .taking c (progress.asScript.within .await)
  | .blank => stepBlank progress c ahead
  | .other => .stop progress

/-- Read one character, with the one after it in sight. -/
def step (progress : Progress) (c : Char) (ahead : Option Char) : Step :=
  if progress.phase = .escape then .taking c (progress.enterPhase .ready)
  else if progress.context.quotes c then stepQuoted progress c
  else stepClass progress c ahead

/-- The moves at the end of the text, where an escape still asks for its second
    half. -/
def endMoves (progress : Progress) : List Move :=
  if progress.phase = .escape then [.take none, .mark] else [.mark]

/-- How far a value reaches: the progress at its end and the moves up to it. -/
structure Extent where
  last : Progress
  moves : List Move
  deriving DecidableEq, Repr

def Extent.precededBy (moves : List Move) (extent : Extent) : Extent :=
  { extent with moves := moves ++ extent.moves }

def run (progress : Progress) : List Char → Extent
  | [] => ⟨progress, endMoves progress⟩
  | c :: rest =>
      match step progress c rest.head? with
      | .stop last => ⟨last, [.mark]⟩
      | .go next moves => (run next rest).precededBy moves
      | .close last moves => ⟨last, moves⟩

end PugTokens.Value
