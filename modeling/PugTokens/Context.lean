import PugTokens.CharClass
import PugTokens.Stack

namespace PugTokens

/-! # What is open at a point of a document

A context is all that is remembered from one token to the next: the levels of
indentation, the brackets and quotes that are still open, the `?` that still
wait for their `:`, and whether an operator waits for its operand.
-/

/-- Stands under the open brackets and quotes: outside all of them. -/
def outside : Char := '\x00'

structure Context where
  /-- The widths of the open indentation levels. -/
  levels : Stack (0 : Nat) := .bare
  /-- The brackets and quotes that are open, the innermost on top. -/
  enclosures : Stack outside := .bare
  /-- For each `?` without its `:`, the number of enclosures, `outside`
      included, at which it stood. -/
  ternaries : Stack (0 : Nat) := .bare
  /-- An operator has been read whose operand is still to come, so that blanks
      do not end the value. -/
  pending : Bool := false
  deriving DecidableEq, Repr

namespace Context

def initial : Context := {}

instance : Inhabited Context := ⟨initial⟩

def level (context : Context) : Nat := context.levels.top

/-- Outside every bracket and quote. -/
def atRoot (context : Context) : Bool := context.enclosures.top == outside

/-- Whether a character would be read as the text of a quoted run: the innermost
    enclosure is a quote, and the character is not itself one. -/
def quotes (context : Context) (c : Char) : Bool :=
  isQuote context.enclosures.top && !isQuote c

/-- Whether a `:` would be the other half of the innermost open `?`. -/
def awaitsColon (context : Context) : Bool :=
  context.ternaries.top == context.enclosures.size

def indent (context : Context) (width : Nat) : Context :=
  { context with levels := context.levels.push width }

def dedent (context : Context) : Context :=
  { context with levels := context.levels.pop }

def enter (context : Context) (opener : Char) : Context :=
  { context with enclosures := context.enclosures.push opener }

def leave (context : Context) : Context :=
  { context with enclosures := context.enclosures.pop }

/-- Close a quote that is the innermost enclosure, open it otherwise. -/
def toggle (context : Context) (quote : Char) : Context :=
  if context.enclosures.top = quote then context.leave else context.enter quote

/-- Remember a `?` at the present number of enclosures. -/
def ask (context : Context) : Context :=
  { context with ternaries := context.ternaries.push context.enclosures.size }

/-- Forget the innermost `?`, whose `:` has come. -/
def answer (context : Context) : Context :=
  { context with ternaries := context.ternaries.pop }

def await (context : Context) : Context := { context with pending := true }

def settle (context : Context) : Context := { context with pending := false }

end Context

end PugTokens
