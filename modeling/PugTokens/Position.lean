import PugTokens.Kind
import PugTokens.Text.Offset

namespace PugTokens

/-! # Places in a text and the tokens found there

A position counts the bytes, the lines and the characters of the line that have
been read.  `Position.after` computes it from the whole text before it;
`Position.advance` keeps it up to date one character at a time, and the two
agree (`advanceAll_start`).
-/

structure Position where
  /-- Bytes before it. -/
  offset : Nat
  /-- The number of its line; the first is 1. -/
  line : Nat
  /-- Characters before it in its line. -/
  column : Nat
  deriving DecidableEq, Repr

namespace Position

def start : Position := ⟨0, 1, 0⟩

instance : Inhabited Position := ⟨start⟩

def advance (position : Position) (c : Char) : Position :=
  if c = '\n' then ⟨position.offset + c.utf8Size, position.line + 1, 0⟩
  else ⟨position.offset + c.utf8Size, position.line, position.column + 1⟩

def advanceAll (position : Position) (text : List Char) : Position :=
  text.foldl advance position

/-- The place that has a given text before it: its bytes, one line more than it
    has line breaks, and what follows the last of them. -/
def after (before : List Char) : Position where
  offset := Text.byteSize before
  line := 1 + before.count '\n'
  column := (before.reverse.takeWhile (· ≠ '\n')).length

@[simp] theorem after_nil : after [] = start := rfl

theorem advance_after (before : List Char) (c : Char) :
    (after before).advance c = after (before ++ [c]) := by
  by_cases newline : c = '\n'
  · subst newline
    simp [advance, after, Nat.add_assoc]
  · simp [advance, after, newline, List.count_append]

theorem advanceAll_append (position : Position) (left right : List Char) :
    position.advanceAll (left ++ right) =
      (position.advanceAll left).advanceAll right := by
  simp [advanceAll]

theorem advanceAll_after (before text : List Char) :
    (after before).advanceAll text = after (before ++ text) := by
  induction text generalizing before with
  | nil => simp [advanceAll]
  | cons c text induction =>
      have step := induction (before ++ [c])
      simp only [advanceAll, List.foldl_cons, advance_after] at step ⊢
      simpa using step

/-- Counting one character at a time gives the true position. -/
theorem advanceAll_start (text : List Char) : start.advanceAll text = after text := by
  simpa using advanceAll_after [] text

end Position

structure Span where
  start : Position
  stop : Position
  deriving DecidableEq, Repr

namespace Span

def point (position : Position) : Span := ⟨position, position⟩

def length (span : Span) : Nat := span.stop.offset - span.start.offset

def isEmpty (span : Span) : Bool := span.start.offset == span.stop.offset

def text (source : List Char) (span : Span) : Except TextError (List Char) :=
  Text.slice source span.start.offset span.stop.offset

end Span

structure Token where
  kind : Kind
  span : Span
  deriving DecidableEq, Repr

end PugTokens
