import Mathlib.Data.List.DropRight
import PugTokens.Cursor

namespace PugTokens.Cursor

/-! # What can be asked of a cursor

Whoever drives a cursor calls its operations in any order.  The calls are written down with
the positions before and behind each, which is all that can be seen of a cursor, and what a
token covers is said from that record alone: where the calls for it begin, what the last mark
among them is, and what was skipped before its first character.
-/

inductive Call
  | begin
  | take
  | skip
  | mark
  | bump
  | finish
  /-- Go to a position that was seen before. -/
  | goTo (position : Position)
  deriving DecidableEq, Repr

def call (cursor : Cursor) : Call → Except TextError Cursor
  | .begin => .ok cursor.begin
  | .take => cursor.takeNext
  | .skip => cursor.skipNext
  | .mark => .ok cursor.mark
  | .bump => return (← cursor.bump).2
  | .finish => .ok cursor.finish.2
  | .goTo position => .ok (cursor.goTo position)

/-- A call with the positions of the cursor before and behind it. -/
structure Step where
  call : Call
  before : Position
  after : Position
  deriving DecidableEq, Repr

namespace Step

/-- Whether the calls for a new token begin behind it. -/
def begins (step : Step) : Bool :=
  match step.call with
  | .begin | .finish | .goTo _ => true
  | .take | .skip | .mark | .bump => false

/-- Whether a character of the token has been taken. -/
def takes (step : Step) : Bool := step.call = .take ∧ step.before ≠ step.after

/-- Whether a character before the token has been stepped over. -/
def skips (step : Step) : Bool := step.call = .skip ∧ step.before ≠ step.after

def marks (step : Step) : Bool := step.call = .mark

end Step

/-! ## What a record says about the token being read -/

/-- Where the last of the chosen steps leads. -/
def lastAfter (steps : List Step) (chosen : Step → Bool) : Option Position :=
  (steps.filter chosen).getLast?.map Step.after

/-- The calls since the token was begun. -/
def ofToken (trace : List Step) : List Step := trace.rtakeWhile fun step => !step.begins

/-- Where the token was begun; the first one begins where the text does. -/
def begunAt (trace : List Step) : Position := (lastAfter trace Step.begins).getD .start

def lastMark (trace : List Step) : Option Position := lastAfter (ofToken trace) Step.marks

/-- The calls for the token before the first that takes a character. -/
def leading (trace : List Step) : List Step := (ofToken trace).takeWhile fun step => !step.takes

/-- Where the last skip before the first character of the token leads, or where the token was
begun if there is no such skip. -/
def opening (trace : List Step) : Position :=
  (lastAfter (leading trace) Step.skips).getD (begunAt trace)

/-- The record of a cursor over a text, from its beginning.  A cursor goes only to positions
where it, or another cursor over the text, has been. -/
inductive Traced (source : List Char) : List Step → Cursor → Prop
  | new : Traced source [] { source }
  | call {trace : List Step} {cursor after : Cursor} (call : Call) :
      Traced source trace cursor → (∀ position, call ≠ .goTo position) →
      cursor.call call = .ok after →
      Traced source (trace ++ [⟨call, cursor.position, after.position⟩]) after
  | goTo {trace trail : List Step} {cursor earlier : Cursor} :
      Traced source trace cursor → Traced source trail earlier →
      Traced source (trace ++ [⟨.goTo earlier.position, cursor.position, earlier.position⟩])
        (cursor.goTo earlier.position)

end PugTokens.Cursor
