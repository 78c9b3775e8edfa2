import PugTokens.Context
import PugTokens.Kind

namespace PugTokens

/-! # What a scan sees and does

A scan is a function of the text that follows a place, of whether the place is
the beginning of a line, and of the context there.  It answers with a kind, a
context and the moves by which a cursor over the text follows it; whoever owns
the cursor carries the moves out.
-/

structure View where
  /-- The text from the place on. -/
  unread : List Char
  lineStart : Bool
  deriving DecidableEq, Repr

/-- One request of a scan to the cursor it reads through. -/
inductive Move
  /-- Step over a character that belongs to the token; at the end of the text,
      where there is none, nothing moves. -/
  | take (c : Option Char)
  /-- Step over a character that comes before the token. -/
  | skip (c : Char)
  /-- Let the token end here, unless a later mark says otherwise. -/
  | mark
  deriving DecidableEq, Repr

namespace Move

def text : Move → List Char
  | take c => c.toList
  | skip c => [c]
  | mark => []

def textOf (moves : List Move) : List Char := moves.flatMap text

@[simp] theorem textOf_nil : textOf [] = [] := rfl

@[simp] theorem textOf_cons (move : Move) (moves : List Move) :
    textOf (move :: moves) = move.text ++ textOf moves := rfl

@[simp] theorem textOf_append (left right : List Move) :
    textOf (left ++ right) = textOf left ++ textOf right := by
  simp [textOf]

end Move

structure Outcome where
  kind : Option Kind
  context : Context
  moves : List Move
  deriving DecidableEq, Repr

namespace Outcome

/-- No token, and nothing touched. -/
def nothing (context : Context) : Outcome := ⟨none, context, []⟩

def consumed (outcome : Outcome) : List Char := Move.textOf outcome.moves

def precededBy (moves : List Move) (outcome : Outcome) : Outcome :=
  { outcome with moves := moves ++ outcome.moves }

end Outcome

end PugTokens
