import PugTokens.Cursor
import PugTokens.Tape

namespace PugTokens

/-! # What a scan is read through

A scan owns no text.  It reads through something that shows one character at a time and
steps on when it is told to: a cursor, a tape, or whatever a caller has.  All that it
relies on is that so many steps further on the character so many places behind is shown,
and nothing behind the last (`Lexer.Shows`).
-/

namespace Move

/-- How often a character is stepped over, or would be if there were one. -/
def steps (moves : List Move) : Nat := moves.countP (· ≠ .mark)

@[simp] theorem steps_nil : steps [] = 0 := rfl

@[simp] theorem steps_take (c : Option Char) (moves : List Move) :
    steps (.take c :: moves) = steps moves + 1 := by
  simp [steps]

@[simp] theorem steps_skip (c : Char) (moves : List Move) :
    steps (.skip c :: moves) = steps moves + 1 := by
  simp [steps]

@[simp] theorem steps_mark (moves : List Move) : steps (.mark :: moves) = steps moves := by
  simp [steps]

theorem steps_replicate (count : Nat) : steps (List.replicate count (.take none)) = count := by
  induction count with
  | zero => rfl
  | succ count induction => rw [List.replicate_succ, steps_take, induction]

end Move

structure Lexer (σ : Type) where
  /-- The character in front, if there is one. -/
  peek : σ → Option Char
  /-- The characters before it in its line. -/
  column : σ → Nat
  take : σ → σ
  skip : σ → σ
  mark : σ → σ

namespace Lexer

variable {σ : Type}

def move (lexer : Lexer σ) (state : σ) : Move → σ
  | .take _ => lexer.take state
  | .skip _ => lexer.skip state
  | .mark => lexer.mark state

def play (lexer : Lexer σ) (state : σ) (moves : List Move) : σ := moves.foldl lexer.move state

/-- The character so many steps further on. -/
def ahead (lexer : Lexer σ) (state : σ) (count : Nat) : Option Char :=
  lexer.peek (lexer.play state (List.replicate count (.take none)))

/-- The characters of a text are what is shown, one after the other, by whatever calls
    they are reached. -/
def Shows (lexer : Lexer σ) (state : σ) (text : List Char) : Prop :=
  ∀ moves, lexer.peek (lexer.play state moves) = text[Move.steps moves]?

/-- A scan through a lexer: what it answers, and the lexer behind its moves. -/
def Scans (lexer : Lexer σ) (context : Context) (valid : KindSet) (state : σ)
    (outcome : Outcome) (after : σ) : Prop :=
  ∃ text, lexer.Shows state text ∧
    outcome = scan context valid ⟨text, lexer.column state = 0⟩ ∧
    after = lexer.play state outcome.moves

theorem Shows.ahead {lexer : Lexer σ} {state : σ} {text : List Char}
    (shows : lexer.Shows state text) (count : Nat) : lexer.ahead state count = text[count]? := by
  have shown := shows (List.replicate count (.take none))
  rwa [Move.steps_replicate] at shown

theorem Shows.unique {lexer : Lexer σ} {state : σ} {text other : List Char}
    (first : lexer.Shows state text) (second : lexer.Shows state other) : text = other := by
  apply List.ext_getElem?
  intro index
  rw [← first.ahead, second.ahead]

theorem Scans.unique {lexer : Lexer σ} {context : Context} {valid : KindSet}
    {outcome other : Outcome} {state after last : σ}
    (first : lexer.Scans context valid state outcome after)
    (second : lexer.Scans context valid state other last) : outcome = other ∧ after = last := by
  obtain ⟨text, shows, rfl, rfl⟩ := first
  obtain ⟨again, showsAgain, rfl, rfl⟩ := second
  obtain rfl := shows.unique showsAgain
  exact ⟨rfl, rfl⟩

end Lexer

def Tape.lexer : Lexer Tape where
  peek tape := tape.unread.head?
  column tape := tape.column
  take tape := tape.unread.head?.elim tape tape.step
  skip tape := tape.unread.head?.elim tape tape.step
  mark tape := tape.move .mark

/-- The character in front of a cursor; where no character begins there is none. -/
def Cursor.front (cursor : Cursor) : Option Char := cursor.peek.toOption.join

def Cursor.lexer : Lexer Cursor where
  peek := Cursor.front
  column cursor := cursor.position.column
  take cursor := cursor.front.elim cursor cursor.take
  skip cursor := cursor.front.elim cursor cursor.skip
  mark := Cursor.mark

end PugTokens
