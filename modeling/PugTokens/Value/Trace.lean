import PugTokens.Value

namespace PugTokens.Value

/-! # How a value is read

The characters of a value, each with the progress at which it is read.  They
are the characters that the moves of the scan step over (`map_snd_trace`), and
they come first in the text (`trace_append_remainder`).
-/

/-- The characters that belong to the value, with the progress before each. -/
def trace (progress : Progress) : List Char → List (Progress × Char)
  | [] => []
  | c :: rest =>
      match step progress c rest.head? with
      | .stop _ => []
      | .go next _ => (progress, c) :: trace next rest
      | .close _ _ => [(progress, c)]

def remainder (progress : Progress) : List Char → List Char
  | [] => []
  | c :: rest =>
      match step progress c rest.head? with
      | .stop _ => c :: rest
      | .go next _ => remainder next rest
      | .close _ _ => rest

/-- The moves of a step, without where it leads. -/
def Step.moves : Step → List Move
  | .stop _ => [.mark]
  | .go _ moves => moves
  | .close _ moves => moves

/-- Whether the character of a step belongs to the value. -/
def Step.takes : Step → Bool
  | .stop _ => false
  | _ => true

@[simp] theorem Step.moves_taking (c : Char) (progress : Progress) :
    (Step.taking c progress).moves = [.take (some c)] := rfl

@[simp] theorem Step.takes_taking (c : Char) (progress : Progress) :
    (Step.taking c progress).takes = true := rfl

/-- A step steps over its own character or over nothing. -/
theorem textOf_step (progress : Progress) (c : Char) (ahead : Option Char) :
    Move.textOf (step progress c ahead).moves =
      if (step progress c ahead).takes then [c] else [] := by
  unfold step stepQuoted stepClass stepQuote stepCloser stepRootOperator stepBlank
  repeat' split
  all_goals simp_all [Move.textOf, Move.text, Step.moves, Step.takes, Step.taking]

/-- All that a step asks for is to step over its own character and to mark. -/
theorem moves_step (progress : Progress) (c : Char) (ahead : Option Char) :
    ∀ move ∈ (step progress c ahead).moves, move = .mark ∨ move = .take (some c) := by
  unfold step stepQuoted stepClass stepQuote stepCloser stepRootOperator stepBlank
  repeat' split
  all_goals simp [Step.moves, Step.taking]

theorem textOf_endMoves (progress : Progress) :
    Move.textOf (endMoves progress) = [] := by
  unfold endMoves
  split <;> rfl

@[simp] theorem Extent.moves_precededBy (moves : List Move) (extent : Extent) :
    (extent.precededBy moves).moves = moves ++ extent.moves := rfl

@[simp] theorem Extent.last_precededBy (moves : List Move) (extent : Extent) :
    (extent.precededBy moves).last = extent.last := rfl

/-- The trace holds the characters that the moves step over. -/
theorem map_snd_trace (progress : Progress) (text : List Char) :
    (trace progress text).map Prod.snd = Move.textOf (run progress text).moves := by
  induction text generalizing progress with
  | nil => simp [trace, run, textOf_endMoves]
  | cons c rest induction =>
      have covered := textOf_step progress c rest.head?
      unfold trace run
      cases taken : step progress c rest.head? with
      | stop last => simp [Move.text]
      | go next moves =>
          simp only [taken, Step.moves, Step.takes, if_true] at covered
          simp [covered, induction]
      | close last moves =>
          simp only [taken, Step.moves, Step.takes, if_true] at covered
          simp [covered]

/-- A text is its value and what follows. -/
theorem trace_append_remainder (progress : Progress) (text : List Char) :
    (trace progress text).map Prod.snd ++ remainder progress text = text := by
  induction text generalizing progress with
  | nil => rfl
  | cons c rest induction =>
      unfold trace remainder
      cases step progress c rest.head? with
      | stop last => rfl
      | go next moves => simp [induction]
      | close last moves => rfl

/-- What the moves of a value step over comes first in the text. -/
theorem exists_run_append (progress : Progress) (text : List Char) :
    ∃ later, text = Move.textOf (run progress text).moves ++ later := by
  refine ⟨remainder progress text, ?_⟩
  rw [← map_snd_trace, trace_append_remainder]

end PugTokens.Value
