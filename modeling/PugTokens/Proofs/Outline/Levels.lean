import PugTokens.Proofs.Outline.ByLine

namespace PugTokens.Outline

/-! # The levels in force in each line

The levels in force in a line are those that its indentation leaves open.  The tokens of an
outline tell them line by line: they are what is open at each line break and, in the last
line, before the levels are closed at the end of the text (`levelsByLine`).  These levels and
the kinds of all tokens are what the lines give one after the other (`exists_all_byLines`).
-/

variable {outline other last final : Outline} {answers : List (Token × Outline)}
variable {reading : Reading} {before line behind : List Char} {levels : List Nat}

/-! ## What tokens tell -/

def kinds (answers : List (Token × Outline)) : List Kind := answers.map (·.1.kind)

theorem kinds_of_told {entries : List Entry} (same : answers.map told = entries.map Entry.told) :
    kinds answers = entries.map Entry.kind := by
  have kinds := congrArg (List.map (·.1.kind)) same
  rwa [List.map_map, List.map_map] at kinds

/-- The levels that are open, the bottom first. -/
def openLevels (outline : Outline) : List Nat := outline.reading.context.levels.toList

/-- The levels in force in each line, given those in front of the tokens. -/
def levelsByLine (levels : List Nat) : List (Token × Outline) → List (List Nat)
  | [] => [levels]
  | (token, after) :: later =>
      -- All tokens behind the end of the text close what the last line leaves open.
      if after.finished then [levels]
      else if token.kind = .newline then levels :: levelsByLine after.openLevels later
      else levelsByLine after.openLevels later

theorem next_finished {answer : Option Token} (answered : next outline = .ok (answer, other))
    (done : outline.finished = true) : other.finished = true := by
  obtain ⟨reading, finished⟩ := outline
  subst done
  rw [next_of_finished, Except.ok.injEq] at answered
  exact congrArg (fun answered => answered.2.finished) answered.symm

theorem yields_finished (run : Reading.Yields next outline answers last)
    (done : outline.finished = true) : last.finished = true := by
  induction run with
  | refl => exact done
  | cons answered _ induction => exact induction (next_finished answered done)

/-- Tokens within a line lead to other levels in force in it. -/
theorem levelsByLine_within (run : Reading.Yields next outline answers last)
    (unfinished : last.finished = false) (within : .newline ∉ kinds answers)
    (later : List (Token × Outline)) :
    levelsByLine outline.openLevels (answers ++ later) =
      levelsByLine last.openLevels later := by
  induction run with
  | refl => rfl
  | @cons outline after last token answers answered run induction =>
      have unfinishedAfter : after.finished = false := by
        cases done : after.finished with
        | false => rfl
        | true => exact (yields_finished run done).symm.trans unfinished
      obtain ⟨inLine, within⟩ := not_or.mp (List.mem_cons.not.mp within)
      rw [List.cons_append, levelsByLine, if_neg (by simp [unfinishedAfter]),
        if_neg (Ne.symm inLine)]
      exact induction unfinished within

theorem levelsByLine_closing (run : Reading.Yields next outline answers last)
    (closing : next outline = .ok other.close) (levels : List Nat) :
    levelsByLine levels answers = [levels] := by
  cases run with
  | refl => rfl
  | @cons _ after _ token _ answered =>
      rw [closing, Except.ok.injEq] at answered
      have done : after.finished = true := congrArg (·.2.finished) answered.symm
      rw [levelsByLine, if_pos done]

/-! ## What lines give -/

/-- The levels above the bottom in a line, given those before it, the innermost first. -/
def inside (levels : List Nat) (line : List Char) : List Nat :=
  (indentation .start line levels).2

/-- The kinds of the tokens at the beginning of a line. -/
def steps (levels : List Nat) (line : List Char) : List Kind :=
  (indentation .start line levels).1.map Entry.kind

theorem indentation_inside (place : Position) (line : List Char) (levels : List Nat) :
    (indentation place line levels).2 = inside levels line := by
  unfold inside indentation
  dsimp only
  repeat' split
  all_goals rfl

theorem indentation_steps (place : Position) (line : List Char) (levels : List Nat) :
    (indentation place line levels).1.map Entry.kind = steps levels line := by
  unfold steps indentation
  dsimp only
  repeat' split
  all_goals simp

theorem newline_notMem_steps (levels : List Nat) (line : List Char) :
    .newline ∉ steps levels line := by
  unfold steps indentation
  dsimp only
  repeat' split
  all_goals simp

/-- The levels in force in each line, the bottom first, given those above the bottom
before the first line. -/
def levelsFrom (levels : List Nat) : List (List Char) → List (List Nat)
  | [] => []
  | line :: later => (0 :: (inside levels line).reverse) :: levelsFrom (inside levels line) later

/-- The kinds of the tokens from the end of a line on, given the levels above the bottom
in it and the lines behind it. -/
def kindsBehind (levels : List Nat) : List (List Char) → List Kind
  | [] => List.replicate levels.length .dedent
  | line :: later => .newline :: (steps levels line ++ kindsBehind (inside levels line) later)

theorem kinds_unwound (place : Position) (levels : List Nat) :
    ((unwound levels).map fun left => (⟨.dedent, place, 0 :: left.reverse⟩ : Entry)).map
      Entry.kind = List.replicate levels.length .dedent := by
  rw [List.map_map, ← length_unwound levels]
  exact List.map_const

theorem kinds_entriesFrom (before : List Char) (levels : List Nat) (line : List Char)
    (later : List (List Char)) :
    (entriesFrom before levels (line :: later)).map Entry.kind =
      steps levels line ++ kindsBehind (inside levels line) later := by
  induction later generalizing before levels line with
  | nil =>
      simp only [entriesFrom, List.map_append, indentation_steps, indentation_inside,
        kinds_unwound, kindsBehind]
  | cons following later induction =>
      simp only [entriesFrom, List.map_append, List.map_cons, indentation_steps,
        indentation_inside, induction, kindsBehind]

/-- The tokens at the beginning of a line lead to the levels that the line gives. -/
theorem levelsByLine_opening (stands : reading.Between before (line ++ behind))
    (lineStart : reading.position.column = 0) (inner : '\n' ∉ line) (ends : EndsLine behind)
    (run : Reading.Yields next ⟨reading.withLevels levels, false⟩ answers last)
    (finished : next last = .ok (none, final)) :
    ∃ rest, Reading.Yields next ⟨reading.withLevels (inside levels line), false⟩ rest last ∧
      levelsByLine (0 :: levels.reverse) answers =
        levelsByLine (0 :: (inside levels line).reverse) rest := by
  obtain ⟨opening, opened, same⟩ := yields_indentation stands lineStart inner ends levels
  have within : .newline ∉ kinds opening := by
    rw [kinds_of_told same, indentation_steps]
    exact newline_notMem_steps levels line
  obtain ⟨rest, rfl, continued⟩ := opened.continues run finished
  have shown := levelsByLine_within opened rfl within rest
  rw [indentation_inside] at continued shown
  exact ⟨rest, continued, shown⟩

/-- From the beginning of a line on the levels are in force that the lines give. -/
theorem levelsByLine_yields (lines : List (List Char)) (filled : lines ≠ [])
    (inner : ∀ line ∈ lines, '\n' ∉ line) {reading : Reading} {before : List Char}
    (stands : reading.Between before (joinLines lines))
    (lineStart : reading.position.column = 0) {levels : List Nat}
    (run : Reading.Yields next ⟨reading.withLevels levels, false⟩ answers last)
    (finished : next last = .ok (none, final)) :
    levelsByLine (0 :: levels.reverse) answers = levelsFrom levels lines := by
  induction lines generalizing reading before levels answers with
  | nil => exact absurd rfl filled
  | cons line later induction =>
      have inLine : '\n' ∉ line := inner line List.mem_cons_self
      cases later with
      | nil =>
          rw [joinLines] at stands
          have closing := next_lastLine stands lineStart inLine levels
          rw [← List.append_nil line] at stands
          obtain ⟨rest, continued, shown⟩ := levelsByLine_opening stands lineStart inLine
            (by simp [EndsLine]) run finished
          rw [indentation_inside] at closing
          rw [shown, levelsByLine_closing continued closing]
          rfl
      | cons following later =>
          rw [joinLines] at stands
          obtain ⟨rest, continued, shown⟩ := levelsByLine_opening stands lineStart inLine
            (by simp [EndsLine]) run finished
          have broken := next_newline stands lineStart inLine levels
          rw [indentation_inside] at broken
          obtain ⟨rest, rfl, remaining⟩ :=
            (Reading.Yields.single broken).continues continued finished
          obtain ⟨behind, atStart⟩ := stands.passLine
          rw [shown, levelsFrom, ← induction (by simp) (List.forall_mem_cons.mp inner).2
            behind atStart remaining]
          rfl

/-- The kinds of tokens and the levels that they tell are those that lines give. -/
structure ByLines (lines : List (List Char)) (tokens : List (Token × Outline)) : Prop where
  /-- As if a line break stood in front of the first line. -/
  kinds : .newline :: kinds tokens = kindsBehind [] lines
  levels : levelsByLine [0] tokens = levelsFrom [] lines

theorem exists_all_byLines (source : List Char) :
    ∃ tokens last, all source = .ok (tokens, last) ∧ ByLines (lines source) tokens := by
  obtain ⟨tokens, last, final, run, finished, same, enough, _⟩ := exists_run source
  have levels := levelsByLine_yields (lines source) (lines_ne_nil source)
    (fun _ member => newline_notMem_lines member) (between_lines source) rfl run finished
  refine ⟨tokens, final, run.drain finished enough, ⟨?_, levels⟩⟩
  obtain ⟨line, later, cut⟩ := List.exists_cons_of_ne_nil (lines_ne_nil source)
  rw [kinds_of_told same, entries, cut, kinds_entriesFrom, kindsBehind]

end PugTokens.Outline
