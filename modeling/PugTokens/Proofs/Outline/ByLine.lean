import PugTokens.Proofs.Outline.Lines

namespace PugTokens.Outline

/-! # An outline is what its lines say

The outline of a text, which is found by going over the text with a cursor, is
the list of tokens that its lines determine one after the other
(`all_eq_entries`).  The proof follows the lines: the tokens in front of a line,
then the one behind it, or at the end of the text those that close what is open.
-/

variable {reading : Reading} {before line : List Char}

/-! ## The end of a line -/

/-- Behind a line that is not the last stands its line break. -/
theorem next_newline {later : List Char}
    (stands : reading.Between before (line ++ '\n' :: later))
    (lineStart : reading.position.column = 0) (inner : '\n' ∉ line) (levels : List Nat) :
    let inside := (indentation (.after before) line levels).2
    next ⟨reading.withLevels inside, false⟩ =
      .ok (some ⟨.newline, .point (.after (before ++ line ++ ['\n']))⟩,
        ⟨(reading.pass (line ++ ['\n'])).withLevels inside, false⟩) := by
  intro inside
  have ends : EndsLine ('\n' :: later) := by simp [EndsLine]
  cases line with
  | nil =>
      have found := Reading.tokenAt_layout_newline (stands.withLevels inside)
      rw [List.append_nil before]
      exact next_of_token (stands.withLevels inside) found
  | cons c line =>
      have found := Reading.tokenAt_layout_newline (stands.withLevels inside).pass
      have settled := settled_indentation stands lineStart inner ends rfl levels
      rw [next_of_settled (stands.withLevels inside) inner ends settled, found]
      have together : ((reading.withLevels inside).pass (c :: line)).pass ['\n'] =
          (reading.pass (c :: line ++ ['\n'])).withLevels inside := by
        simp only [Reading.pass, Reading.withLevels, Position.advanceAll_append]
      rw [together]

/-- Behind the last line the levels that are open are closed. -/
theorem next_lastLine (stands : reading.Between before line)
    (lineStart : reading.position.column = 0) (inner : '\n' ∉ line) (levels : List Nat) :
    let inside := (indentation (.after before) line levels).2
    next ⟨reading.withLevels inside, false⟩ =
      .ok (close ⟨(reading.pass line).withLevels inside, false⟩) := by
  intro inside
  have ends : EndsLine [] := by simp [EndsLine]
  rw [← List.append_nil line] at stands
  have settled : (reading.withLevels inside).tokenAt .layout (line ++ []) =
      (none, reading.withLevels inside) := by
    cases line with
    | nil => exact Reading.tokenAt_layout_end _
    | cons c line => exact settled_indentation stands lineStart inner ends rfl levels
  rw [next_of_settled (stands.withLevels inside) inner ends settled,
    Reading.tokenAt_layout_end]
  rfl

theorem yields_unwound (reading : Reading) (levels : List Nat) :
    ∃ answers, Reading.Yields next ⟨reading.withLevels levels, true⟩ answers
        ⟨reading.withLevels [], true⟩ ∧
      answers.map told = (unwound levels).map fun left =>
        (⟨.dedent, .point reading.position⟩, 0 :: left.reverse) := by
  induction levels with
  | nil => exact ⟨[], .refl _, rfl⟩
  | cons level outer induction =>
      obtain ⟨answers, run, same⟩ := induction
      have first : next ⟨reading.withLevels (level :: outer), true⟩ =
          .ok (some ⟨.dedent, .point reading.position⟩, ⟨reading.withLevels outer, true⟩) := by
        rw [next_of_finished, close_cons]
      refine ⟨_, .cons first run, ?_⟩
      rw [List.map_cons, same]
      rfl

/-- The outline from the last line on. -/
theorem yields_lastLine (stands : reading.Between before line)
    (lineStart : reading.position.column = 0) (inner : '\n' ∉ line) (levels : List Nat) :
    let inside := (indentation (.after before) line levels).2
    ∃ answers last, Reading.Yields next ⟨reading.withLevels inside, false⟩ answers last ∧
      next last = .ok (none, ⟨(reading.pass line).withLevels [], true⟩) ∧
      answers.map told = (unwound inside).map fun left =>
        (⟨.dedent, .point (.after (before ++ line))⟩, 0 :: left.reverse) := by
  intro inside
  have first := next_lastLine stands lineStart inner levels
  change next ⟨reading.withLevels inside, false⟩ = _ at first
  have place : (reading.pass line).position = .after (before ++ line) := by
    rw [← List.append_nil line] at stands
    exact stands.pass.position
  cases opened : inside with
  | nil =>
      rw [show (indentation (.after before) line levels).2 = [] from opened, close_nil]
        at first
      rw [opened] at first
      exact ⟨[], _, .refl _, first, rfl⟩
  | cons level outer =>
      rw [show (indentation (.after before) line levels).2 = level :: outer from opened,
        close_cons, place] at first
      rw [opened] at first
      obtain ⟨answers, run, same⟩ := yields_unwound (reading.pass line) outer
      refine ⟨_, _, .cons first run, by rw [next_of_finished, close_nil], ?_⟩
      rw [List.map_cons, same, place]
      rfl

/-! ## All lines -/

/-- From the beginning of a line on the outline is what the lines say. -/
theorem yields_entriesFrom (lines : List (List Char)) (filled : lines ≠ [])
    (inner : ∀ line ∈ lines, '\n' ∉ line) {reading : Reading} {before : List Char}
    (stands : reading.Between before (joinLines lines))
    (lineStart : reading.position.column = 0) (levels : List Nat) :
    ∃ answers last final,
      Reading.Yields next ⟨reading.withLevels levels, false⟩ answers last ∧
      next last = .ok (none, final) ∧
      answers.map told = (entriesFrom before levels lines).map Entry.told ∧
      final.finished = true ∧ final.reading.context.levels = .bare := by
  induction lines generalizing reading before levels with
  | nil => exact absurd rfl filled
  | cons line later induction =>
      have inLine : '\n' ∉ line := inner line (by simp)
      cases later with
      | nil =>
          rw [joinLines] at stands
          have stands' : reading.Between before (line ++ []) := by
            rw [List.append_nil]
            exact stands
          obtain ⟨opening, opened, told_opening⟩ := yields_indentation stands' lineStart
            inLine (by simp [EndsLine]) levels
          obtain ⟨closing, last, closed, finished, told_closing⟩ :=
            yields_lastLine stands lineStart inLine levels
          refine ⟨_, last, _, opened.append closed, finished, ?_, rfl, rfl⟩
          rw [List.map_append, told_opening, told_closing, entriesFrom, List.map_append,
            List.map_map]
          rfl
      | cons following later =>
          rw [joinLines] at stands
          have ends : EndsLine ('\n' :: joinLines (following :: later)) := by
            simp [EndsLine]
          obtain ⟨opening, opened, told_opening⟩ := yields_indentation stands lineStart
            inLine ends levels
          have broken := next_newline stands lineStart inLine levels
          obtain ⟨behind, atStart⟩ := stands.passLine
          obtain ⟨rest, last, final, run, finished, told_rest, done⟩ :=
            induction (by simp) (fun other member => inner other (by simp [member])) behind
              atStart (indentation (.after before) line levels).2
          refine ⟨_, last, final, opened.append (.cons broken run), finished, ?_, done⟩
          rw [List.map_append, List.map_cons, told_opening, told_rest, entriesFrom,
            List.map_append, List.map_cons, List.append_assoc]
          rfl

/-! ## How many tokens there are -/

theorem length_closings (wide : Nat) (levels : List Nat) :
    (closings wide levels).length + (kept wide levels).length = levels.length := by
  induction levels with
  | nil => rfl
  | cons level outer induction =>
      unfold kept at induction ⊢
      rw [closings, List.dropWhile_cons]
      by_cases narrower : wide < level
      · simp only [decide_true, if_true, List.length_cons, narrower]
        omega
      · simp [narrower]

theorem length_unwound (levels : List Nat) : (unwound levels).length = levels.length := by
  induction levels with
  | nil => rfl
  | cons level outer induction => rw [unwound, List.length_cons, induction, List.length_cons]

/-- A line opens at most one level, and what it closes was open. -/
theorem length_indentation (place : Position) (line : List Char) (levels : List Nat) :
    (indentation place line levels).1.length + (indentation place line levels).2.length ≤
      levels.length + 2 := by
  have balance := length_closings (widthOf line) levels
  unfold indentation
  split
  · simp
  · dsimp only
    split <;> simp only [List.length_append, List.length_map, List.length_cons,
      List.length_nil] <;> omega

theorem length_entriesFrom (before : List Char) (levels : List Nat)
    (lines : List (List Char)) (filled : lines ≠ []) :
    (entriesFrom before levels lines).length < levels.length + 3 * lines.length := by
  induction lines generalizing before levels with
  | nil => exact absurd rfl filled
  | cons line later induction =>
      have opening := length_indentation (.after before) line levels
      cases later with
      | nil =>
          simp only [entriesFrom, List.length_append, List.length_map, length_unwound,
            List.length_cons, List.length_nil]
          omega
      | cons following later =>
          have rest := induction (before ++ line ++ ['\n'])
            (indentation (.after before) line levels).2 (by simp)
          simp only [entriesFrom, List.length_append, List.length_cons] at rest ⊢
          omega

theorem length_lines_eq (text : List Char) : (lines text).length = text.count '\n' + 1 := by
  induction text with
  | nil => rfl
  | cons c text induction =>
      obtain ⟨head, later, cut⟩ := List.exists_cons_of_ne_nil (lines_ne_nil text)
      rw [cut, List.length_cons] at induction
      rw [lines, cut]
      by_cases newline : c = '\n'
      · rw [if_pos newline, newline, List.count_cons_self, List.length_cons, List.length_cons,
          induction]
      · rw [if_neg newline, List.count_cons_of_ne newline, List.length_cons, induction]

theorem length_lines (text : List Char) : (lines text).length ≤ text.length + 1 := by
  have breaks := List.count_le_length (a := '\n') (l := text)
  rw [length_lines_eq]
  omega

/-! ## Whole texts -/

theorem length_entries (source : List Char) : (entries source).length < limit source := by
  have few := length_entriesFrom [] [] (lines source) (lines_ne_nil source)
  have lines := length_lines source
  rw [entries, limit]
  rw [List.length_nil] at few
  omega

theorem between_lines (source : List Char) :
    (Reading.ofText source).Between [] (joinLines (lines source)) := by
  rw [joinLines_lines]
  exact Reading.between_ofText source

/-- The outline of a text comes to its end, with fewer tokens than are asked for. -/
theorem exists_run (source : List Char) :
    ∃ tokens last final, Reading.Yields next (ofText source) tokens last ∧
      next last = .ok (none, final) ∧ tokens.map told = (entries source).map Entry.told ∧
      tokens.length < limit source ∧ final.finished = true ∧
      final.reading.context.levels = .bare := by
  obtain ⟨tokens, last, final, run, finished, same, done⟩ :=
    yields_entriesFrom (lines source) (lines_ne_nil source)
      (fun _ member => newline_notMem_lines member) (between_lines source) rfl []
  have count := congrArg List.length same
  rw [List.length_map, List.length_map] at count
  have enough : tokens.length < limit source := by
    rw [count]
    exact length_entries source
  exact ⟨tokens, last, final, run, finished, same, enough, done⟩

/-- The outline of a text is the one that its lines give, with the same levels
after each token; at its end only the bottom level is left, and no token
follows. -/
theorem all_eq_entries (source : List Char) :
    ∃ tokens last, all source = .ok (tokens, last) ∧
      (tokens.map fun (token, after) => (token, after.reading.context.levels.toList)) =
        ((entries source).map fun entry => (entry.token, entry.levels)) ∧
      last.reading.context.levels.toList = [0] ∧
      last.next = .ok (none, last) := by
  obtain ⟨tokens, last, final, run, finished, same, enough, done, bare⟩ := exists_run source
  refine ⟨tokens, final, run.drain finished enough, same, ?_, ?_⟩
  · rw [bare]
    rfl
  · obtain ⟨reading, finished⟩ := final
    subst done
    have nothing : reading.context.levels.isBare = true := by
      rw [bare]
      rfl
    rw [next_of_finished]
    simp only [close, Reading.closeLevel, nothing, if_true]

/-- A tab is as wide as eight spaces, an empty line leaves its level open, and a space in
front of a tab opens one more; both are closed before the last line opens one of its own. -/
theorem all_eq_entries_tab :
    let source := ['\t', 'a', '\n', '\n', ' ', '\t', 'b', '\n', ' ', 'c']
    ∃ tokens last, all source = .ok (tokens, last) ∧
      (tokens.map fun (token, after) => (token, after.reading.context.levels.toList)) =
        [(⟨.indent, .point ⟨0, 1, 0⟩⟩, [0, 8]), (⟨.newline, .point ⟨3, 2, 0⟩⟩, [0, 8]),
          (⟨.newline, .point ⟨4, 3, 0⟩⟩, [0, 8]), (⟨.indent, .point ⟨4, 3, 0⟩⟩, [0, 8, 9]),
          (⟨.newline, .point ⟨8, 4, 0⟩⟩, [0, 8, 9]), (⟨.dedent, .point ⟨8, 4, 0⟩⟩, [0, 8]),
          (⟨.dedent, .point ⟨8, 4, 0⟩⟩, [0]), (⟨.indent, .point ⟨8, 4, 0⟩⟩, [0, 1]),
          (⟨.dedent, .point ⟨10, 4, 2⟩⟩, [0])] ∧
      last.next = .ok (none, last) := by
  intro source
  obtain ⟨tokens, last, drained, same, _, ends⟩ := all_eq_entries source
  exact ⟨tokens, last, drained, same.trans (by decide), ends⟩

end PugTokens.Outline
