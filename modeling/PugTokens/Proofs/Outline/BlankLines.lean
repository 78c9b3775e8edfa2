import PugTokens.Proofs.Outline.Merging

namespace PugTokens.Outline

/-! # Leaving out a blank line

A line without any character leaves the levels as they are, but one of blanks alone is
measured as every other line: it closes the levels that are wider than its blanks and opens
one if none is as wide.  So the outline of a text loses one line break and nothing else with
the line exactly if the line behind it would have done the same steps first
(`all_without_blank_line`).
-/

variable {tokens fewer : List (Token × Outline)} {before line next rest : List Char}
variable {above below : List (List Char)}

/-! ## The lines of a text -/

theorem lines_append_newline (text rest : List Char) :
    lines (text ++ '\n' :: rest) = lines text ++ lines rest := by
  induction text with
  | nil => simp [lines]
  | cons c text induction =>
      obtain ⟨head, later, cut⟩ := List.exists_cons_of_ne_nil (lines_ne_nil text)
      rw [List.cons_append, lines, lines, induction, cut]
      split <;> rfl

theorem lines_of_notMem (inner : '\n' ∉ line) : lines line = [line] := by
  induction line with
  | nil => rfl
  | cons c line induction =>
      obtain ⟨other, inner⟩ := not_or.mp (List.mem_cons.not.mp inner)
      rw [lines, if_neg (Ne.symm other), induction inner]

theorem exists_lines_cons (text : List Char) :
    ∃ later, lines text = text.takeWhile (· ≠ '\n') :: later := by
  induction text with
  | nil => exact ⟨[], rfl⟩
  | cons c text induction =>
      obtain ⟨later, cut⟩ := induction
      by_cases newline : c = '\n'
      · exact ⟨lines text, by simp [lines, newline]⟩
      · exact ⟨later, by simp [lines, newline, cut]⟩

/-- The lines of a text that begins with whole lines. -/
theorem exists_lines_append (whole : before = [] ∨ ∃ text, before = text ++ ['\n']) :
    ∃ above, above.length = before.count '\n' ∧
      ∀ rest, lines (before ++ rest) = above ++ lines rest := by
  rcases whole with rfl | ⟨text, rfl⟩
  · exact ⟨[], rfl, fun rest => rfl⟩
  · refine ⟨lines text, ?_, fun rest => ?_⟩
    · rw [length_lines_eq, List.count_append, List.count_singleton_self]
    · rw [List.append_assoc]
      exact lines_append_newline text rest

/-! ## What the lines above lead to -/

/-- The kinds from a line on are those of its steps and what lies behind it. -/
theorem exists_kindsBehind_append (levels : List Nat) (above : List (List Char)) :
    ∃ front, ∀ line later, kindsBehind levels (above ++ line :: later) =
      .newline :: (front ++ (steps (above.foldl inside levels) line ++
        kindsBehind (inside (above.foldl inside levels) line) later)) := by
  induction above generalizing levels with
  | nil => exact ⟨[], fun line later => rfl⟩
  | cons first above induction =>
      obtain ⟨front, behind⟩ := induction (inside levels first)
      refine ⟨steps levels first ++ .newline :: front, fun line later => ?_⟩
      rw [List.cons_append, kindsBehind, behind, List.append_assoc]
      rfl

theorem levelsFrom_append (levels : List Nat) (above later : List (List Char)) :
    levelsFrom levels (above ++ later) =
      levelsFrom levels above ++ levelsFrom (above.foldl inside levels) later := by
  induction above generalizing levels with
  | nil => rfl
  | cons line above induction =>
      rw [List.cons_append, levelsFrom, induction]
      rfl

theorem length_levelsFrom (levels : List Nat) (lines : List (List Char)) :
    (levelsFrom levels lines).length = lines.length := by
  induction lines generalizing levels with
  | nil => rfl
  | cons line lines induction => rw [levelsFrom, List.length_cons, induction, List.length_cons]

/-- The levels in front of a line are those in force in the line above it. -/
theorem getElem?_levelsFrom (levels : List Nat) (above later : List (List Char)) :
    ((0 :: levels.reverse) :: levelsFrom levels (above ++ later))[above.length]? =
      some (0 :: (above.foldl inside levels).reverse) := by
  induction above generalizing levels with
  | nil => rfl
  | cons line above induction => exact induction (inside levels line)

/-! ## Steps among kinds -/

/-- The kinds without the line breaks. -/
def stepsOf (kinds : List Kind) : List Kind := kinds.filter (· ≠ .newline)

@[simp] theorem stepsOf_newline (kinds : List Kind) : stepsOf (.newline :: kinds) = stepsOf kinds :=
  rfl

@[simp] theorem stepsOf_append (left right : List Kind) :
    stepsOf (left ++ right) = stepsOf left ++ stepsOf right :=
  List.filter_append left right

@[simp] theorem stepsOf_steps (levels : List Nat) (line : List Char) :
    stepsOf (steps levels line) = steps levels line := by
  refine List.filter_eq_self.mpr fun kind member => ?_
  have other : kind ≠ .newline := by
    rintro rfl
    exact newline_notMem_steps levels line member
  simpa using other

/-! ## Texts with a line less -/

/-- The outline with fewer tokens is the other one without a line break: the steps of
indentation are the same, and so are the levels in force in all lines but one. -/
structure LosesLine (index : Nat) (tokens fewer : List (Token × Outline)) : Prop where
  oneBreak : ∃ left right,
    kinds tokens = left ++ .newline :: right ∧ kinds fewer = left ++ right
  sameSteps : stepsOf (kinds fewer) = stepsOf (kinds tokens)
  sameLevels : levelsByLine [0] fewer = (levelsByLine [0] tokens).eraseIdx index

theorem ByLines.losesLine_iff (more : ByLines (above ++ line :: next :: below) tokens)
    (less : ByLines (above ++ next :: below) fewer) :
    LosesLine above.length tokens fewer ↔ Merges (above.foldl inside []) line next := by
  obtain ⟨front, behind⟩ := exists_kindsBehind_append [] above
  have kindsMore := more.kinds
  have kindsLess := less.kinds
  have levelsMore := more.levels
  have levelsLess := less.levels
  rw [behind, kindsBehind, List.cons.injEq] at kindsMore
  rw [behind, List.cons.injEq] at kindsLess
  rw [levelsFrom_append, levelsFrom, levelsFrom] at levelsMore
  rw [levelsFrom_append, levelsFrom] at levelsLess
  have erased : (levelsByLine [0] tokens).eraseIdx above.length =
      levelsFrom [] above ++
        (0 :: (inside (inside (above.foldl inside []) line) next).reverse) ::
          levelsFrom (inside (inside (above.foldl inside []) line) next) below := by
    have length := length_levelsFrom [] above
    rw [levelsMore, List.eraseIdx_append_of_length_le (Nat.le_of_eq length), length, Nat.sub_self]
    rfl
  constructor
  · intro loses
    have levels := loses.sameLevels
    rw [erased, levelsLess] at levels
    have left := (List.cons.inj (List.append_cancel_left levels)).1
    have left := List.reverse_injective (List.cons.inj left).2
    have told := loses.sameSteps
    rw [kindsMore.2, kindsLess.2, left] at told
    simp only [stepsOf_append, stepsOf_newline, stepsOf_steps, ← List.append_assoc] at told
    have told := List.append_cancel_right told
    rw [List.append_assoc] at told
    exact ⟨left.symm, (List.append_cancel_left told).symm⟩
  · intro merges
    rw [merges.left, ← List.append_assoc] at kindsMore
    rw [merges.left] at erased
    have less := kindsLess.2
    rw [← merges.told, List.append_assoc, ← List.append_assoc] at less
    refine ⟨⟨_, _, kindsMore.2, less⟩, ?_, levelsLess.trans erased.symm⟩
    rw [kindsMore.2, less]
    simp

/-! ## Whole texts -/

/-- Leaving out a line of blanks that is not the last leaves out one line break and nothing
else exactly if the line is redundant: it is empty, or the next line is just as wide, or it
opens no level and closes none that the next line would not close too. -/
theorem all_without_blank_line (whole : before = [] ∨ ∃ text, before = text ++ ['\n'])
    (blank : ∀ c ∈ line, c = ' ' ∨ c = '\t') :
    ∃ tokens last fewer lastFewer levels,
      all (before ++ line ++ '\n' :: rest) = .ok (tokens, last) ∧
      all (before ++ rest) = .ok (fewer, lastFewer) ∧
      ([0] :: levelsByLine [0] tokens)[before.count '\n']? = some levels ∧
      (LosesLine (before.count '\n') tokens fewer ↔
        Redundant levels line (rest.takeWhile (· ≠ '\n'))) := by
  have inner : '\n' ∉ line := by
    intro member
    exact absurd (blank '\n' member) (by decide)
  obtain ⟨above, count, cut⟩ := exists_lines_append whole
  obtain ⟨below, cutRest⟩ := exists_lines_cons rest
  have cutMore : lines (before ++ line ++ '\n' :: rest) =
      above ++ line :: rest.takeWhile (· ≠ '\n') :: below := by
    rw [List.append_assoc, cut, lines_append_newline, lines_of_notMem inner, cutRest]
    rfl
  have cutLess : lines (before ++ rest) = above ++ rest.takeWhile (· ≠ '\n') :: below := by
    rw [cut, cutRest]
  obtain ⟨tokens, last, run, more⟩ := exists_all_byLines (before ++ line ++ '\n' :: rest)
  obtain ⟨fewer, lastFewer, runFewer, less⟩ := exists_all_byLines (before ++ rest)
  rw [cutMore] at more
  rw [cutLess] at less
  have descending : Descending (above.foldl inside []) :=
    descending_nil.foldl_inside above
  refine ⟨tokens, last, fewer, lastFewer, 0 :: (above.foldl inside []).reverse, run, runFewer,
    ?_, ?_⟩
  · rw [more.levels, ← count]
    exact getElem?_levelsFrom [] above _
  · rw [← count, more.losesLine_iff less]
    exact ⟨fun merges => merges.redundant descending, fun redundant => redundant.merges descending⟩

/-- In ` a`, `  b` a line of one blank closes the level of `b`, as the `c` at the beginning of
the next line would do. -/
theorem all_without_blank_line_covered :
    let before := [' ', 'a', '\n', ' ', ' ', 'b', '\n']
    let levels := [0, 1, 2]
    (before = [] ∨ ∃ text, before = text ++ ['\n']) ∧ (∀ c ∈ [' '], c = ' ' ∨ c = '\t') ∧
      Redundant levels [' '] ['c'] ∧
      ∃ tokens last fewer lastFewer,
        all (before ++ [' '] ++ '\n' :: ['c']) = .ok (tokens, last) ∧
        all (before ++ ['c']) = .ok (fewer, lastFewer) ∧
        kinds tokens =
          [.indent, .newline, .indent, .newline, .dedent, .newline, .dedent] ∧
        LosesLine 2 tokens fewer := by
  intro before levels
  have whole : before = [] ∨ ∃ text, before = text ++ ['\n'] :=
    .inr ⟨[' ', 'a', '\n', ' ', ' ', 'b'], rfl⟩
  have blank : ∀ c ∈ [' '], c = ' ' ∨ c = '\t' := List.forall_mem_singleton.mpr (.inl rfl)
  have redundant : Redundant levels [' '] ['c'] := .covered (by decide) (by decide)
  obtain ⟨tokens, last, fewer, lastFewer, found, run, runFewer, inForce, loses⟩ :=
    @all_without_blank_line before [' '] ['c'] whole blank
  obtain ⟨_, _, answered, byLines⟩ := exists_all_byLines (before ++ [' '] ++ '\n' :: ['c'])
  cases run.symm.trans answered
  rw [byLines.levels] at inForce
  obtain rfl : levels = found := Option.some.inj inForce
  exact ⟨whole, blank, redundant, tokens, last, fewer, lastFewer, run, runFewer,
    (List.cons.inj byLines.kinds).2, loses.mpr redundant⟩

/-- Two blanks between an `a` and a `b` open a level and the `b` closes it: there are two
more steps than without them. -/
theorem all_with_wide_blank_line :
    (∀ c ∈ [' ', ' '], c = ' ' ∨ c = '\t') ∧
      ∃ tokens last fewer lastFewer,
        all (['a', '\n'] ++ [' ', ' '] ++ '\n' :: ['b']) = .ok (tokens, last) ∧
        all (['a', '\n'] ++ ['b']) = .ok (fewer, lastFewer) ∧
        kinds tokens = [.newline, .indent, .newline, .dedent] ∧ kinds fewer = [.newline] ∧
        ∀ index, ¬ LosesLine index tokens fewer := by
  have blank : ∀ c ∈ [' ', ' '], c = ' ' ∨ c = '\t' :=
    List.forall_mem_cons.mpr ⟨.inl rfl, List.forall_mem_singleton.mpr (.inl rfl)⟩
  refine ⟨blank, _, _, _, _, rfl, rfl, by decide, by decide, fun index loses => ?_⟩
  exact absurd loses.sameSteps (by decide)

end PugTokens.Outline
