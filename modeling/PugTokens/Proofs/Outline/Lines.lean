import PugTokens.Proofs.Layout.Tokens
import PugTokens.Proofs.Reading.Draining
import PugTokens.Reading.Outline.Lines

namespace PugTokens

/-! # The outline within one line

At the beginning of a line the outline first closes the levels that are wider
than its indentation and then opens one if it is wider than what is left.  With
that done the line agrees with the innermost level, nothing more is found in
it, and the next token lies behind it: a line break, or at the end of the text
the first of the levels that are still open.
-/

/-- The reading with other open levels, the innermost first. -/
def Reading.withLevels (reading : Reading) (levels : List Nat) : Reading :=
  { reading with context := { reading.context with levels := ⟨levels⟩ } }

theorem Reading.Between.withLevels {reading : Reading} {before rest : List Char}
    (stands : reading.Between before rest) (levels : List Nat) :
    (reading.withLevels levels).Between before rest :=
  ⟨stands.source, stands.position⟩

namespace Outline

variable {reading : Reading} {before line behind : List Char}

/-- A token and the levels right after it. -/
def told (answer : Token × Outline) : Token × List Nat :=
  (answer.1, answer.2.reading.context.levels.toList)

def Entry.told (entry : Entry) : Token × List Nat := (entry.token, entry.levels)

/-- Nothing, or a line break and more. -/
def EndsLine (behind : List Char) : Prop := ∀ c ∈ behind.head?, c = '\n'

theorem leading_append (line : List Char) (ends : EndsLine behind) :
    Layout.leading (line ++ behind) = Layout.leading line := by
  unfold Layout.leading
  induction line with
  | nil =>
      cases behind with
      | nil => rfl
      | cons c later =>
          have newline : c = '\n' := ends c rfl
          subst newline
          rfl
  | cons c line induction =>
      rw [List.cons_append, List.takeWhile_cons, List.takeWhile_cons, induction]

theorem takeWhile_line (inner : '\n' ∉ line) (ends : EndsLine behind) :
    (line ++ behind).takeWhile (· ≠ '\n') = line := by
  induction line with
  | nil =>
      cases behind with
      | nil => rfl
      | cons c later =>
          have newline : c = '\n' := ends c rfl
          simp [newline]
  | cons c line induction =>
      rw [List.mem_cons, not_or] at inner
      have other : c ≠ '\n' := fun same => inner.1 same.symm
      simp only [List.cons_append, List.takeWhile_cons, ne_eq, other, not_false_eq_true,
        decide_true, if_true]
      rw [induction inner.2]

/-! ## The width of a line -/

theorem foldl_widen {wide : Nat} (within : wide ≤ 4294967295) {blanks : List Char}
    (only : ∀ c ∈ blanks, c = ' ' ∨ c = '\t') :
    blanks.foldl Layout.widen wide =
      min 4294967295 (wide + (blanks.count ' ' + 8 * blanks.count '\t')) := by
  induction blanks generalizing wide with
  | nil => exact (Nat.min_eq_right within).symm
  | cons c blanks induction =>
      obtain ⟨first, only⟩ := List.forall_mem_cons.mp only
      have limited : Layout.widen wide c ≤ 4294967295 := Nat.min_le_left _ _
      rw [List.foldl_cons, induction limited only, Layout.widen, Layout.widthLimit]
      rcases first with rfl | rfl
      · have space : (indentWidth? ' ').getD 0 = 1 := rfl
        rw [space, List.count_cons_self, List.count_cons_of_ne (by decide)]
        omega
      · have tab : (indentWidth? '\t').getD 0 = 8 := rfl
        rw [tab, List.count_cons_self, List.count_cons_of_ne (by decide)]
        omega

theorem leading_eq (line : List Char) :
    Layout.leading line = line.takeWhile fun c => c = ' ' ∨ c = '\t' := by
  apply congrArg (List.takeWhile · line)
  funext c
  rw [Bool.eq_iff_iff, isBlank_iff, decide_eq_true_iff]

/-- Counting blank by blank up to the limit leads to the width of the line. -/
theorem width_leading (line : List Char) :
    Layout.width (Layout.leading line) = widthOf line := by
  have only : ∀ c ∈ line.takeWhile (fun c => c = ' ' ∨ c = '\t'), c = ' ' ∨ c = '\t' := by
    intro c member
    simpa using List.all_eq_true.mp List.all_takeWhile c member
  rw [Layout.width, leading_eq, foldl_widen (Nat.zero_le _) only, Nat.zero_add]
  rfl

/-- What is behind the end of a line adds nothing to its width. -/
theorem widthOf_append (line : List Char) (ends : EndsLine behind) :
    widthOf (line ++ behind) = widthOf line := by
  rw [← width_leading, leading_append line ends, width_leading]

/-! ## Single tokens -/

theorem next_of_token {rest : List Char} {token : Token} {after : Reading}
    (stands : reading.Between before rest)
    (found : reading.tokenAt .layout rest = (some token, after)) :
    next ⟨reading, false⟩ = .ok (some token, ⟨after, false⟩) := by
  simp only [next, stands.scan, found, bind, Except.bind]
  rfl

/-- If a line begins with nothing to report, the next token lies behind it. -/
theorem next_of_settled (stands : reading.Between before (line ++ behind))
    (inner : '\n' ∉ line) (ends : EndsLine behind)
    (settled : reading.tokenAt .layout (line ++ behind) = (none, reading)) :
    next ⟨reading, false⟩ =
      match (reading.pass line).tokenAt .layout behind with
      | (some token, after) => .ok (some token, ⟨after, false⟩)
      | (none, _) => .ok (close ⟨reading.pass line, false⟩) := by
  have skipped : reading.skipLine = .ok (line, reading.pass line) := by
    rw [stands.skipLine, takeWhile_line inner ends]
  simp only [next, stands.scan, settled, skipped, stands.pass.scan, bind, Except.bind]
  cases (reading.pass line).tokenAt .layout behind with
  | mk token after => cases token <;> rfl

theorem next_of_finished (reading : Reading) :
    next ⟨reading, true⟩ = .ok (close ⟨reading, true⟩) := rfl

theorem close_nil (reading : Reading) (finished : Bool) :
    close ⟨reading.withLevels [], finished⟩ = (none, ⟨reading.withLevels [], true⟩) := rfl

theorem close_cons (reading : Reading) (finished : Bool) (level : Nat)
    (outer : List Nat) :
    close ⟨reading.withLevels (level :: outer), finished⟩ =
      (some ⟨.dedent, .point reading.position⟩, ⟨reading.withLevels outer, true⟩) := rfl

/-! ## The beginning of a line -/

/-- Levels that are wider than the line are closed, the innermost first. -/
theorem yields_closings {c : Char} (stands : reading.Between before (c :: line))
    (lineStart : reading.position.column = 0) (inLine : c ≠ '\n') (levels : List Nat) :
    let wide := widthOf (c :: line)
    ∃ answers, Reading.Yields next ⟨reading.withLevels levels, false⟩ answers
        ⟨reading.withLevels (kept wide levels), false⟩ ∧
      answers.map told = (closings wide levels).map fun left =>
        (⟨.dedent, .point reading.position⟩, 0 :: left.reverse) := by
  intro wide
  induction levels with
  | nil => exact ⟨[], .refl _, rfl⟩
  | cons level outer induction =>
      by_cases narrower : wide < level
      · obtain ⟨answers, run, same⟩ := induction
        have notWider : ¬ (reading.withLevels (level :: outer)).context.level < wide :=
          Nat.not_lt.mpr (Nat.le_of_lt narrower)
        have found : (reading.withLevels (level :: outer)).tokenAt .layout (c :: line) =
            (some ⟨.dedent, .point reading.position⟩, reading.withLevels outer) := by
          rw [Reading.tokenAt_layout_line (reading.withLevels (level :: outer))
            lineStart inLine, width_leading]
          exact (if_neg notWider).trans (if_pos narrower)
        have first := next_of_token (stands.withLevels (level :: outer)) found
        have keeps : kept wide (level :: outer) = kept wide outer := by
          simp [kept, narrower]
        rw [keeps]
        refine ⟨_, .cons first run, ?_⟩
        rw [List.map_cons, same, closings, if_pos narrower]
        rfl
      · have keeps : kept wide (level :: outer) = level :: outer := by
          simp [kept, narrower]
        rw [keeps, closings, if_neg narrower]
        exact ⟨[], .refl _, rfl⟩

theorem headD_kept_le (wide : Nat) (levels : List Nat) :
    (kept wide levels).headD 0 ≤ wide := by
  induction levels with
  | nil => exact Nat.zero_le wide
  | cons level outer induction =>
      unfold kept at induction ⊢
      rw [List.dropWhile_cons]
      split
      · exact induction
      · next narrow => simpa using narrow

/-- With the levels adapted, the innermost is the indentation of the line. -/
theorem headD_indentation (place : Position) (filled : line.isEmpty = false)
    (levels : List Nat) :
    (indentation place line levels).2.headD 0 = widthOf line := by
  have bound := headD_kept_le (widthOf line) levels
  unfold indentation
  rw [if_neg (by simp [filled])]
  dsimp only
  split
  · rfl
  · next notWider => exact Nat.le_antisymm bound (Nat.not_lt.mp notWider)

/-- The tokens at the beginning of a line are those of the reference. -/
theorem yields_indentation (stands : reading.Between before (line ++ behind))
    (lineStart : reading.position.column = 0) (inner : '\n' ∉ line)
    (ends : EndsLine behind) (levels : List Nat) :
    ∃ answers, Reading.Yields next ⟨reading.withLevels levels, false⟩ answers
        ⟨reading.withLevels (indentation (.after before) line levels).2, false⟩ ∧
      answers.map told = (indentation (.after before) line levels).1.map Entry.told := by
  cases line with
  | nil => exact ⟨[], .refl _, rfl⟩
  | cons c line =>
      have inLine : c ≠ '\n' := by
        intro same
        exact inner (by simp [same])
      have same : widthOf (c :: (line ++ behind)) = widthOf (c :: line) :=
        widthOf_append (c :: line) ends
      rw [List.cons_append] at stands
      obtain ⟨closed, run, told_closed⟩ := yields_closings stands lineStart inLine levels
      rw [same] at run told_closed
      rw [stands.position] at told_closed
      unfold indentation
      rw [if_neg (by simp)]
      dsimp only
      split
      · next wider =>
          let left := kept (widthOf (c :: line)) levels
          have found : (reading.withLevels left).tokenAt .layout (c :: (line ++ behind)) =
              (some ⟨.indent, .point reading.position⟩,
                reading.withLevels (widthOf (c :: line) :: left)) := by
            rw [Reading.tokenAt_layout_line (reading.withLevels left) lineStart
              inLine, width_leading, same]
            exact if_pos wider
          have opened := Reading.Yields.single (next_of_token (stands.withLevels left) found)
          refine ⟨_, run.append opened, ?_⟩
          rw [List.map_append, List.map_append, told_closed, List.map_map]
          rw [stands.position]
          rfl
      · refine ⟨closed, run, ?_⟩
        rw [told_closed, List.map_map]
        rfl

theorem settled_indentation (stands : reading.Between before (line ++ behind))
    (lineStart : reading.position.column = 0) (inner : '\n' ∉ line)
    (ends : EndsLine behind) (filled : line.isEmpty = false) (levels : List Nat) :
    let inside := reading.withLevels (indentation (.after before) line levels).2
    inside.tokenAt .layout (line ++ behind) = (none, inside) := by
  intro inside
  have agrees : inside.context.level = widthOf line :=
    headD_indentation (.after before) filled levels
  cases line with
  | nil => simp at filled
  | cons c line =>
      have inLine : c ≠ '\n' := by
        intro same
        exact inner (by simp [same])
      have same : widthOf (c :: (line ++ behind)) = widthOf (c :: line) :=
        widthOf_append (c :: line) ends
      rw [List.cons_append, Reading.tokenAt_layout_line inside lineStart inLine,
        width_leading, same]
      dsimp only
      rw [agrees, if_neg (Nat.lt_irrefl _), if_neg (Nat.lt_irrefl _)]

end Outline

end PugTokens
