import PugTokens.Reading.Outline

namespace PugTokens.Outline

/-! # The outline line by line

What the outline of a text should be, said without a cursor: the text is cut at
its line breaks, each line that is not empty closes the levels that are wider
than its indentation and opens one if it is wider than what is left, and a
line break follows each line but the last.  All tokens are points.
-/

/-- A token of an outline and the levels right after it, the bottom first. -/
structure Entry where
  kind : Kind
  place : Position
  levels : List Nat
  deriving DecidableEq, Repr

/-- The token of an entry, which covers no text. -/
def Entry.token (entry : Entry) : Token := ⟨entry.kind, .point entry.place⟩

/-- Cut a text at its line breaks; there is always at least one line. -/
def lines : List Char → List (List Char)
  | [] => [[]]
  | c :: rest =>
      if c = '\n' then [] :: lines rest
      else match lines rest with
        | [] => [[c]]
        | line :: later => (c :: line) :: later

theorem lines_ne_nil (text : List Char) : lines text ≠ [] := by
  cases text with
  | nil => simp [lines]
  | cons c rest =>
      simp only [lines]
      split
      · simp
      · split <;> simp

/-- Put lines together with a line break between any two. -/
def joinLines : List (List Char) → List Char
  | [] => []
  | [line] => line
  | line :: next :: later => line ++ '\n' :: joinLines (next :: later)

/-- Nothing but the line breaks is lost when a text is cut into lines. -/
theorem joinLines_lines (text : List Char) : joinLines (lines text) = text := by
  induction text with
  | nil => rfl
  | cons c rest induction =>
      have filled := lines_ne_nil rest
      simp only [lines]
      cases cut : lines rest with
      | nil => exact absurd cut filled
      | cons line later =>
          rw [cut] at induction
          split
          · next newline => simp [joinLines, induction, newline]
          · cases later with
            | nil => simpa [joinLines] using induction
            | cons next later => simpa [joinLines] using induction

theorem newline_notMem_lines {text line : List Char} (member : line ∈ lines text) :
    '\n' ∉ line := by
  induction text generalizing line with
  | nil =>
      simp only [lines, List.mem_singleton] at member
      simp [member]
  | cons c rest induction =>
      simp only [lines] at member
      split at member
      · rcases List.mem_cons.mp member with rfl | later
        · simp
        · exact induction later
      · next other =>
          split at member
          · simp only [List.mem_singleton] at member
            simp [member, Ne.symm other]
          · next head later cut =>
              rcases List.mem_cons.mp member with rfl | behind
              · have inner : '\n' ∉ head := induction (by simp [cut])
                simp [inner, Ne.symm other]
              · exact induction (by simp [cut, behind])

/-- The width of the blanks that a line begins with: a space adds one and a tab eight, and
    no line is wider than `2 ^ 32 - 1`. -/
def widthOf (line : List Char) : Nat :=
  let blanks := line.takeWhile fun c => c = ' ' ∨ c = '\t'
  min 4294967295 (blanks.count ' ' + 8 * blanks.count '\t')

/-- The stacks left as levels are closed one by one for as long as they are
    wider than `wide`; the argument lists the levels above the bottom, the
    innermost first. -/
def closings (wide : Nat) : List Nat → List (List Nat)
  | [] => []
  | level :: outer => if wide < level then outer :: closings wide outer else []

/-- The stacks left as all levels are closed one by one. -/
def unwound : List Nat → List (List Nat)
  | [] => []
  | _ :: outer => outer :: unwound outer

/-- The levels that stay open at an indentation. -/
def kept (wide : Nat) (levels : List Nat) : List Nat :=
  levels.dropWhile (wide < ·)

/-- The tokens at the beginning of a line, and the levels in it. -/
def indentation (place : Position) (line : List Char) (levels : List Nat) :
    List Entry × List Nat :=
  if line.isEmpty then ([], levels)
  else
    let wide := widthOf line
    let closed := (closings wide levels).map fun left =>
      ⟨.dedent, place, 0 :: left.reverse⟩
    let left := kept wide levels
    if left.headD 0 < wide then
      (closed ++ [⟨.indent, place, 0 :: (wide :: left).reverse⟩], wide :: left)
    else (closed, left)

/-- The tokens of some lines, with the text before them and the levels above
    the bottom that are open there. -/
def entriesFrom (before : List Char) (levels : List Nat) :
    List (List Char) → List Entry
  | [] => []
  | [line] =>
      let (opening, inside) := indentation (.after before) line levels
      let place := Position.after (before ++ line)
      let closing := (unwound inside).map fun left =>
        (⟨.dedent, place, 0 :: left.reverse⟩ : Entry)
      opening ++ closing
  | line :: next :: later =>
      let (opening, inside) := indentation (.after before) line levels
      let behind := before ++ line ++ ['\n']
      opening ++ ⟨.newline, .after behind, 0 :: inside.reverse⟩ ::
        entriesFrom behind inside (next :: later)

def entries (source : List Char) : List Entry := entriesFrom [] [] (lines source)

end PugTokens.Outline
