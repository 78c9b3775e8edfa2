import PugTokens.Move

namespace PugTokens.Layout

/-! # Line breaks and indentation

At a line break the token is `newline`.  At the beginning of any other line the
width of its leading blanks is compared with the innermost open level: a wider
line opens a level, a narrower one closes a level, one per scan.  Indentation
tokens have no text: they are marked before the blanks are measured.
-/

/-- The widest indentation that is told apart from wider ones. -/
def widthLimit : Nat := 4294967295

def leading (line : List Char) : List Char := line.takeWhile isBlank

/-- Add a character to a width, which does not grow beyond the limit. -/
def widen (wide : Nat) (c : Char) : Nat := min widthLimit (wide + (indentWidth? c).getD 0)

/-- The width of a run of blanks, counted from the first to the last. -/
def width (blanks : List Char) : Nat := blanks.foldl widen 0

/-- Compare the indentation of a line with the open levels. -/
def measure (context : Context) (valid : KindSet) (line : List Char) : Outcome :=
  let wide := width (leading line)
  let moves := .mark :: (leading line).map .skip
  if context.level < wide ∧ .indent ∈ valid then
    ⟨some .indent, context.indent wide, moves⟩
  else if wide < context.level ∧ .dedent ∈ valid then
    ⟨some .dedent, context.dedent, moves⟩
  else
    ⟨none, context, moves⟩

/-- Measuring steps over the leading blanks of the line and nothing else. -/
theorem consumed_measure (context : Context) (valid : KindSet) (line : List Char) :
    (measure context valid line).consumed = leading line := by
  have skipped : ∀ blanks : List Char, Move.textOf (blanks.map .skip) = blanks := by
    intro blanks
    induction blanks with
    | nil => rfl
    | cons c blanks induction =>
        rw [List.map_cons, Move.textOf_cons, induction]
        rfl
  unfold measure
  dsimp only
  repeat' split
  all_goals exact skipped (leading line)

def scan (context : Context) (valid : KindSet) (view : View) : Outcome :=
  match view.unread with
  | [] => .nothing context
  | c :: rest =>
      if c = '\n' then
        if .newline ∈ valid then ⟨some .newline, context, [.skip c]⟩
        else .nothing context
      else if view.lineStart then measure context valid (c :: rest)
      else .nothing context

end PugTokens.Layout
