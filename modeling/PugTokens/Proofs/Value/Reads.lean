import PugTokens.Proofs.Value.Changes

namespace PugTokens.Value

/-! # Reading part of a value

`Reads start read rest stop` says that from `start`, in front of `read` and then
`rest`, a scan takes all of `read` without ending and is then at `stop`.  Such
parts compose, and a scan of the whole is a scan of what is left, preceded by
the moves over what was read.
-/

inductive Reads : Progress → List Char → List Char → Progress → Prop
  | refl (progress : Progress) (rest : List Char) : Reads progress [] rest progress
  | step {start next stop : Progress} {c : Char} {read rest : List Char}
      {moves : List Move} :
      step start c (read ++ rest).head? = .go next moves → Reads next read rest stop →
      Reads start (c :: read) rest stop

variable {start middle stop : Progress} {read later rest : List Char}

theorem Reads.append (first : Reads start read (later ++ rest) middle)
    (second : Reads middle later rest stop) : Reads start (read ++ later) rest stop := by
  generalize remaining : later ++ rest = behind at first
  induction first with
  | refl => exact second
  | step stepped _ induction =>
      subst remaining
      rw [← List.append_assoc] at stepped
      exact .step stepped (induction second rfl)

/-- Where a part leads does not depend on how it was found to be read. -/
theorem Reads.unique (first : Reads start read rest middle)
    (second : Reads start read rest stop) : middle = stop := by
  induction first with
  | refl =>
      cases second
      rfl
  | step stepped _ induction =>
      cases second with
      | step again reads =>
          rw [stepped, Step.go.injEq] at again
          obtain ⟨rfl, _⟩ := again
          exact induction reads

theorem Reads.run (reads : Reads start read rest stop) :
    ∃ moves, Move.textOf moves = read ∧
      run start (read ++ rest) = (run stop rest).precededBy moves := by
  induction reads with
  | refl => exact ⟨[], rfl, rfl⟩
  | @step start next stop c read rest taken stepped _ induction =>
      obtain ⟨moves, covered, same⟩ := induction
      have own := textOf_step start c (read ++ rest).head?
      rw [stepped] at own
      refine ⟨taken ++ moves, ?_, ?_⟩
      · rw [Move.textOf_append, covered]
        exact congrArg (· ++ read) own
      · rw [List.cons_append, Value.run]
        simp only [stepped, same, Extent.precededBy, List.append_assoc]

theorem Reads.keeps {Kept : Context → Prop}
    (keeps : ∀ {before c after}, Change c before after → Kept before → Kept after)
    (reads : Reads start read rest stop) (holds : Kept start.context) :
    Kept stop.context := by
  induction reads with
  | refl => exact holds
  | @step start next stop c read rest taken stepped _ induction =>
      have changed := keeps (change_step start c (read ++ rest).head?) holds
      rw [stepped] at changed
      exact induction changed

end PugTokens.Value
