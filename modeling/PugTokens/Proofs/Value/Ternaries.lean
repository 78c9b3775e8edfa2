import PugTokens.Proofs.Value.Reads
import PugTokens.Proofs.Value.Steps

namespace PugTokens.Value

/-! # Pairing `?` with `:`

Outside all brackets and quotes a `?` is remembered until its `:` comes.  The
ternaries of a context therefore count the `?` read there less the `:` read
there (`Reads.marksAtRoot_balance`).
-/

/-- How often a mark was read outside all brackets and quotes. -/
def marksAtRoot (mark : Char) (seen : List (Progress × Char)) : Nat :=
  seen.countP fun (progress, c) => progress.context.atRoot && c == mark

/-- The characters of a part that is read, each with the progress before it. -/
def seen (start : Progress) (read rest : List Char) : List (Progress × Char) :=
  (trace start (read ++ rest)).take read.length

/-- Only in a quoted run does a backslash carry the next character with it. -/
def EscapesQuoted (progress : Progress) : Prop :=
  progress.phase = .escape → isQuote progress.context.enclosures.top = true

variable {progress start stop : Progress} {c : Char} {ahead : Option Char}
variable {read rest : List Char}

theorem phase_stepClass (settled : progress.phase ≠ .escape) :
    (stepClass progress c ahead).progress.phase ≠ .escape := by
  unfold stepClass stepQuote stepCloser stepRootOperator stepBlank
  repeat' split
  all_goals simp_all [Step.progress, Step.taking, Progress.asWord, Progress.asScript,
    Progress.asLiteral, Progress.within, Progress.enterPhase]

theorem escapesQuoted_step (progress : Progress) (c : Char) (ahead : Option Char) :
    EscapesQuoted (step progress c ahead).progress := by
  intro escaping
  unfold step at escaping ⊢
  split at escaping
  · simp [Progress.enterPhase] at escaping
  · next settled =>
      split at escaping
      · next quoted =>
          have top : isQuote progress.context.enclosures.top = true := by
            unfold Context.quotes at quoted
            simp only [Bool.and_eq_true] at quoted
            exact quoted.1
          rw [if_neg settled, if_pos quoted]
          unfold stepQuoted
          split <;> exact top
      · exact absurd escaping (phase_stepClass settled)

theorem EscapesQuoted.phase_of_atRoot (escapes : EscapesQuoted progress)
    (atRoot : progress.context.atRoot = true) : progress.phase ≠ .escape := by
  intro escaping
  have quote := escapes escaping
  rw [isQuote_top_of_atRoot atRoot] at quote
  contradiction

theorem step_question (settled : progress.phase ≠ .escape)
    (atRoot : progress.context.atRoot = true) :
    step progress '?' ahead = .taking '?' (progress.asScript.within (·.ask.await)) := by
  have operator : isRootOperator '?' = true := by decide
  rw [step_operator settled (isQuote_top_of_atRoot atRoot) operator, if_pos atRoot]
  rfl

theorem step_colon (settled : progress.phase ≠ .escape)
    (atRoot : progress.context.atRoot = true) :
    step progress ':' ahead =
      if progress.context.awaitsColon then
        .taking ':' (progress.asScript.within (·.answer.await))
      else .stop (progress.asScript.within .settle) := by
  have operator : isRootOperator ':' = true := by decide
  rw [step_operator settled (isQuote_top_of_atRoot atRoot) operator, if_pos atRoot]
  rfl

/-- A `:` is taken outside all brackets and quotes exactly if one is awaited. -/
theorem takes_colon (settled : progress.phase ≠ .escape)
    (atRoot : progress.context.atRoot = true) :
    (step progress ':' ahead).takes = progress.context.awaitsColon := by
  rw [step_colon settled atRoot]
  cases progress.context.awaitsColon <;> rfl

theorem Change.ternaries {before after : Context} (changed : Change c before after) :
    after.ternaries = before.ternaries ∨
      c = '?' ∧ before.atRoot = true ∨ c = ':' ∧ before.atRoot = true := by
  cases changed with
  | ask question atRoot => exact .inr (.inl ⟨question, atRoot⟩)
  | answer colon atRoot awaited => exact .inr (.inr ⟨colon, atRoot⟩)
  | keep => exact .inl rfl
  | settle => exact .inl rfl
  | operator => exact .inl rfl
  | openQuote => exact .inl rfl
  | closeQuote => exact .inl rfl
  | openBracket => exact .inl rfl
  | closeBracket => exact .inl rfl

theorem length_entries_answer {context : Context} (awaited : context.awaitsColon = true) :
    context.answer.ternaries.entries.length + 1 = context.ternaries.entries.length := by
  have top : context.ternaries.top = context.enclosures.size := eq_of_beq awaited
  have filled : context.ternaries.isBare = false := by
    refine Stack.isBare_of_top_ne ?_
    rw [top]
    exact Nat.succ_ne_zero _
  have whole := congrArg (fun stack => stack.entries.length) (Stack.push_top_pop filled)
  simpa [Context.answer] using whole

/-- What one character does to the number of `?` that wait for their `:`. -/
theorem marks_step {next : Progress} {moves : List Move} (escapes : EscapesQuoted start)
    (stepped : step start c ahead = .go next moves) :
    next.context.ternaries.entries.length + marksAtRoot ':' [(start, c)] =
      start.context.ternaries.entries.length + marksAtRoot '?' [(start, c)] := by
  have changed := change_step start c ahead
  rw [stepped] at changed
  change Change c start.context next.context at changed
  cases atRoot : start.context.atRoot with
  | false =>
      rcases changed.ternaries with same | ⟨_, inside⟩ | ⟨_, inside⟩
      · simp [marksAtRoot, atRoot, same]
      · simp [atRoot] at inside
      · simp [atRoot] at inside
  | true =>
      have settled := escapes.phase_of_atRoot atRoot
      by_cases question : c = '?'
      · subst question
        rw [step_question settled atRoot, Step.taking, Step.go.injEq] at stepped
        rw [← stepped.1]
        simp [marksAtRoot, atRoot, Progress.asScript, Progress.within, Context.ask,
          Context.await]
      · by_cases colon : c = ':'
        · subst colon
          rw [step_colon settled atRoot] at stepped
          split at stepped
          · next awaited =>
              rw [Step.taking, Step.go.injEq] at stepped
              rw [← stepped.1]
              have shorter := length_entries_answer awaited
              simp only [marksAtRoot, atRoot, Progress.asScript, Progress.within,
                Context.await, List.countP_singleton]
              simpa using shorter
          · contradiction
        · rcases changed.ternaries with same | ⟨same, _⟩ | ⟨same, _⟩
          · simp [marksAtRoot, same, question, colon]
          · exact absurd same question
          · exact absurd same colon

theorem seen_cons {next : Progress} {moves : List Move}
    (stepped : step start c (read ++ rest).head? = .go next moves) :
    seen start (c :: read) rest = (start, c) :: seen next read rest := by
  unfold seen
  rw [List.cons_append, trace, stepped]
  rfl

theorem marksAtRoot_cons (mark : Char) (first : Progress × Char)
    (later : List (Progress × Char)) :
    marksAtRoot mark (first :: later) = marksAtRoot mark [first] + marksAtRoot mark later := by
  unfold marksAtRoot
  rw [← List.countP_append]
  rfl

/-- The `?` that wait after a part are those that waited before it and those read
    in it, less the `:` read in it. -/
theorem Reads.marksAtRoot_balance (reads : Reads start read rest stop)
    (escapes : EscapesQuoted start) :
    stop.context.ternaries.entries.length + marksAtRoot ':' (seen start read rest) =
        start.context.ternaries.entries.length + marksAtRoot '?' (seen start read rest) ∧
      EscapesQuoted stop := by
  induction reads with
  | refl => exact ⟨rfl, escapes⟩
  | @step start next stop c read rest moves stepped _ induction =>
      have escapesNext : EscapesQuoted next := by
        have after := escapesQuoted_step start c (read ++ rest).head?
        rwa [stepped] at after
      obtain ⟨balance, escapesStop⟩ := induction escapesNext
      have first := marks_step escapes stepped
      rw [seen_cons stepped, marksAtRoot_cons ':', marksAtRoot_cons '?']
      exact ⟨by omega, escapesStop⟩

end PugTokens.Value
