import PugTokens.Value.Trace

namespace PugTokens.Value

/-! # What reading a value does to a context

One character changes a context in one of a few ways, each with a condition on
the character and on what is innermost.  Whatever these changes keep, a whole
value keeps (`run_keeps`).
-/

/-- The context before a character and the one after it. -/
inductive Change (c : Char) (before : Context) : Context → Prop
  | keep : Change c before before
  | settle : Change c before before.settle
  | openQuote : isQuote c = true → before.enclosures.top ≠ c →
      Change c before (before.enter c)
  | closeQuote : isQuote c = true → before.enclosures.top = c → Change c before before.leave
  | openBracket : isOpener c = true → isQuote before.enclosures.top = false →
      Change c before (before.settle.enter c)
  | closeBracket : some before.enclosures.top = openerOf? c →
      Change c before before.settle.leave
  | operator : Change c before before.await
  | ask : c = '?' → before.atRoot = true → Change c before before.ask.await
  | answer : c = ':' → before.atRoot = true → before.awaitsColon = true →
      Change c before before.answer.await

/-- Where a step leads. -/
def Step.progress : Step → Progress
  | .stop progress => progress
  | .go progress _ => progress
  | .close progress _ => progress

variable {progress : Progress} {c : Char} {ahead : Option Char}

@[simp] theorem Step.progress_taking (c : Char) (progress : Progress) :
    (Step.taking c progress).progress = progress := rfl

theorem change_stepQuoted (progress : Progress) (c : Char) :
    Change c progress.context (stepQuoted progress c).progress.context := by
  unfold stepQuoted
  split
  · exact .keep
  · exact .settle

theorem change_stepQuote (quote : isQuote c = true) :
    Change c progress.context (stepQuote progress c).progress.context := by
  have toggled : (stepQuote progress c).progress.context = progress.context.toggle c := by
    unfold stepQuote
    dsimp only
    split <;> rfl
  rw [toggled]
  unfold Context.toggle
  split
  · next same => exact .closeQuote quote same
  · next different => exact .openQuote quote different

theorem change_stepCloser (progress : Progress) (c : Char) :
    Change c progress.context (stepCloser progress c).progress.context := by
  unfold stepCloser
  split
  · next pairs => exact .closeBracket pairs
  · exact .settle

theorem change_stepRootOperator (atRoot : progress.context.atRoot = true) :
    Change c progress.context (stepRootOperator progress c).progress.context := by
  unfold stepRootOperator
  split
  · next colon =>
      split
      · next awaited => exact .answer colon atRoot awaited
      · exact .settle
  · split
    · next question => exact .ask question atRoot
    · exact .operator

theorem change_stepBlank (progress : Progress) (c : Char) (ahead : Option Char) :
    Change c progress.context (stepBlank progress c ahead).progress.context := by
  unfold stepBlank
  dsimp only
  split
  · exact .keep
  · split
    · exact .keep
    · split <;> exact .settle

theorem change_stepClass (outside : progress.context.quotes c = false) :
    Change c progress.context (stepClass progress c ahead).progress.context := by
  unfold stepClass
  split
  · exact .settle
  · next quote => exact change_stepQuote (by simp [isQuote, quote])
  · next opener =>
      have notQuote : isQuote c = false := by simp [isQuote, opener]
      refine .openBracket (by simp [isOpener, opener]) ?_
      simpa [Context.quotes, notQuote] using outside
  · exact change_stepCloser progress c
  · split
    · next atRoot => exact change_stepRootOperator atRoot
    · exact .operator
  · split
    · exact .keep
    · exact .operator
  · exact change_stepBlank progress c ahead
  · exact .keep

theorem change_step (progress : Progress) (c : Char) (ahead : Option Char) :
    Change c progress.context (step progress c ahead).progress.context := by
  unfold step
  split
  · exact .keep
  · split
    · exact change_stepQuoted progress c
    · next outside => exact change_stepClass (by simpa using outside)

/-- What every change keeps holds at the end of a value if it holds before it. -/
theorem run_keeps {Kept : Context → Prop}
    (keeps : ∀ {before c after}, Change c before after → Kept before → Kept after)
    {start : Progress} (holds : Kept start.context) (text : List Char) :
    Kept (run start text).last.context := by
  induction text generalizing start with
  | nil => exact holds
  | cons c rest induction =>
      have stepped := keeps (change_step start c rest.head?) holds
      unfold run
      cases taken : step start c rest.head? with
      | stop last =>
          rw [taken] at stepped
          exact stepped
      | go next moves =>
          rw [taken] at stepped
          exact induction stepped
      | close last moves =>
          rw [taken] at stepped
          exact stepped

end PugTokens.Value
