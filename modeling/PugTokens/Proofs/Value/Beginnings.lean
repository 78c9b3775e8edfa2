import PugTokens.Proofs.Value.Boundaries

namespace PugTokens.Value

/-! # How a value begins

Whatever belongs to a value makes it begin, except for blanks, and what has begun stays
begun.
-/

variable {start : Progress} {c : Char} {ahead : Option Char}

/-- A character that may stand between two values. -/
def separates (c : Char) : Bool :=
  isBlank c || isCloser c || c == ',' || c == ':' || CharClass.ofChar c == .other

theorem found_stepBlank (progress : Progress) (c : Char) (ahead : Option Char) :
    (stepBlank progress c ahead).progress.found = progress.found := by
  unfold stepBlank
  dsimp only
  repeat' split
  all_goals rfl

theorem found_or (found : Option Shape) (shape : Shape) : found.or (some shape) ≠ none := by
  cases found <;> nofun

/-- A step after which nothing has begun is a step over a blank or over nothing. -/
theorem found_step_eq_none (settled : start.phase ≠ .escape)
    (missing : (step start c ahead).progress.found = none) :
    start.found = none ∧ (isBlank c = true ∨ (step start c ahead).takes = false) := by
  cases quoted : start.context.quotes c with
  | true =>
      rw [step, if_neg settled, if_pos quoted, stepQuoted] at missing
      split at missing <;> exact absurd missing (found_or _ _)
  | false =>
      rw [step_of_class settled quoted, stepClass] at missing ⊢
      cases ofClass : CharClass.ofChar c with
      | blank =>
          simp only [ofClass, found_stepBlank] at missing
          exact ⟨missing, .inl (beq_iff_eq.mpr ofClass)⟩
      | word =>
          simp only [ofClass] at missing
          exact absurd missing (found_or _ _)
      | quote =>
          simp only [ofClass, stepQuote] at missing
          split at missing
          · contradiction
          · exact absurd missing (found_or _ _)
      | opener =>
          simp only [ofClass] at missing
          contradiction
      | closer =>
          simp only [ofClass, stepCloser] at missing ⊢
          split at missing
          · contradiction
          · next unpaired =>
              rw [if_neg unpaired]
              exact ⟨missing, .inr rfl⟩
      | operator =>
          simp only [ofClass, stepRootOperator] at missing
          repeat' split at missing
          all_goals contradiction
      | comma =>
          simp only [ofClass] at missing ⊢
          split at missing
          · next atRoot =>
              rw [if_pos atRoot]
              exact ⟨missing, .inr rfl⟩
          · contradiction
      | other =>
          simp only [ofClass] at missing ⊢
          exact ⟨missing, .inr rfl⟩

theorem found_step (progress : Progress) (c : Char) (ahead : Option Char)
    (found : progress.found.isSome = true) :
    (step progress c ahead).progress.found.isSome = true := by
  by_cases escaping : progress.phase = .escape
  · rw [step, if_pos escaping]
    exact found
  · refine Option.isSome_iff_ne_none.mpr fun missing => ?_
    rw [(found_step_eq_none escaping missing).1] at found
    contradiction

theorem found_run (progress : Progress) (text : List Char)
    (found : progress.found.isSome = true) :
    (run progress text).last.found.isSome = true := by
  induction text generalizing progress with
  | nil => exact found
  | cons c rest induction =>
      have kept := found_step progress c rest.head? found
      unfold run
      cases stepped : step progress c rest.head? with
      | stop last =>
          rw [stepped] at kept
          exact kept
      | go next moves =>
          rw [stepped] at kept
          exact induction next kept
      | close last moves =>
          rw [stepped] at kept
          exact kept

end PugTokens.Value
