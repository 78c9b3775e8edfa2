import PugTokens.Value

namespace PugTokens.Value

/-! # One character by its class

Between escapes, what a scan does at a character is decided by the class of the
character, except that a quoted run takes all that is not a quote.
-/

variable {context : Context} {start progress last : Progress} {c : Char}
variable {ahead : Option Char} {moves : List Move}

theorem isQuote_top_of_atRoot (atRoot : context.atRoot = true) :
    isQuote context.enclosures.top = false := by
  have top : context.enclosures.top = outside := eq_of_beq atRoot
  rw [top]
  decide

theorem step_of_class (settled : start.phase ≠ .escape)
    (outside : start.context.quotes c = false) :
    step start c ahead = stepClass start c ahead := by
  rw [step, if_neg settled, outside]
  rfl

theorem quotes_of_isQuote (quotation : isQuote c = true) :
    context.quotes c = false := by
  simp [Context.quotes, quotation]

theorem quotes_of_top
    (outside : isQuote context.enclosures.top = false) (c : Char) :
    context.quotes c = false := by
  simp [Context.quotes, outside]

theorem step_quoted (settled : start.phase ≠ .escape)
    (inside : isQuote start.context.enclosures.top = true) (plain : isQuote c = false) :
    step start c ahead = stepQuoted start c := by
  rw [step, if_neg settled]
  simp [Context.quotes, inside, plain]

theorem step_quote (settled : start.phase ≠ .escape) (quotation : isQuote c = true)
    (ahead : Option Char) :
    ∃ next, step start c ahead = .taking c next ∧
      next.context = start.context.toggle c ∧ next.phase ≠ .escape ∧
      next.found.isSome = true := by
  have ofClass : CharClass.ofChar c = .quote := eq_of_beq quotation
  rw [step_of_class settled (quotes_of_isQuote quotation), stepClass, ofClass]
  dsimp only [stepQuote]
  split
  · exact ⟨_, rfl, rfl, settled, rfl⟩
  · exact ⟨_, rfl, rfl, settled, by simp [Progress.asLiteral, Progress.within]⟩

theorem step_word (settled : start.phase ≠ .escape)
    (outside : isQuote start.context.enclosures.top = false) (word : isWord c = true) :
    step start c ahead = .taking c (start.asWord.within .settle) := by
  have ofClass : CharClass.ofChar c = .word := eq_of_beq word
  rw [step_of_class settled (quotes_of_top outside c), stepClass, ofClass]

theorem step_opener (settled : start.phase ≠ .escape)
    (outside : isQuote start.context.enclosures.top = false) (opens : isOpener c = true)
    (ahead : Option Char) :
    step start c ahead = .taking c (start.asScript.within (·.settle.enter c)) := by
  have ofClass : CharClass.ofChar c = .opener := eq_of_beq opens
  rw [step_of_class settled (quotes_of_top outside c), stepClass, ofClass]

theorem step_closer (settled : start.phase ≠ .escape)
    (outside : isQuote start.context.enclosures.top = false) (closes : isCloser c = true) :
    step start c ahead = stepCloser start c := by
  have ofClass : CharClass.ofChar c = .closer := eq_of_beq closes
  rw [step_of_class settled (quotes_of_top outside c), stepClass, ofClass]

theorem step_blank (settled : start.phase ≠ .escape)
    (outside : isQuote start.context.enclosures.top = false) (blank : isBlank c = true) :
    step start c ahead = stepBlank start c ahead := by
  have ofClass : CharClass.ofChar c = .blank := eq_of_beq blank
  rw [step_of_class settled (quotes_of_top outside c), stepClass, ofClass]

theorem step_operator (settled : start.phase ≠ .escape)
    (outside : isQuote start.context.enclosures.top = false)
    (operator : isRootOperator c = true) :
    step start c ahead =
      if start.context.atRoot then stepRootOperator start c
      else .taking c (start.asScript.within .await) := by
  have ofClass : CharClass.ofChar c = .operator := eq_of_beq operator
  rw [step_of_class settled (quotes_of_top outside c), stepClass, ofClass]

theorem stop_comma (settled : start.phase ≠ .escape) (atRoot : start.context.atRoot = true)
    (ahead : Option Char) : step start ',' ahead = .stop start := by
  have ofClass : CharClass.ofChar ',' = .comma := by decide
  have outside := isQuote_top_of_atRoot atRoot
  rw [step_of_class settled (quotes_of_top outside ','), stepClass, ofClass]
  exact if_pos atRoot

/-- Only at a blank does a step depend on what lies ahead. -/
theorem step_ahead (start : Progress) (c : Char) (ahead other : Option Char) :
    step start c other = step start c ahead ∨
      step start c ahead = stepBlank start c ahead ∧
        step start c other = stepBlank start c other := by
  unfold step
  split
  · exact .inl rfl
  · split
    · exact .inl rfl
    · unfold stepClass
      cases CharClass.ofChar c with
      | blank => exact .inr ⟨rfl, rfl⟩
      | word | quote | opener | closer | operator | comma | other => exact .inl rfl

/-- Only a blank can end a value behind itself. -/
theorem blank_of_close (closed : step progress c ahead = .close last moves) :
    CharClass.ofChar c = .blank ∧ stepBlank progress c ahead = .close last moves := by
  unfold step stepQuoted at closed
  split at closed
  · contradiction
  split at closed
  · split at closed <;> contradiction
  cases ofClass : CharClass.ofChar c with
  | blank => exact ⟨rfl, by simpa only [stepClass, ofClass] using closed⟩
  | quote => simp only [stepClass, ofClass, stepQuote, Step.taking, reduceCtorEq] at closed
  | closer =>
      simp only [stepClass, ofClass, stepCloser] at closed
      split at closed <;> contradiction
  | operator =>
      simp only [stepClass, ofClass, stepRootOperator] at closed
      repeat' split at closed
      all_goals contradiction
  | comma =>
      simp only [stepClass, ofClass] at closed
      split at closed <;> contradiction
  | word | opener | other =>
      simp only [stepClass, ofClass] at closed
      contradiction

/-- What holds where a value ends behind a character: it has begun, nothing is open, and the
character is the last of some blanks with no operator behind them. -/
structure Closing (progress : Progress) (c : Char) (ahead : Option Char) (last : Progress)
    (moves : List Move) : Prop where
  blank : isBlank c = true
  begun : progress.found.isSome = true
  atRoot : progress.context.atRoot = true
  aheadNotBlank : ahead.any isBlank = false
  aheadNotOperator : ahead.any isOperator = false
  settled : last = (progress.within .settle).enterPhase .ready
  marked : ∃ front, moves = front ++ [.mark]

theorem closing_of_close (closed : step progress c ahead = .close last moves) :
    Closing progress c ahead last moves := by
  obtain ⟨ofClass, closed⟩ := blank_of_close closed
  rw [stepBlank] at closed
  dsimp only at closed
  split at closed
  · contradiction
  next notBlank =>
  split at closed
  · contradiction
  next alone =>
  split at closed
  · next begun =>
      rw [Bool.and_eq_true] at begun
      rw [Bool.or_eq_true, not_or, Bool.not_eq_true, Bool.not_eq_true] at alone
      rw [Step.close.injEq] at closed
      have blank : isBlank c = true := beq_iff_eq.mpr ofClass
      exact ⟨blank, begun.1, begun.2, Bool.eq_false_iff.mpr notBlank, alone.2, closed.1.symm,
        _, closed.2.symm⟩
  · contradiction

end PugTokens.Value
