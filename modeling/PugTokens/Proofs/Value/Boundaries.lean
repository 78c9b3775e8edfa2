import PugTokens.Proofs.Value.Expressions

namespace PugTokens.Value

/-! # Where a complete value ends

Outside of quotes a value ends at the end of the text, in front of a character
that can belong to no value, in front of a closing bracket that pairs with
nothing, and at the root in front of a `,` and of a `:` that nobody asked for.
Blanks are the only other way to end a value, and they belong to it.
-/

/-- A text in front of which a value that is complete ends. -/
inductive Boundary (context : Context) : List Char → Prop
  | finish : Boundary context []
  | closer {c : Char} {later : List Char} :
      isCloser c = true → some context.enclosures.top ≠ openerOf? c →
      Boundary context (c :: later)
  | comma {later : List Char} : context.atRoot = true → Boundary context (',' :: later)
  | colon {later : List Char} :
      context.atRoot = true → context.awaitsColon = false → Boundary context (':' :: later)
  | other {c : Char} {later : List Char} :
      CharClass.ofChar c = .other → Boundary context (c :: later)

variable {context : Context} {stop last : Progress} {c : Char} {ahead : Option Char}
variable {text rest later : List Char}

/-- What is at hand when a value ends in front of a boundary. -/
structure Finished (stop last : Progress) : Prop where
  context : last.context.settle = stop.context.settle
  pending : last.context.pending = true → stop.context.pending = true
  found : stop.found.isSome = true → last.found.isSome = true

theorem Finished.refl (stop : Progress) : Finished stop stop := ⟨rfl, id, id⟩

theorem Finished.of_settle (settled : last.context = stop.context.settle)
    (found : stop.found.isSome = true → last.found.isSome = true) : Finished stop last where
  context := by
    rw [settled]
    rfl
  pending := by
    intro pending
    rw [settled] at pending
    contradiction
  found := found

theorem Boundary.of_enclosures {other : Context} (boundary : Boundary context rest)
    (enclosures : other.enclosures = context.enclosures)
    (ternaries : other.ternaries = context.ternaries) : Boundary other rest := by
  have root : other.atRoot = context.atRoot := by simp only [Context.atRoot, enclosures]
  cases boundary with
  | finish => exact .finish
  | closer closes unpaired => exact .closer closes (enclosures ▸ unpaired)
  | comma atRoot => exact .comma (root.trans atRoot)
  | colon atRoot unasked =>
      refine .colon (root.trans atRoot) ?_
      simpa only [Context.awaitsColon, enclosures, ternaries] using unasked
  | other ofClass => exact .other ofClass

/-- What is left of a scan that stops in front of a character. -/
def Progress.halt (progress : Progress) (c : Char) : Progress :=
  if isCloser c then progress.within .settle
  else if c = ':' then progress.asScript.within .settle
  else progress

theorem found_halt (progress : Progress) (c : Char) :
    (progress.halt c).found = if c = ':' then some .script else progress.found := by
  rw [Progress.halt]
  split
  · next closes =>
      have notColon : c ≠ ':' := by
        rintro rfl
        exact absurd closes (by decide)
      rw [if_neg notColon]
      rfl
  · split <;> rfl

theorem finished_halt (stop : Progress) (c : Char) : Finished stop (stop.halt c) := by
  rw [Progress.halt]
  split
  · exact .of_settle rfl id
  · split
    · exact .of_settle rfl fun _ => rfl
    · exact .refl stop

theorem halt_of_other (ofClass : CharClass.ofChar c = .other) : stop.halt c = stop := by
  have notCloser : isCloser c ≠ true := by simp [isCloser, ofClass]
  have notColon : c ≠ ':' := by
    rintro rfl
    exact absurd ofClass (by decide)
  rw [Progress.halt, if_neg notCloser, if_neg notColon]

theorem Boundary.step_eq (boundary : Boundary stop.context (c :: later))
    (settled : stop.phase ≠ .escape) (outside : isQuote stop.context.enclosures.top = false)
    (ahead : Option Char) : step stop c ahead = .stop (stop.halt c) := by
  cases boundary with
  | closer closes unpaired =>
      rw [step_closer settled outside closes, stepCloser, if_neg unpaired, Progress.halt,
        if_pos closes]
  | comma atRoot => exact stop_comma settled atRoot ahead
  | colon atRoot unasked =>
      have operator : isRootOperator ':' = true := by decide
      rw [step_operator settled outside operator, if_pos atRoot, stepRootOperator, if_pos rfl,
        unasked, if_neg Bool.false_ne_true]
      rfl
  | other ofClass =>
      rw [step_of_class settled (quotes_of_top outside c), stepClass, ofClass,
        halt_of_other ofClass]

/-- Outside of quotes a scan stops in front of nothing but a boundary. -/
theorem boundary_of_stop (settled : stop.phase ≠ .escape)
    (outside : isQuote stop.context.enclosures.top = false)
    (stopped : step stop c ahead = .stop last) (later : List Char) :
    Boundary stop.context (c :: later) := by
  rw [step_of_class settled (quotes_of_top outside c), stepClass] at stopped
  cases ofClass : CharClass.ofChar c with
  | word =>
      rw [ofClass] at stopped
      contradiction
  | quote =>
      rw [ofClass] at stopped
      contradiction
  | opener =>
      rw [ofClass] at stopped
      contradiction
  | closer =>
      refine .closer (beq_iff_eq.mpr ofClass) fun pairs => ?_
      simp only [ofClass, stepCloser, if_pos pairs] at stopped
      contradiction
  | operator =>
      by_cases atRoot : stop.context.atRoot = true
      · simp only [ofClass, if_pos atRoot, stepRootOperator] at stopped
        by_cases colon : c = ':'
        · subst colon
          refine .colon atRoot (Bool.eq_false_iff.mpr fun awaited => ?_)
          rw [if_pos rfl, if_pos awaited] at stopped
          contradiction
        · rw [if_neg colon] at stopped
          split at stopped <;> contradiction
      · simp only [ofClass, if_neg atRoot] at stopped
        contradiction
  | comma =>
      by_cases atRoot : stop.context.atRoot = true
      · rw [CharClass.ofChar_eq_comma_iff.mp ofClass]
        exact .comma atRoot
      · simp only [ofClass, if_neg atRoot] at stopped
        contradiction
  | blank =>
      simp only [ofClass, stepBlank] at stopped
      repeat' split at stopped
      all_goals contradiction
  | other => exact .other ofClass

theorem settled_of_stop (stopped : step stop c ahead = .stop last) :
    stop.phase ≠ .escape := by
  intro escaping
  rw [step, if_pos escaping] at stopped
  contradiction

/-- Within quotes a scan does not stop. -/
theorem outside_of_stop (stopped : step stop c ahead = .stop last) :
    isQuote stop.context.enclosures.top = false := by
  have settled := settled_of_stop stopped
  refine Bool.eq_false_iff.mpr fun inside => ?_
  cases quotation : isQuote c with
  | true =>
      obtain ⟨next, taken, _⟩ := step_quote settled quotation ahead
      rw [taken] at stopped
      contradiction
  | false =>
      rw [step_quoted settled inside quotation, stepQuoted] at stopped
      split at stopped <;> contradiction

theorem stop_eq (stopped : step stop c ahead = .stop last) : last = stop.halt c := by
  have settled := settled_of_stop stopped
  have outside := outside_of_stop stopped
  have boundary := boundary_of_stop settled outside stopped []
  rw [boundary.step_eq settled outside, Step.stop.injEq] at stopped
  exact stopped.symm

theorem Boundary.run (boundary : Boundary stop.context rest) (settled : stop.phase ≠ .escape)
    (outside : isQuote stop.context.enclosures.top = false) :
    ∃ last, run stop rest = ⟨last, [.mark]⟩ ∧ Finished stop last := by
  cases rest with
  | nil =>
      refine ⟨stop, ?_, .refl stop⟩
      rw [Value.run, endMoves, if_neg settled]
  | cons c later =>
      refine ⟨stop.halt c, ?_, finished_halt stop c⟩
      rw [Value.run, boundary.step_eq settled outside]

/-- In front of a boundary a scan reads a complete expression and ends. -/
theorem Expression.run (expression : Expression text)
    (outside : isQuote context.enclosures.top = false) (boundary : Boundary context rest) :
    ∃ moves last, Move.textOf moves = text ∧
      Value.run { context } (text ++ rest) = ⟨last, moves ++ [.mark]⟩ ∧
      last.context.settle = context.settle ∧ last.found.isSome = true ∧
      (last.context.pending = true → EndsQuoted text) := by
  obtain ⟨stop, reads, asking, found, waits⟩ := expression.reads outside rest
  obtain ⟨moves, covered, same⟩ := reads.run
  have ternaries := congrArg Context.ternaries asking.context
  have boundaryHere := boundary.of_enclosures asking.enclosures ternaries
  rw [← asking.enclosures] at outside
  obtain ⟨last, ended, finished⟩ := boundaryHere.run asking.phase outside
  refine ⟨moves, last, covered, ?_, finished.context.trans asking.context,
    finished.found found, fun pending => ?_⟩
  · rw [same, ended]
    rfl
  · rcases waits.mp (finished.pending pending) with ends | ⟨_, operand, empty⟩
    · exact ends.endsQuoted
    · exact operand.endsQuoted empty

end PugTokens.Value
