import PugTokens.Proofs.Value.Neutral
import PugTokens.Proofs.Value.Ternaries

namespace PugTokens

/-! # Complete expressions are read whole

Between the operands of an expression the scan meets operators and blanks.  A
blank never ends the value there: an operator stands behind it or was read
before it and waits.  A `?` is remembered and a `:` answers the last that is,
so what is remembered in the middle of an expression is what its marks up to
there leave waiting (`Asking`), and at its end nothing more than before it.
-/

namespace Context

/-- The context with some more `?` remembered, if it is one that remembers them. -/
def asking (context : Context) : Nat → Context
  | 0 => context
  | asked + 1 => if context.atRoot then (context.asking asked).ask else context

variable {context : Context}

theorem asking_inside (inside : context.atRoot = false) (asked : Nat) :
    context.asking asked = context := by
  cases asked with
  | zero => rfl
  | succ asked => simp [asking, inside]

theorem asking_succ (atRoot : context.atRoot = true) (asked : Nat) :
    context.asking (asked + 1) = (context.asking asked).ask :=
  if_pos atRoot

theorem enclosures_asking (context : Context) (asked : Nat) :
    (context.asking asked).enclosures = context.enclosures := by
  induction asked with
  | zero => rfl
  | succ asked induction =>
      unfold asking
      split
      · exact induction
      · rfl

theorem awaitsColon_asking (atRoot : context.atRoot = true) (asked : Nat) :
    (context.asking (asked + 1)).awaitsColon = true := by
  rw [asking_succ atRoot]
  exact beq_self_eq_true _

end Context

namespace Value

/-- What is remembered is what was remembered in `base` and as many `?` as are
asked. -/
structure Asking (base : Context) (asked : Nat) (progress : Progress) : Prop where
  context : progress.context.settle = (base.asking asked).settle
  phase : progress.phase ≠ .escape

/-- The text ends with the quote that closes a literal. -/
def EndsQuoted (text : List Char) : Prop :=
  ∃ before quote, text = before ++ [quote] ∧ isQuote quote = true

variable {base : Context} {asked left : Nat} {start middle stop : Progress} {c : Char}
variable {ahead : Option Char} {text link marks later rest : List Char}

theorem asking_zero (context : Context) : Asking context 0 { context } := ⟨rfl, nofun⟩

theorem Asking.enclosures (asking : Asking base asked start) :
    start.context.enclosures = base.enclosures := by
  have kept := congrArg Context.enclosures asking.context
  exact kept.trans (base.enclosures_asking asked)

theorem Asking.atRoot (asking : Asking base asked start) :
    start.context.atRoot = base.atRoot := by
  simp only [Context.atRoot, asking.enclosures]

theorem Asking.awaitsColon (asking : Asking base asked start) :
    start.context.awaitsColon = (base.asking asked).awaitsColon := by
  have kept := congrArg Context.awaitsColon asking.context
  exact kept

theorem Asking.steady (asking : Asking base asked start) (steady : Steady start stop) :
    Asking base asked stop :=
  ⟨steady.context.trans asking.context, steady.phase⟩

theorem EndsQuoted.append (ends : EndsQuoted rest) (text : List Char) :
    EndsQuoted (text ++ rest) := by
  obtain ⟨before, quote, same, quotation⟩ := ends
  exact ⟨text ++ before, quote, by rw [same, List.append_assoc], quotation⟩

/-! ## Operands -/

theorem isQuote_of_isWord (word : isWord c = true) : isQuote c = false := by
  have ofClass : CharClass.ofChar c = .word := eq_of_beq word
  simp [isQuote, ofClass]

theorem hollow_word (word : isWord c = true) (rest : List Char) : hollow (c :: rest) = false := by
  have unescaped : c ≠ '\x5c' := fun same => absurd (same ▸ word) (by decide)
  rw [hollow_cons unescaped, isQuote_of_isWord word, Bool.false_and]

theorem hollow_group (group : Group text) (rest : List Char) : hollow (text ++ rest) = false := by
  cases group with
  | @between opener closer body pairs _ =>
      have opens := isOpener_of_pairs pairs
      have unescaped : opener ≠ '\x5c' := fun same => absurd (same ▸ opens) (by decide)
      rw [List.cons_append, hollow_cons unescaped, isQuote_of_isOpener opens, Bool.false_and]

theorem Part.hollow_append (part : Part text) (rest : List Char) :
    hollow (text ++ rest) = (hollow text && hollow rest) := by
  cases part with
  | word word => rw [List.singleton_append, hollow_word word, hollow_word word, Bool.false_and]
  | literal literal =>
      cases literal with
      | between quotation inside =>
          rw [List.cons_append, List.append_assoc, List.singleton_append,
            inside.hollow_between quotation, inside.hollow_between quotation, hollow,
            Bool.and_true]
  | group group =>
      have own := hollow_group group []
      rw [List.append_nil] at own
      rw [hollow_group group, own, Bool.false_and]

/-- Behind an operand an operator waits only if one waited before it and the operand
is hollow. -/
theorem Part.reads (part : Part text) (settled : start.phase ≠ .escape)
    (outside : isQuote start.context.enclosures.top = false) (rest : List Char) :
    ∃ stop, Reads start text rest stop ∧ Steady start stop ∧ stop.found.isSome = true ∧
      stop.context.pending = (start.context.pending && hollow text) := by
  cases part with
  | word word =>
      refine ⟨start.asWord.within .settle, .last (step_word settled outside word),
        ⟨rfl, settled⟩, ?_, ?_⟩
      · simp [Progress.asWord, Progress.within]
      · rw [hollow_word word, Bool.and_false]
        rfl
  | literal literal => exact literal.reads settled outside rest
  | group group =>
      have filled := hollow_group group []
      rw [List.append_nil] at filled
      rw [filled, Bool.and_false]
      cases group with
      | between pairs inside => exact inside.neutral.bracketed pairs settled outside rest

theorem Operand.reads (operand : Operand text) (settled : start.phase ≠ .escape)
    (outside : isQuote start.context.enclosures.top = false) (rest : List Char) :
    ∃ stop, Reads start text rest stop ∧ Steady start stop ∧ stop.found.isSome = true ∧
      stop.context.pending = (start.context.pending && hollow text) := by
  induction operand generalizing start with
  | part part => exact part.reads settled outside rest
  | @append text later part _ induction =>
      obtain ⟨middle, reads, steady, _, waits⟩ := part.reads settled outside (later ++ rest)
      rw [← steady.top] at outside
      obtain ⟨stop, readsLater, steadyLater, found, waitsLater⟩ := induction steady.phase outside
      refine ⟨stop, reads.append readsLater, steady.trans steadyLater, found, ?_⟩
      rw [waitsLater, waits, part.hollow_append, Bool.and_assoc]

theorem Operand.endsQuoted (operand : Operand text) (empty : hollow text = true) :
    EndsQuoted text := by
  induction operand with
  | part part =>
      cases part with
      | word word =>
          rw [hollow_word word] at empty
          contradiction
      | literal literal =>
          cases literal with
          | @between quote body quotation _ => exact ⟨quote :: body, quote, rfl, quotation⟩
      | group group =>
          have filled := hollow_group group []
          rw [List.append_nil, empty] at filled
          contradiction
  | @append text later part _ induction =>
      rw [part.hollow_append, Bool.and_eq_true] at empty
      exact (induction empty.2).append text

/-! ## Connectors -/

/-- What one character of a connector does to the number of `?` that are asked. -/
theorem Balanced.first
    (balanced : Balanced asked ([c].filter (· ∈ ['?', ':']) ++ marks) = true) :
    ∃ left, Balanced left marks = true ∧
      (c = '?' ∧ left = asked + 1 ∨ c = ':' ∧ asked = left + 1 ∨
        c ≠ '?' ∧ c ≠ ':' ∧ left = asked) := by
  by_cases question : c = '?'
  · subst question
    exact ⟨asked + 1, balanced, .inl ⟨rfl, rfl⟩⟩
  · by_cases colon : c = ':'
    · subst colon
      have both : (asked != 0 && Balanced (asked - 1) marks) = true := balanced
      rw [Bool.and_eq_true, bne_iff_ne] at both
      exact ⟨asked - 1, both.2, .inr (.inl ⟨rfl, by omega⟩)⟩
    · have dropped : [c].filter (· ∈ ['?', ':']) = [] := by simp [question, colon]
      rw [dropped] at balanced
      exact ⟨asked, balanced, .inr (.inr ⟨question, colon, rfl⟩)⟩

/-- A scan takes the operators of a balanced expression. -/
theorem Asking.operator (asking : Asking base asked start)
    (outside : isQuote base.enclosures.top = false) (operator : isRootOperator c = true)
    (balanced : Balanced asked ([c].filter (· ∈ ['?', ':']) ++ marks) = true)
    (ahead : Option Char) :
    ∃ next left, step start c ahead = .taking c next ∧ Asking base left next ∧
      Balanced left marks = true ∧ next.context.pending = true := by
  obtain ⟨left, balancedLater, counted⟩ := Balanced.first balanced
  rw [← asking.enclosures] at outside
  rw [step_operator asking.phase outside operator, asking.atRoot]
  cases atRoot : base.atRoot with
  | false =>
      refine ⟨_, left, rfl, ⟨?_, asking.phase⟩, balancedLater, rfl⟩
      rw [base.asking_inside atRoot, ← base.asking_inside atRoot asked]
      exact asking.context
  | true =>
      rw [if_pos rfl, stepRootOperator]
      rcases counted with ⟨rfl, rfl⟩ | ⟨rfl, rfl⟩ | ⟨question, colon, rfl⟩
      · refine ⟨_, _, rfl, ⟨?_, asking.phase⟩, balancedLater, rfl⟩
        rw [Context.asking_succ atRoot]
        exact congrArg Context.ask asking.context
      · have awaited := asking.awaitsColon.trans (Context.awaitsColon_asking atRoot left)
        rw [if_pos rfl, if_pos awaited]
        refine ⟨_, left, rfl, ⟨?_, asking.phase⟩, balancedLater, rfl⟩
        have answered := congrArg Context.answer asking.context
        rw [Context.asking_succ atRoot] at answered
        exact answered
      · rw [if_neg colon, if_neg question]
        exact ⟨_, left, rfl, ⟨asking.context, asking.phase⟩, balancedLater, rfl⟩

/-- A blank does not end a value if an operator was read before it or stands
behind the run of blanks that it belongs to. -/
theorem stepBlank_link
    (held : start.context.pending = true ∨ ∃ d, ahead = some d ∧
      (isRootOperator d || isBlank d) = true) :
    ∃ next moves, stepBlank start c ahead = .go next moves ∧
      next.context = start.context ∧ next.phase ≠ .escape := by
  have blanks : Phase.blanks ≠ Phase.escape := by decide
  have ready : Phase.ready ≠ Phase.escape := by decide
  unfold stepBlank
  dsimp only
  split
  · exact ⟨_, _, rfl, rfl, blanks⟩
  · next noBlank =>
      have continues : (start.context.pending || ahead.any isOperator) = true := by
        rcases held with pending | ⟨d, rfl, member⟩
        · rw [pending, Bool.true_or]
        · have noBlankAhead : isBlank d = false := by simpa using noBlank
          rw [noBlankAhead, Bool.or_false] at member
          simp [isOperator, member]
      rw [if_pos continues]
      exact ⟨_, _, rfl, rfl, ready⟩

/-- A scan takes the connectors of a balanced expression, and then an operator waits.
The induction is on what is left of the connector, where an operator has been read or
is to come. -/
theorem Asking.connector (asking : Asking base asked start)
    (outside : isQuote base.enclosures.top = false)
    (only : ∀ c ∈ link, (isRootOperator c || isBlank c) = true)
    (held : start.context.pending = true ∨ ∃ c ∈ link, isRootOperator c = true)
    (balanced : Balanced asked (link.filter (· ∈ ['?', ':']) ++ marks) = true)
    (rest : List Char) :
    ∃ stop left, Reads start link rest stop ∧ Asking base left stop ∧
      Balanced left marks = true ∧ stop.context.pending = true := by
  induction link generalizing start asked with
  | nil =>
      have pending : start.context.pending = true := by simpa using held
      exact ⟨start, asked, .refl start rest, asking, balanced, pending⟩
  | cons c later induction =>
      have onlyLater : ∀ d ∈ later, (isRootOperator d || isBlank d) = true :=
        fun d member => only d (List.mem_cons_of_mem c member)
      have marked : (c :: later).filter (· ∈ ['?', ':']) ++ marks =
          [c].filter (· ∈ ['?', ':']) ++ (later.filter (· ∈ ['?', ':']) ++ marks) := by
        rw [← List.append_assoc, ← List.filter_append]
        rfl
      rw [marked] at balanced
      cases operator : isRootOperator c with
      | true =>
          obtain ⟨next, left, stepped, askingNext, balancedNext, pending⟩ :=
            asking.operator outside operator balanced (later ++ rest).head?
          obtain ⟨stop, last, reads, behind⟩ :=
            induction askingNext onlyLater (.inl pending) balancedNext
          exact ⟨stop, last, .taking stepped reads, behind⟩
      | false =>
          have blank : isBlank c = true := by
            simpa [operator] using only c List.mem_cons_self
          have heldLater : start.context.pending = true ∨
              ∃ d ∈ later, isRootOperator d = true := by
            refine held.imp_right fun ⟨d, member, root⟩ => ⟨d, ?_, root⟩
            rcases List.mem_cons.mp member with rfl | member
            · rw [root] at operator
              contradiction
            · exact member
          have ahead : start.context.pending = true ∨
              ∃ d, (later ++ rest).head? = some d ∧ (isRootOperator d || isBlank d) = true := by
            refine heldLater.imp_right fun ⟨d, member, _⟩ => ?_
            cases later with
            | nil => exact absurd member List.not_mem_nil
            | cons first later => exact ⟨first, rfl, onlyLater first List.mem_cons_self⟩
          obtain ⟨next, moves, stepped, same, settledNext⟩ := stepBlank_link (c := c) ahead
          have unquoted : isQuote start.context.enclosures.top = false := by
            rw [asking.enclosures]
            exact outside
          rw [← step_blank asking.phase unquoted blank] at stepped
          have unmarked : [c].filter (· ∈ ['?', ':']) = [] := by
            have question : c ≠ '?' := fun same => absurd (same ▸ operator) (by decide)
            have colon : c ≠ ':' := fun same => absurd (same ▸ operator) (by decide)
            simp [question, colon]
          rw [unmarked] at balanced
          have askingNext : Asking base asked next := ⟨same ▸ asking.context, settledNext⟩
          rw [← same] at heldLater
          obtain ⟨stop, left, reads, behind⟩ := induction askingNext onlyLater heldLater balanced
          exact ⟨stop, left, .step stepped reads, behind⟩

/-! ## Expressions -/

/-- A scan takes operands and connectors for as long as their marks are balanced by
those that follow. -/
theorem Joined.reads (joined : Joined text marks) (asking : Asking base asked start)
    (outside : isQuote base.enclosures.top = false)
    (balanced : Balanced asked (marks ++ later) = true) (rest : List Char) :
    ∃ stop left, Reads start text rest stop ∧ Asking base left stop ∧
      Balanced left later = true := by
  have unquoted : isQuote start.context.enclosures.top = false := by
    rw [asking.enclosures]
    exact outside
  induction joined generalizing start asked with
  | operand operand =>
      obtain ⟨stop, reads, steady, _⟩ := operand.reads asking.phase unquoted rest
      exact ⟨stop, asked, reads, asking.steady steady, balanced⟩
  | @join text link behind marks operand connector _ induction =>
      rw [List.append_assoc] at balanced
      obtain ⟨middle, reads, steady, _⟩ :=
        operand.reads asking.phase unquoted (link ++ behind ++ rest)
      obtain ⟨next, left, readsLink, askingNext, balancedNext, _⟩ :=
        (asking.steady steady).connector outside connector.only (.inr connector.operator) balanced
          (behind ++ rest)
      have unquotedNext : isQuote next.context.enclosures.top = false := by
        rw [askingNext.enclosures]
        exact outside
      obtain ⟨stop, last, readsBehind, askingStop⟩ :=
        induction askingNext balancedNext unquotedNext
      exact ⟨stop, last, reads.append (readsLink.append readsBehind), askingStop⟩

/-- What is joined is one operand or ends with one behind a connector. -/
theorem Joined.cases_last (joined : Joined text marks) :
    (Operand text ∧ marks = []) ∨
      ∃ front link last frontMarks, text = front ++ (link ++ last) ∧
        marks = frontMarks ++ link.filter (· ∈ ['?', ':']) ∧
        Joined front frontMarks ∧ Connector link ∧ Operand last := by
  induction joined with
  | operand operand => exact .inl ⟨operand, rfl⟩
  | @join text link rest marks operand connector _ induction =>
      refine .inr ?_
      rcases induction with ⟨last, rfl⟩ | ⟨front, inner, last, frontMarks, rfl, rfl, joined, parts⟩
      · exact ⟨text, link, rest, [], rfl, List.append_nil _, .operand operand, connector, last⟩
      · exact ⟨text ++ (link ++ front), inner, last, _, by simp, (List.append_assoc ..).symm,
          .join operand connector joined, parts⟩

/-- Behind a connector an operator waits, and then it waits behind the last operand
exactly if that is hollow. -/
theorem Joined.reads_last {front last : List Char} (joined : Joined front marks)
    (connector : Connector link) (operand : Operand last)
    (outside : isQuote base.enclosures.top = false)
    (balanced : Balanced 0 (marks ++ link.filter (· ∈ ['?', ':'])) = true) (rest : List Char) :
    ∃ stop, Reads { context := base } (front ++ (link ++ last)) rest stop ∧
      Asking base 0 stop ∧ stop.found.isSome = true ∧
      stop.context.pending = hollow last := by
  obtain ⟨middle, left, reads, askingMiddle, balancedMiddle⟩ :=
    joined.reads (asking_zero base) outside balanced (link ++ last ++ rest)
  rw [← List.append_nil (link.filter _)] at balancedMiddle
  obtain ⟨next, none, readsLink, askingNext, balancedNext, pending⟩ :=
    askingMiddle.connector outside connector.only (.inr connector.operator) balancedMiddle
      (last ++ rest)
  have zero : none = 0 := eq_of_beq balancedNext
  subst zero
  have unquoted : isQuote next.context.enclosures.top = false := by
    rw [askingNext.enclosures]
    exact outside
  obtain ⟨stop, readsLast, steady, found, waits⟩ :=
    operand.reads askingNext.phase unquoted rest
  refine ⟨stop, reads.append (readsLink.append readsLast), askingNext.steady steady, found, ?_⟩
  rw [waits, pending, Bool.true_and]

theorem EndsHollow.endsQuoted (ends : EndsHollow text) : EndsQuoted text := by
  obtain ⟨front, link, last, _, rfl, _, _, operand, _, empty⟩ := ends
  exact ((operand.endsQuoted empty).append link).append front

/-- A scan takes an expression.  An operator waits behind it if its last operand is
hollow and an operator stands before that, in the expression or in front of it. -/
theorem Expression.reads (expression : Expression text)
    (outside : isQuote base.enclosures.top = false) (rest : List Char) :
    ∃ stop, Reads { context := base } text rest stop ∧ Asking base 0 stop ∧
      stop.found.isSome = true ∧
      (stop.context.pending = true ↔
        EndsHollow text ∨ base.pending = true ∧ Operand text ∧ hollow text = true) := by
  have whole : ∃ stop, Reads { context := base } text rest stop ∧ Asking base 0 stop ∧
      stop.found.isSome = true ∧ (stop.context.pending = true →
        EndsHollow text ∨ base.pending = true ∧ Operand text ∧ hollow text = true) := by
    obtain ⟨marks, joined, balanced⟩ := expression
    rcases joined.cases_last with ⟨operand, _⟩ |
      ⟨front, link, last, frontMarks, rfl, rfl, joinedFront, connector, operand⟩
    · obtain ⟨stop, reads, steady, found, waits⟩ :=
        operand.reads (asking_zero base).phase outside rest
      refine ⟨stop, reads, (asking_zero base).steady steady, found, fun pending => .inr ?_⟩
      rw [pending] at waits
      have both := Bool.and_eq_true_iff.mp waits.symm
      exact ⟨both.1, operand, both.2⟩
    · obtain ⟨stop, reads, asking, found, waits⟩ :=
        joinedFront.reads_last connector operand outside balanced rest
      refine ⟨stop, reads, asking, found, fun pending => .inl ?_⟩
      exact ⟨front, link, last, frontMarks, rfl, joinedFront, connector, operand, balanced,
        waits ▸ pending⟩
  obtain ⟨stop, reads, asking, found, forward⟩ := whole
  refine ⟨stop, reads, asking, found, forward, ?_⟩
  -- However the text is split into operands, it is read in one way only.
  rintro (⟨front, link, last, marks, rfl, joined, connector, operand, balanced, empty⟩ |
    ⟨pending, operand, empty⟩)
  · obtain ⟨other, readsOther, _, _, waits⟩ :=
      joined.reads_last connector operand outside balanced rest
    rw [reads.unique readsOther, waits, empty]
  · obtain ⟨other, readsOther, _, _, waits⟩ :=
      operand.reads (asking_zero base).phase outside rest
    rw [reads.unique readsOther, waits, empty, Bool.and_true]
    exact pending

end Value

end PugTokens
