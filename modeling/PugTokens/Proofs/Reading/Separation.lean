import PugTokens.Proofs.Reading.Values
import PugTokens.Proofs.Value.Beginnings

namespace PugTokens

/-! # Blanks between two values

Blanks behind a complete expression belong to its token, and the next term begins
behind them, unless an operator still waits.  None should wait there, but quotes and
escapes do not answer an operator: behind a last operand that is made of them alone
the blanks do not separate, and the next term is drawn into the same token
(`Reading.scan_separated`).
-/

/-- A character with which a word, a literal or a group begins. -/
def startsTerm (c : Char) : Bool := isWord c || isQuote c || isOpener c

namespace Value

variable {start : Progress} {c : Char} {blanks : List Char} {context : Context}

theorem isBlank_of_startsTerm (term : startsTerm c = true) : isBlank c = false := by
  simp only [startsTerm, isWord, isQuote, isOpener, isBlank, Bool.or_eq_true, beq_iff_eq] at *
  rcases term with (word | quote) | opener <;> simp [*]

theorem isOperator_of_startsTerm (term : startsTerm c = true) : isOperator c = false := by
  simp only [startsTerm, isWord, isQuote, isOpener, Bool.or_eq_true, beq_iff_eq] at term
  rcases term with (word | quote) | opener <;> simp [isOperator, isRootOperator, *]

theorem step_term (settled : start.phase ≠ .escape)
    (outside : isQuote start.context.enclosures.top = false) (term : startsTerm c = true)
    (ahead : Option Char) : ∃ next, step start c ahead = .taking c next := by
  simp only [startsTerm, Bool.or_eq_true] at term
  rcases term with (word | quote) | opener
  · exact ⟨_, step_word settled outside word⟩
  · obtain ⟨next, stepped, _⟩ := step_quote settled quote ahead
    exact ⟨next, stepped⟩
  · exact ⟨_, step_opener settled outside opener ahead⟩

/-- Blanks at the root end a value in front of the next term if no operator waits.
The induction is on the run of blanks, of which the last one ends the value. -/
theorem run_blanks (blank : ∀ c ∈ blanks, isBlank c = true) (filled : blanks ≠ [])
    (settled : start.phase ≠ .escape) (atRoot : start.context.atRoot = true)
    (answered : start.context.pending = false) (found : start.found.isSome = true)
    (term : startsTerm c = true) (rest : List Char) :
    Move.textOf (run start (blanks ++ c :: rest)).moves = blanks ∧
      (run start (blanks ++ c :: rest)).last.context = start.context.settle := by
  induction blanks generalizing start with
  | nil => exact absurd rfl filled
  | cons first later induction =>
      have own := blank first List.mem_cons_self
      have outside := isQuote_top_of_atRoot atRoot
      have covered := textOf_step start first (later ++ c :: rest).head?
      rw [List.cons_append, run]
      rw [step_blank settled outside own] at covered ⊢
      cases later with
      | nil =>
          have single : (some c).any isBlank = false := isBlank_of_startsTerm term
          have alone : (start.context.pending || (some c).any isOperator) = false := by
            rw [answered, Bool.false_or]
            exact isOperator_of_startsTerm term
          have ends : (start.found.isSome && start.context.atRoot) = true := by
            rw [found, atRoot]
            rfl
          simp only [List.nil_append, List.head?_cons, stepBlank, single, alone, ends,
            Bool.false_eq_true, if_false, if_true] at covered ⊢
          exact ⟨covered, rfl⟩
      | cons second later =>
          have more : (some second).any isBlank = true := blank second (by simp)
          have blankLater : ∀ c ∈ second :: later, isBlank c = true :=
            fun c member => blank c (List.mem_cons_of_mem first member)
          have blanksNext : Phase.blanks ≠ .escape := by decide
          have settledNext : (start.enterPhase .blanks).phase ≠ .escape := blanksNext
          obtain ⟨text, same⟩ :=
            induction blankLater (by simp) settledNext atRoot answered found
          simp only [List.cons_append, List.head?_cons, stepBlank, more, if_true] at covered ⊢
          rw [← List.cons_append, Extent.moves_precededBy, Move.textOf_append, text]
          exact ⟨congrArg (· ++ second :: later) covered, same⟩

/-- Blanks are read on if an operator waits. -/
theorem reads_blanks (blank : ∀ c ∈ blanks, isBlank c = true)
    (settled : start.phase ≠ .escape)
    (outside : isQuote start.context.enclosures.top = false)
    (pending : start.context.pending = true) (rest : List Char) :
    ∃ stop, Reads start blanks rest stop ∧ stop.context = start.context ∧
      stop.phase ≠ .escape := by
  induction blanks generalizing start with
  | nil => exact ⟨start, .refl start rest, rfl, settled⟩
  | cons first later induction =>
      have held : start.context.pending = true ∨
          ∃ d, (later ++ rest).head? = some d ∧ (isRootOperator d || isBlank d) = true :=
        .inl pending
      obtain ⟨next, moves, stepped, same, settledNext⟩ := stepBlank_link (c := first) held
      rw [← step_blank settled outside (blank first List.mem_cons_self)] at stepped
      rw [← same] at outside pending ⊢
      obtain ⟨stop, reads, kept, settledStop⟩ :=
        induction (fun c member => blank c (List.mem_cons_of_mem first member)) settledNext
          outside pending
      exact ⟨stop, .step stepped reads, kept, settledStop⟩

/-- Behind an expression and blanks, in front of the next term: either the value ends
there, or it takes the next character too. -/
theorem Expression.run_blanks {text : List Char} (expression : Expression text)
    (blank : ∀ c ∈ blanks, isBlank c = true) (filled : blanks ≠ [])
    (term : startsTerm c = true) (atRoot : context.atRoot = true)
    (answered : context.pending = false) (rest : List Char) :
    let extent := Value.run { context } (text ++ (blanks ++ c :: rest))
    extent.last.found.isSome = true ∧
      (¬ EndsHollow text →
        Move.textOf extent.moves = text ++ blanks ∧ extent.last.context = context) ∧
      (EndsHollow text → ∃ more, Move.textOf extent.moves = text ++ (blanks ++ c :: more)) := by
  intro extent
  have outside := isQuote_top_of_atRoot atRoot
  obtain ⟨stop, reads, asking, found, waits⟩ := expression.reads outside (blanks ++ c :: rest)
  obtain ⟨moves, covered, same⟩ := reads.run
  change extent = _ at same
  rw [same]
  refine ⟨found_run stop _ found, ?_, ?_⟩
  · intro ends
    have still : stop.context.pending = false := by
      refine Bool.eq_false_iff.mpr fun pending => ?_
      rcases waits.mp pending with hollow | ⟨waiting, _⟩
      · exact ends hollow
      · rw [answered] at waiting
        contradiction
    obtain ⟨text, kept⟩ := Value.run_blanks blank filled asking.phase
      (asking.atRoot.trans atRoot) still found term rest
    rw [Extent.moves_precededBy, Move.textOf_append, covered, text, Extent.last_precededBy, kept]
    refine ⟨rfl, asking.context.trans ?_⟩
    obtain ⟨levels, enclosures, ternaries, pending⟩ := context
    rw [show pending = false from answered]
    rfl
  · intro ends
    rw [← asking.enclosures] at outside
    obtain ⟨next, readsBlanks, kept, settled⟩ :=
      reads_blanks blank asking.phase outside (waits.mpr (.inl ends)) (c :: rest)
    rw [← kept] at outside
    obtain ⟨after, taken⟩ := step_term settled outside term rest.head?
    obtain ⟨movesBlanks, coveredBlanks, sameBlanks⟩ := readsBlanks.run
    refine ⟨Move.textOf (Value.run after rest).moves, ?_⟩
    rw [Extent.moves_precededBy, Move.textOf_append, covered, sameBlanks,
      Extent.moves_precededBy, Move.textOf_append, coveredBlanks, Value.run, taken]
    rfl

end Value

namespace Reading

variable {reading : Reading} {before text blanks rest : List Char} {valid : KindSet} {c : Char}

/-- Outside all brackets and quotes, where no operator waits, a complete expression and
the blanks behind it are one token in front of the next term, unless the last operand
of the expression is a hollow one behind a connector: then the next term belongs to
the token too. -/
theorem scan_separated (expression : Value.Expression text)
    (blank : ∀ c ∈ blanks, isBlank c = true) (filled : blanks ≠ [])
    (term : startsTerm c = true)
    (stands : reading.Between before (text ++ (blanks ++ c :: rest)))
    (atRoot : reading.context.atRoot = true) (answered : reading.context.pending = false)
    (asked : valid.meets Kind.value = true) :
    ∃ kind span after,
      reading.scan valid = .ok (some ⟨kind, span⟩, after) ∧
        kind ∈ Kind.value ∧ span.start = .after before ∧
        (¬ Value.EndsHollow text →
          span.text reading.source = .ok (text ++ blanks) ∧
          after = { reading with position := .after (before ++ (text ++ blanks)) }) ∧
        (Value.EndsHollow text →
          ∃ more, span.text reading.source = .ok (text ++ (blanks ++ c :: more))) := by
  obtain ⟨found, separate, join⟩ :=
    expression.run_blanks blank filled term atRoot answered rest
  obtain ⟨shape, shaped⟩ := Option.isSome_iff_exists.mp found
  have scanned := stands.scan valid
  rw [stands.tokenAt_value asked shaped] at scanned
  have covered := stands.text_run { context := reading.context }
  refine ⟨shape.kind valid, _, _, scanned, (kind_mem_value valid shape).1, rfl, ?_, ?_⟩
  · intro ends
    obtain ⟨separated, kept⟩ := separate ends
    rw [separated] at covered ⊢
    exact ⟨covered, by rw [kept]⟩
  · intro ends
    obtain ⟨more, joined⟩ := join ends
    rw [joined] at covered ⊢
    exact ⟨more, covered⟩

/-- In `a+'b' c` the second term is `c`. -/
theorem scan_separated_literal :
    let text := ['a', '+', '\x27', 'b', '\x27']
    let source := text ++ ([' '] ++ 'c' :: [])
    Value.Expression text ∧ ¬ Value.EndsHollow text ∧
      ∃ kind span after,
        (ofText source).scan .value = .ok (some ⟨kind, span⟩, after) ∧
          kind ∈ Kind.value ∧ span.start = .start ∧
          (¬ Value.EndsHollow text →
            span.text source = .ok (text ++ [' ']) ∧
            after = { ofText source with position := ⟨6, 1, 6⟩ }) ∧
          (Value.EndsHollow text →
            ∃ more, span.text source = .ok (text ++ ([' '] ++ 'c' :: more))) := by
  intro text source
  have literal : Value.Literal ['\x27', 'b', '\x27'] :=
    .between (by decide) (.plain (by decide) (by decide) .nil)
  have adds : Value.Connector ['+'] :=
    ⟨List.forall_mem_singleton.mpr (by decide), '+', List.mem_cons_self, by decide⟩
  have expression : Value.Expression text :=
    ⟨[], .join (.part (.word (by decide))) adds (.operand literal.operand), by decide⟩
  have blank : ∀ c ∈ [' '], isBlank c = true := List.forall_mem_singleton.mpr (by decide)
  have term : startsTerm 'c' = true := by decide
  have ends : ¬ Value.EndsHollow text := by
    intro hollow
    have atRoot : Context.initial.atRoot = true := by decide
    obtain ⟨_, _, join⟩ := expression.run_blanks blank nofun term atRoot rfl []
    obtain ⟨more, joined⟩ := join hollow
    have separated : Move.textOf (Value.run { context := .initial } source).moves =
        text ++ [' '] := by decide
    rw [separated, List.append_right_inj] at joined
    simp at joined
  have stands := between_ofText source
  exact ⟨expression, ends,
    scan_separated expression blank nofun term stands (by decide) (by decide) (by decide)⟩

/-- In `a+'' b` there is no second term: the empty literal does not answer the `+`, and
the only token is the whole text. -/
theorem scan_hollow :
    let text := ['a', '+', '\x27', '\x27']
    let source := text ++ ([' '] ++ 'b' :: [])
    let span : Span := ⟨.start, ⟨6, 1, 6⟩⟩
    Value.Expression text ∧
      (ofText source).scan .value =
        .ok (some ⟨.script, span⟩, { ofText source with position := span.stop }) ∧
      span.text source = .ok source ∧ source ≠ text ++ [' '] := by
  intro text source span
  have empty : Value.Literal ['\x27', '\x27'] := .between (by decide) .nil
  have adds : Value.Connector ['+'] :=
    ⟨List.forall_mem_singleton.mpr (by decide), '+', List.mem_cons_self, by decide⟩
  have expression : Value.Expression text :=
    ⟨[], .join (.part (.word (by decide))) adds (.operand empty.operand), by decide⟩
  have scanned : (ofText source).tokenAt .value source =
      (some ⟨.script, span⟩, { ofText source with position := span.stop }) := by decide
  refine ⟨expression, ?_, rfl, by decide⟩
  rw [(between_ofText source).scan, scanned]

end Reading

end PugTokens
