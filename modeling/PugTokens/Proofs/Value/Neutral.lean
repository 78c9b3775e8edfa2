import PugTokens.Proofs.Value.Reads
import PugTokens.Proofs.Value.Steps
import PugTokens.Value.Grammar

namespace PugTokens.Value

/-! # Texts that leave nothing open

A text is neutral where it is read whole and the context after it is the one
before it, up to whether an operator waits for its operand.  Neutral texts
compose, and what quotes or brackets enclose is neutral outside of them if it
is neutral inside.  Literals and groups are neutral for that reason, by
induction over how they are made.
-/

/-- Between the two nothing was opened or closed for good. -/
structure Steady (before after : Progress) : Prop where
  context : after.context.settle = before.context.settle
  phase : after.phase ≠ .escape

/-- Wherever the innermost enclosure is one of those asked for, a scan takes the
text, whatever follows, and stays steady. -/
def Neutral (within : Char → Prop) (text : List Char) : Prop :=
  ∀ (start : Progress) (rest : List Char), start.phase ≠ .escape →
    within start.context.enclosures.top →
    ∃ stop, Reads start text rest stop ∧ Steady start stop

variable {start next middle stop : Progress} {c quote opener closer : Char}
variable {body text later rest : List Char}
variable {within : Char → Prop}

theorem Steady.refl (settled : start.phase ≠ .escape) : Steady start start :=
  ⟨rfl, settled⟩

theorem Steady.trans (first : Steady start middle) (second : Steady middle stop) :
    Steady start stop :=
  ⟨second.context.trans first.context, second.phase⟩

theorem Steady.enclosures (steady : Steady start stop) :
    stop.context.enclosures = start.context.enclosures := by
  have kept := congrArg Context.enclosures steady.context
  exact kept

theorem Steady.top (steady : Steady start stop) :
    stop.context.enclosures.top = start.context.enclosures.top :=
  congrArg Stack.top steady.enclosures

/-- What is opened, left as it is and closed is not open any more. -/
theorem Steady.enclosed (opened : next.context.settle = (start.context.enter c).settle)
    (inside : Steady next middle) (closed : stop.context.settle = middle.context.leave.settle)
    (settled : stop.phase ≠ .escape) : Steady start stop := by
  have within : middle.context.settle = (start.context.enter c).settle :=
    inside.context.trans opened
  refine ⟨?_, settled⟩
  calc stop.context.settle
      = middle.context.settle.leave := closed
    _ = (start.context.enter c).settle.leave := by rw [within]
    _ = start.context.settle := rfl

theorem Reads.taking (stepped : Value.step start c (text ++ rest).head? = .taking c next)
    (reads : Reads next text rest stop) : Reads start (c :: text) rest stop :=
  .step stepped reads

theorem Reads.last (stepped : Value.step start c rest.head? = .taking c stop) :
    Reads start [c] rest stop :=
  .step stepped (.refl stop rest)

/-! ## Composition -/

theorem Neutral.nil : Neutral within [] := fun start rest settled _ =>
  ⟨start, .refl start rest, .refl settled⟩

theorem Neutral.append (first : Neutral within text) (second : Neutral within later) :
    Neutral within (text ++ later) := by
  intro start rest settled inside
  obtain ⟨middle, reads, steady⟩ := first start (later ++ rest) settled inside
  rw [← steady.top] at inside
  obtain ⟨stop, readsLater, steadyLater⟩ := second middle rest steady.phase inside
  exact ⟨stop, reads.append readsLater, steady.trans steadyLater⟩

/-! ## Brackets -/

theorem isOpener_of_pairs (pairs : (opener, closer) ∈ CharClass.pairs) :
    isOpener opener = true := by
  have listed : opener ∈ CharClass.openers := List.mem_map_of_mem (f := Prod.fst) pairs
  simp [isOpener, CharClass.ofChar_eq_opener_iff.mpr listed]

theorem isCloser_of_pairs (pairs : (opener, closer) ∈ CharClass.pairs) :
    isCloser closer = true := by
  have listed : closer ∈ CharClass.closers := List.mem_map_of_mem (f := Prod.snd) pairs
  simp [isCloser, CharClass.ofChar_eq_closer_iff.mpr listed]

theorem openerOf?_of_pairs (pairs : (opener, closer) ∈ CharClass.pairs) :
    openerOf? closer = some opener := by
  simp only [CharClass.pairs, List.mem_cons, Prod.mk.injEq, List.not_mem_nil, or_false]
    at pairs
  rcases pairs with ⟨rfl, rfl⟩ | ⟨rfl, rfl⟩ | ⟨rfl, rfl⟩ <;> decide

theorem isQuote_of_isOpener (opens : isOpener c = true) : isQuote c = false := by
  have ofClass : CharClass.ofChar c = .opener := eq_of_beq opens
  simp [isQuote, ofClass]

/-- What is neutral between two brackets is read together with them, and no
operator waits after the second. -/
theorem Neutral.bracketed (neutral : Neutral (isOpener · = true) body)
    (pairs : (opener, closer) ∈ CharClass.pairs) (settled : start.phase ≠ .escape)
    (outside : isQuote start.context.enclosures.top = false) (rest : List Char) :
    ∃ stop, Reads start (opener :: (body ++ [closer])) rest stop ∧ Steady start stop ∧
      stop.found.isSome = true ∧ stop.context.pending = false := by
  have opening := isOpener_of_pairs pairs
  let next := start.asScript.within (·.settle.enter opener)
  obtain ⟨middle, reads, steady⟩ := neutral next ([closer] ++ rest) settled opening
  have inside : middle.context.enclosures.top = opener := steady.top
  let stop := middle.asScript.within (·.settle.leave)
  have closes : step middle closer rest.head? = .taking closer stop := by
    have unquoted : isQuote middle.context.enclosures.top = false := by
      rw [inside]
      exact isQuote_of_isOpener opening
    rw [step_closer steady.phase unquoted (isCloser_of_pairs pairs), stepCloser, inside,
      openerOf?_of_pairs pairs, if_pos rfl]
  have enclosed : Steady start stop := by
    have opened : next.context.settle = (start.context.enter opener).settle := rfl
    exact .enclosed opened steady rfl steady.phase
  have opens := step_opener settled outside opening (body ++ [closer] ++ rest).head?
  exact ⟨stop, .taking opens (reads.append (.last closes)), enclosed, rfl, rfl⟩

/-! ## Literals and groups -/

/-- What is read between two quotes is read together with them.  The quotes
themselves leave an operator waiting. -/
theorem reads_between (quotation : isQuote quote = true) (settled : start.phase ≠ .escape)
    (outside : start.context.enclosures.top ≠ quote)
    (inside : ∀ next : Progress, next.phase ≠ .escape → next.context.enclosures.top = quote →
      ∃ middle, Reads next body (quote :: rest) middle ∧ Steady next middle ∧
        middle.context.pending = (next.context.pending && hollow body)) :
    ∃ stop, Reads start (quote :: (body ++ [quote])) rest stop ∧ Steady start stop ∧
      stop.found.isSome = true ∧
      stop.context.pending = (start.context.pending && hollow body) := by
  obtain ⟨next, opens, opened, settledNext, _⟩ :=
    step_quote settled quotation (body ++ [quote] ++ rest).head?
  rw [Context.toggle, if_neg outside] at opened
  have top : next.context.enclosures.top = quote := by rw [opened]; rfl
  obtain ⟨middle, reads, steady, waits⟩ := inside next settledNext top
  rw [← steady.top] at top
  obtain ⟨stop, closes, closed, settledStop, found⟩ :=
    step_quote steady.phase quotation rest.head?
  rw [Context.toggle, if_pos top] at closed
  refine ⟨stop, .taking opens (reads.append (.last closes)), ?_, found, ?_⟩
  · exact .enclosed (congrArg Context.settle opened) steady (congrArg Context.settle closed)
      settledStop
  · rw [opened] at waits
    rw [closed]
    exact waits

theorem LiteralBody.reads (literal : LiteralBody quote body) (quotation : isQuote quote = true)
    (settled : start.phase ≠ .escape) (inside : start.context.enclosures.top = quote)
    (rest : List Char) :
    ∃ stop, Reads start body rest stop ∧ Steady start stop ∧
      stop.context.pending = (start.context.pending && hollow body) := by
  induction literal generalizing start rest with
  | nil => exact ⟨start, .refl start rest, .refl settled, (Bool.and_true _).symm⟩
  | @plain quote c later plain unescaped _ induction =>
      have quoted : isQuote start.context.enclosures.top = true := by rw [inside, quotation]
      let next := start.asWord.within .settle
      have stepped : step start c (later ++ rest).head? = .taking c next := by
        rw [step_quoted settled quoted plain, stepQuoted, if_neg unescaped]
      have settledNext : next.phase ≠ .escape := settled
      obtain ⟨stop, reads, steady, waits⟩ := induction quotation settledNext inside rest
      refine ⟨stop, .taking stepped reads, ⟨steady.context, steady.phase⟩, ?_⟩
      rw [waits, hollow_cons unescaped, plain, Bool.false_and, Bool.and_false]
      rfl
  | @escape quote c later _ induction =>
      have quoted : isQuote start.context.enclosures.top = true := by rw [inside, quotation]
      have plain : isQuote '\x5c' = false := by decide
      let escaping := start.asLiteral.enterPhase .escape
      let next := escaping.enterPhase .ready
      have slash : step start '\x5c' (c :: later ++ rest).head? = .taking '\x5c' escaping := by
        rw [step_quoted settled quoted plain, stepQuoted, if_pos rfl]
      have escaped : step escaping c (later ++ rest).head? = .taking c next := if_pos rfl
      have settledNext : next.phase ≠ .escape := nofun
      obtain ⟨stop, reads, steady, waits⟩ := induction quotation settledNext inside rest
      exact ⟨stop, .taking slash (.taking escaped reads), ⟨steady.context, steady.phase⟩, waits⟩
  | @literal quote inner body later quotes different literal _ bodyIH laterIH =>
      have outside : start.context.enclosures.top ≠ inner := by
        rw [inside]
        exact different.symm
      obtain ⟨middle, reads, steady, _, waits⟩ :=
        reads_between quotes settled outside
          fun next settledNext top => bodyIH quotes settledNext top (inner :: (later ++ rest))
      rw [← steady.top] at inside
      obtain ⟨stop, readsLater, steadyLater, waitsLater⟩ :=
        laterIH quotation steady.phase inside rest
      have joined : inner :: (body ++ inner :: later) = inner :: (body ++ [inner]) ++ later := by
        simp
      refine ⟨stop, joined ▸ reads.append readsLater, steady.trans steadyLater, ?_⟩
      rw [waitsLater, waits, literal.hollow_between quotes, Bool.and_assoc]

theorem Literal.reads (literal : Literal text) (settled : start.phase ≠ .escape)
    (outside : isQuote start.context.enclosures.top = false) (rest : List Char) :
    ∃ stop, Reads start text rest stop ∧ Steady start stop ∧ stop.found.isSome = true ∧
      stop.context.pending = (start.context.pending && hollow text) := by
  cases literal with
  | @between quote body quotation inside =>
      have different : start.context.enclosures.top ≠ quote := by
        intro same
        rw [same, quotation] at outside
        contradiction
      rw [inside.hollow_between quotation, hollow, Bool.and_true]
      exact reads_between quotation settled different
        fun next settledNext top => inside.reads quotation settledNext top (quote :: rest)

/-- A blank inside brackets never ends a value. -/
theorem stepBlank_inside (inside : start.context.atRoot = false) :
    ∃ next moves, stepBlank start c ahead = .go next moves ∧ Steady start next := by
  unfold stepBlank
  dsimp only
  rw [inside, Bool.and_false, if_neg Bool.false_ne_true]
  split
  · exact ⟨_, _, rfl, rfl, nofun⟩
  · split
    · exact ⟨_, _, rfl, rfl, nofun⟩
    · exact ⟨_, _, rfl, rfl, nofun⟩

theorem step_inside (settled : start.phase ≠ .escape)
    (inside : isOpener start.context.enclosures.top = true)
    (plain : (isWord c || isBlank c || isOperator c) = true) (ahead : Option Char) :
    ∃ next moves, step start c ahead = .go next moves ∧ Steady start next := by
  have outside := isQuote_of_isOpener inside
  have within : start.context.atRoot = false := by
    refine beq_eq_false_iff_ne.mpr fun root => ?_
    rw [root] at inside
    exact absurd inside (by decide)
  rw [Bool.or_eq_true, Bool.or_eq_true] at plain
  rcases plain with (word | blank) | operator
  · exact ⟨_, _, step_word settled outside word, rfl, settled⟩
  · rw [step_blank settled outside blank]
    exact stepBlank_inside within
  · refine ⟨start.asScript.within .await, [.take (some c)], ?_, rfl, settled⟩
    rw [step_of_class settled (quotes_of_top outside c), stepClass]
    rw [isOperator, Bool.or_eq_true] at operator
    rcases operator with root | comma
    · rw [eq_of_beq root]
      simp [within, Step.taking]
    · rw [eq_of_beq comma]
      simp [within, Step.taking]

theorem GroupBody.neutral (inside : GroupBody body) : Neutral (isOpener · = true) body := by
  induction inside with
  | nil => exact .nil
  | @plain c later plain _ induction =>
      intro start rest settled inside
      obtain ⟨next, moves, stepped, steady⟩ :=
        step_inside settled inside plain (later ++ rest).head?
      rw [← steady.top] at inside
      obtain ⟨stop, reads, steadyLater⟩ := induction next rest steady.phase inside
      exact ⟨stop, .step stepped reads, steady.trans steadyLater⟩
  | @literal text later literal _ induction =>
      refine .append ?_ induction
      intro start rest settled inside
      obtain ⟨stop, reads, steady, _⟩ :=
        literal.reads settled (isQuote_of_isOpener inside) rest
      exact ⟨stop, reads, steady⟩
  | @group opener closer body later pairs _ _ bodyIH laterIH =>
      have enclosed : Neutral (isOpener · = true) (opener :: (body ++ [closer])) := by
        intro start rest settled inside
        obtain ⟨stop, reads, steady, _⟩ :=
          bodyIH.bracketed pairs settled (isQuote_of_isOpener inside) rest
        exact ⟨stop, reads, steady⟩
      have whole := enclosed.append laterIH
      simpa using whole

end PugTokens.Value
