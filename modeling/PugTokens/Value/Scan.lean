import PugTokens.Value

namespace PugTokens.Value

/-! # The scan of a value

The scan keeps the kind found so far, and answers with the one that it has at the end.  A
literal is of the kind that is asked for: a string where strings are accepted, and a script
elsewhere.  What the value is made of does not depend on that: the kind that is found is the
name of its shape, and everything else is that of the shape (`scan_eq_run`).
-/

/-- Read on from a place where a kind may have been found; `literal` is the kind that a
literal has. -/
def scanFrom (literal : Kind) (context : Context) (found : Option Kind) (phase : Phase) :
    List Char → Outcome
  | [] => ⟨found, context, if phase = .escape then [.take none, .mark] else [.mark]⟩
  | c :: rest =>
      let take (context : Context) (found : Option Kind) (phase : Phase) : Outcome :=
        (scanFrom literal context found phase rest).precededBy [.take (some c)]
      if phase = .escape then take context found .ready
      else if c = '\x5c' ∧ context.quotes c then
        take context (found.or (some literal)) .escape
      else if isWord c || context.quotes c then
        take context.settle (found.or (some .script)) phase
      else if isQuote c then
        if isTemplateQuote c then take (context.toggle c) (some .script) phase
        else take (context.toggle c) (found.or (some literal)) phase
      else if isOpener c then
        take (context.settle.enter c) (some .script) phase
      else if isCloser c then
        if some context.enclosures.top = openerOf? c then
          take context.settle.leave (some .script) phase
        else ⟨found, context.settle, [.mark]⟩
      else if isOperator c && !context.atRoot then
        take context.await (some .script) phase
      else if isRootOperator c then
        if c = ':' then
          if context.awaitsColon then take context.answer.await (some .script) phase
          else ⟨some .script, context.settle, [.mark]⟩
        else if c = '?' then take context.ask.await (some .script) phase
        else take context.await (some .script) phase
      else if isBlank c then
        let moves := (if phase = .blanks then [] else [.mark]) ++ [.take (some c)]
        if rest.head?.any isBlank then
          (scanFrom literal context found .blanks rest).precededBy moves
        else if context.pending || rest.head?.any isOperator then
          (scanFrom literal context found .ready rest).precededBy moves
        else if found.isSome && context.atRoot then
          ⟨found, context.settle, moves ++ [.mark]⟩
        else
          (scanFrom literal context.settle found .ready rest).precededBy (moves ++ [.mark])
      else ⟨found, context, [.mark]⟩

def scan (context : Context) (valid : KindSet) (view : View) : Outcome :=
  let literal : Kind := if .string ∈ valid then .string else .script
  scanFrom literal context none .ready view.unread

/-! ## The kind and the shape -/

variable {valid : KindSet} {progress : Progress} {c : Char}

/-- What a scan that ends in this progress answers with. -/
def Progress.outcome (progress : Progress) (valid : KindSet) (moves : List Move) : Outcome :=
  ⟨progress.found.map (Shape.kind valid), progress.context, moves⟩

/-- Read on from a progress, with the name of its shape. -/
def Progress.scan (progress : Progress) (valid : KindSet) (text : List Char) : Outcome :=
  scanFrom (Shape.literal.kind valid) progress.context (progress.found.map (Shape.kind valid))
    progress.phase text

/-- Do a step in front of a text and read on. -/
def Step.scan (valid : KindSet) (rest : List Char) : Step → Outcome
  | stop last => last.outcome valid [.mark]
  | go next moves => (next.scan valid rest).precededBy moves
  | close last moves => last.outcome valid moves

theorem scan_stepQuoted (settled : progress.phase ≠ .escape)
    (quoted : progress.context.quotes c = true) (valid : KindSet) (rest : List Char) :
    progress.scan valid (c :: rest) = (stepQuoted progress c).scan valid rest := by
  obtain ⟨context, found, phase⟩ := progress
  change context.quotes c = true at quoted
  rw [Progress.scan, scanFrom, stepQuoted]
  dsimp only
  rw [if_neg settled, quoted]
  by_cases backslash : c = '\x5c'
  · rw [if_pos ⟨backslash, rfl⟩, if_pos backslash]
    cases found <;> rfl
  · rw [if_neg (backslash ·.1), Bool.or_true, if_pos rfl, if_neg backslash]
    cases found <;> rfl

theorem scan_stepClass (settled : progress.phase ≠ .escape)
    (outside : progress.context.quotes c = false) (valid : KindSet) (rest : List Char) :
    progress.scan valid (c :: rest) = (stepClass progress c rest.head?).scan valid rest := by
  obtain ⟨context, found, phase⟩ := progress
  change context.quotes c = false at outside
  rw [Progress.scan, scanFrom, stepClass]
  dsimp only [stepBlank]
  rw [if_neg settled, outside, if_neg (Bool.false_ne_true ·.2), Bool.or_false]
  generalize rest.head?.any isBlank = blankAhead, rest.head?.any isOperator = operatorAhead
  -- With the class known all tests of the character are decided.
  unfold isWord isQuote isOpener isCloser isOperator isRootOperator isBlank
  cases CharClass.ofChar c with
  | word => cases found <;> rfl
  | quote =>
      rw [stepQuote]
      cases isTemplateQuote c with
      | true => rfl
      | false => cases found <;> rfl
  | opener => rfl
  | closer =>
      dsimp only [stepCloser]
      by_cases pairs : some context.enclosures.top = openerOf? c
      · rw [if_pos pairs, if_pos pairs]
        rfl
      · rw [if_neg pairs, if_neg pairs]
        rfl
  | operator =>
      dsimp only [stepRootOperator]
      cases context.atRoot with
      | false => rfl
      | true =>
          by_cases colon : c = ':'
          · rw [if_pos colon, if_pos colon]
            cases context.awaitsColon <;> rfl
          · rw [if_neg colon, if_neg colon]
            by_cases question : c = '?'
            · rw [if_pos question, if_pos question]
              rfl
            · rw [if_neg question, if_neg question]
              rfl
  | comma => cases context.atRoot <;> rfl
  | blank =>
      rw [Option.isSome_map]
      cases blankAhead with
      | true => rfl
      | false =>
          cases context.pending || operatorAhead with
          | true => rfl
          | false => cases found.isSome && context.atRoot <;> rfl
  | other => rfl

/-- The scan reads each character as the step does. -/
theorem scan_step (progress : Progress) (valid : KindSet) (c : Char) (rest : List Char) :
    progress.scan valid (c :: rest) = (step progress c rest.head?).scan valid rest := by
  unfold step
  by_cases escaped : progress.phase = .escape
  · rw [if_pos escaped, Progress.scan, scanFrom]
    exact if_pos escaped
  · rw [if_neg escaped]
    cases quoted : progress.context.quotes c with
    | true => exact scan_stepQuoted escaped quoted valid rest
    | false => exact scan_stepClass escaped quoted valid rest

/-- The scan leads through the same moves to the same context as the run of the value, and
the kind that it finds is the name of the shape. -/
theorem Progress.scan_eq_run (progress : Progress) (valid : KindSet) (text : List Char) :
    progress.scan valid text =
      (run progress text).last.outcome valid (run progress text).moves := by
  induction text generalizing progress with
  | nil => rfl
  | cons c rest induction =>
      rw [scan_step, run]
      cases step progress c rest.head? with
      | stop last => rfl
      | go next moves =>
          rw [Step.scan, induction]
          rfl
      | close last moves => rfl

theorem scan_eq_run (context : Context) (valid : KindSet) (view : View) :
    scan context valid view =
      ⟨(run { context } view.unread).last.found.map (Shape.kind valid),
        (run { context } view.unread).last.context, (run { context } view.unread).moves⟩ :=
  Progress.scan_eq_run { context } valid view.unread

end PugTokens.Value
