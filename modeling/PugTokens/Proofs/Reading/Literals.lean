import PugTokens.Proofs.Reading.Separation

namespace PugTokens

/-! # Literals and what may stand in them

Between two quotes everything is text but a quote: one that differs from the innermost
quote opens a literal of its own.  So what stands between two quotes either pairs off
all quotes in it or leaves one open (`Value.literalBody_or_unclosed`), and then the second of
the two opens a further run, which the text behind it belongs to (`Reading.scan_literal`).
-/

namespace Value

/-- What may stand behind a quote without closing it, but leaves open a run in other
quotes. -/
inductive Unclosed : Char → List Char → Prop
  | innermost {quote inner : Char} {body later : List Char} :
      LiteralBody quote body → isQuote inner = true → inner ≠ quote →
      LiteralBody inner later → Unclosed quote (body ++ inner :: later)
  | deeper {quote inner : Char} {body later : List Char} :
      LiteralBody quote body → isQuote inner = true → inner ≠ quote →
      Unclosed inner later → Unclosed quote (body ++ inner :: later)

/-- What a text is behind a quote. -/
inductive Quoting (quote : Char) : List Char → Prop
  | body {text : List Char} : LiteralBody quote text → Quoting quote text
  | closed {body : List Char} (later : List Char) :
      LiteralBody quote body → Quoting quote (body ++ quote :: later)
  | unclosed {text : List Char} : Unclosed quote text → Quoting quote text

variable {start : Progress} {quote c : Char} {front body text inside blanks rest : List Char}

theorem Quoting.prepend (quoting : Quoting quote text)
    (joins : ∀ {body}, LiteralBody quote body → LiteralBody quote (front ++ body)) :
    Quoting quote (front ++ text) := by
  cases quoting with
  | body literal => exact .body (joins literal)
  | closed later literal =>
      rw [← List.append_assoc]
      exact .closed later (joins literal)
  | unclosed unclosed =>
      cases unclosed with
      | innermost literal quotation different last =>
          rw [← List.append_assoc]
          exact .unclosed (.innermost (joins literal) quotation different last)
      | deeper literal quotation different deeper =>
          rw [← List.append_assoc]
          exact .unclosed (.deeper (joins literal) quotation different deeper)

/-- The induction is on the length of the text: behind the first quote in it, and behind the
one that closes that, less of it is left. -/
theorem quoting (quote : Char) (text : List Char) (noEscape : '\x5c' ∉ text) :
    Quoting quote text := by
  induction size : text.length using Nat.strongRecOn generalizing quote text with
  | ind size induction =>
  subst size
  cases text with
  | nil => exact .body .nil
  | cons c rest =>
      have unescaped : c ≠ '\x5c' := fun same => noEscape (same ▸ List.mem_cons_self)
      have noEscapeRest : '\x5c' ∉ rest := fun member =>
        noEscape (List.mem_cons_of_mem c member)
      have shorter : rest.length < (c :: rest).length := Nat.lt_succ_self _
      cases quotation : isQuote c with
      | false =>
          have later := induction rest.length shorter quote rest noEscapeRest rfl
          have joins {body : List Char} (literal : LiteralBody quote body) :
              LiteralBody quote ([c] ++ body) := .plain quotation unescaped literal
          exact later.prepend joins
      | true =>
          by_cases same : c = quote
          · subst same
            exact .closed rest .nil
          · have nested := induction rest.length shorter c rest noEscapeRest rfl
            cases nested with
            | body literal => exact .unclosed (.innermost .nil quotation same literal)
            | unclosed deeper => exact .unclosed (.deeper .nil quotation same deeper)
            | @closed body later literal =>
                have noEscapeLater : '\x5c' ∉ later := fun member =>
                  noEscapeRest (List.mem_append_right body (List.mem_cons_of_mem c member))
                have shorterLater : later.length < (c :: (body ++ c :: later)).length := by
                  simp only [List.length_cons, List.length_append]
                  omega
                have behind := induction later.length shorterLater quote later noEscapeLater rfl
                have joins {tail : List Char} (outer : LiteralBody quote tail) :
                    LiteralBody quote (c :: (body ++ [c]) ++ tail) := by
                  have whole := LiteralBody.literal quotation same literal outer
                  simpa using whole
                have whole := behind.prepend joins
                simpa using whole

/-- What does not hold the quote that it stands behind pairs off its quotes or leaves one
open. -/
theorem literalBody_or_unclosed (own : quote ∉ text) (noEscape : '\x5c' ∉ text) :
    LiteralBody quote text ∨ Unclosed quote text := by
  cases quoting quote text noEscape with
  | body literal => exact .inl literal
  | closed later _ => exact absurd (List.mem_append_right _ List.mem_cons_self) own
  | unclosed unclosed => exact .inr unclosed

/-- A scan takes a quote that differs from the innermost one, which it opens a run with. -/
theorem reads_openQuote (quotation : isQuote quote = true) (settled : start.phase ≠ .escape)
    (different : start.context.enclosures.top ≠ quote) (rest : List Char) :
    ∃ next, Reads start [quote] rest next ∧ next.phase ≠ .escape ∧
      next.context.enclosures.top = quote := by
  obtain ⟨next, stepped, opened, settledNext, _⟩ := step_quote settled quotation rest.head?
  rw [Context.toggle, if_neg different] at opened
  exact ⟨next, .last stepped, settledNext, by rw [opened]; rfl⟩

/-- Behind a quote all is read up to a quote that opens a literal within. -/
theorem LiteralBody.reads_inner {inner : Char} (literal : LiteralBody quote body)
    (quotation : isQuote quote = true) (quotes : isQuote inner = true) (different : inner ≠ quote)
    (settled : start.phase ≠ .escape) (inside : start.context.enclosures.top = quote)
    (rest : List Char) :
    ∃ next, Reads start (body ++ [inner]) rest next ∧ next.phase ≠ .escape ∧
      next.context.enclosures.top = inner := by
  obtain ⟨middle, reads, steady, _⟩ :=
    literal.reads quotation settled inside (inner :: rest)
  have outside : middle.context.enclosures.top ≠ inner := by
    rw [steady.top, inside]
    exact different.symm
  obtain ⟨next, opens, settledNext, top⟩ := reads_openQuote quotes steady.phase outside rest
  exact ⟨next, reads.append opens, settledNext, top⟩

/-- Behind what leaves a run open the innermost quote is one that was read. -/
theorem Unclosed.reads (unclosed : Unclosed quote text) (quotation : isQuote quote = true)
    (settled : start.phase ≠ .escape) (inside : start.context.enclosures.top = quote)
    (rest : List Char) :
    ∃ stop, Reads start text rest stop ∧ stop.phase ≠ .escape ∧
      stop.context.enclosures.top ∈ text := by
  induction unclosed generalizing start with
  | @innermost quote inner body later literal quotes different last =>
      obtain ⟨next, opens, settledNext, top⟩ :=
        literal.reads_inner quotation quotes different settled inside (later ++ rest)
      obtain ⟨stop, readsLater, steadyLater, _⟩ := last.reads quotes settledNext top rest
      have reads := opens.append readsLater
      rw [List.append_assoc] at reads
      refine ⟨stop, reads, steadyLater.phase, ?_⟩
      rw [steadyLater.top, top]
      exact List.mem_append_right body List.mem_cons_self
  | @deeper quote inner body later literal quotes different _ induction =>
      obtain ⟨next, opens, settledNext, top⟩ :=
        literal.reads_inner quotation quotes different settled inside (later ++ rest)
      obtain ⟨stop, readsLater, settledStop, member⟩ := induction quotes settledNext top
      have reads := opens.append readsLater
      rw [List.append_assoc] at reads
      exact ⟨stop, reads, settledStop,
        List.mem_append_right body (List.mem_cons_of_mem inner member)⟩

theorem startsTerm_of_isWord (word : isWord c = true) : startsTerm c = true := by
  rw [startsTerm, word]
  rfl

/-- Blanks and a word are text behind a quote. -/
theorem literalBody_blanks (blank : ∀ c ∈ blanks, isBlank c = true) (word : isWord c = true) :
    LiteralBody quote (blanks ++ [c]) := by
  induction blanks with
  | nil =>
      have unescaped : c ≠ '\x5c' := fun same => absurd (same ▸ word) (by decide)
      exact .plain (isQuote_of_isWord word) unescaped .nil
  | cons first later induction =>
      have own := blank first List.mem_cons_self
      have ofClass : CharClass.ofChar first = .blank := eq_of_beq own
      have plain : isQuote first = false := by simp [isQuote, ofClass]
      have unescaped : first ≠ '\x5c' := fun same => absurd (same ▸ own) (by decide)
      exact .plain plain unescaped
        (induction fun c member => blank c (List.mem_cons_of_mem first member))

theorem found_run_quote (settled : start.phase ≠ .escape) (quotation : isQuote quote = true)
    (rest : List Char) : (run start (quote :: rest)).last.found.isSome = true := by
  obtain ⟨next, stepped, _, _, found⟩ := step_quote settled quotation rest.head?
  have kept := found_run next rest found
  rw [run, stepped]
  exact kept

section Root

variable {context : Context}

theorem top_ne_of_atRoot (atRoot : context.atRoot = true) (quotation : isQuote quote = true) :
    context.enclosures.top ≠ quote := by
  intro same
  have outside := isQuote_top_of_atRoot atRoot
  rw [same, quotation] at outside
  contradiction

/-- A literal and the blanks behind it are a value in front of a word. -/
theorem Literal.run_blanks (literal : Literal text) (blank : ∀ c ∈ blanks, isBlank c = true)
    (filled : blanks ≠ []) (word : isWord c = true) (atRoot : context.atRoot = true)
    (answered : context.pending = false) (rest : List Char) :
    let extent := run { context } (text ++ (blanks ++ c :: rest))
    Move.textOf extent.moves = text ++ blanks ∧ extent.last.context = context := by
  intro extent
  let start : Progress := { context }
  have settled : start.phase ≠ .escape := nofun
  obtain ⟨stop, reads, steady, found, waits⟩ :=
    literal.reads settled (isQuote_top_of_atRoot atRoot) (blanks ++ c :: rest)
  rw [show start.context.pending = false from answered, Bool.false_and] at waits
  have rootStop : stop.context.atRoot = true := by
    rw [Context.atRoot, steady.top]
    exact atRoot
  obtain ⟨covered, kept⟩ := Value.run_blanks blank filled steady.phase rootStop waits found
    (startsTerm_of_isWord word) rest
  obtain ⟨moves, read, same⟩ := reads.run
  change extent = _ at same
  rw [same, Extent.moves_precededBy, Move.textOf_append, read, covered,
    Extent.last_precededBy, kept]
  refine ⟨rfl, steady.context.trans ?_⟩
  obtain ⟨levels, enclosures, ternaries, pending⟩ := context
  rw [show pending = false from answered]
  rfl

/-- A quote behind what leaves a run open does not close the first run but opens another
one, in which blanks and a word are text. -/
theorem Unclosed.run_blanks (unclosed : Unclosed quote inside) (quotation : isQuote quote = true)
    (own : quote ∉ inside) (blank : ∀ c ∈ blanks, isBlank c = true) (word : isWord c = true)
    (atRoot : context.atRoot = true) (rest : List Char) :
    let text := quote :: (inside ++ [quote])
    let extent := run { context } (text ++ (blanks ++ c :: rest))
    ∃ more, Move.textOf extent.moves = text ++ (blanks ++ c :: more) := by
  intro text extent
  let start : Progress := { context }
  have settled : start.phase ≠ .escape := nofun
  obtain ⟨first, opens, settledFirst, topFirst⟩ :=
    reads_openQuote quotation settled (top_ne_of_atRoot atRoot quotation)
      (inside ++ ([quote] ++ (blanks ++ [c])) ++ rest)
  obtain ⟨middle, reads, settledMiddle, member⟩ :=
    unclosed.reads quotation settledFirst topFirst ([quote] ++ (blanks ++ [c]) ++ rest)
  have differs : middle.context.enclosures.top ≠ quote := fun same => own (same ▸ member)
  obtain ⟨next, reopens, settledNext, topNext⟩ :=
    reads_openQuote quotation settledMiddle differs (blanks ++ [c] ++ rest)
  obtain ⟨stop, readsOn, _⟩ :=
    (literalBody_blanks blank word).reads quotation settledNext topNext rest
  have whole := opens.append (reads.append (reopens.append readsOn))
  obtain ⟨moves, read, same⟩ := whole.run
  have input : text ++ (blanks ++ c :: rest) =
      [quote] ++ (inside ++ ([quote] ++ (blanks ++ [c]))) ++ rest := by simp [text]
  refine ⟨Move.textOf (run stop rest).moves, ?_⟩
  change Move.textOf (run start (text ++ (blanks ++ c :: rest))).moves = _
  rw [input, same, Extent.moves_precededBy, Move.textOf_append, read]
  simp [text]

end Root

end Value

namespace Reading

variable {reading : Reading} {before inside blanks rest : List Char} {valid : KindSet}
variable {quote c : Char}

/-- Outside all brackets and quotes, where no operator waits, a literal and the blanks behind
it are one token in front of a word, if the other quotes that stand in the literal pair off;
if they do not, the word belongs to the token too. -/
theorem scan_literal (quotation : isQuote quote = true) (own : quote ∉ inside)
    (noEscape : '\x5c' ∉ inside) (blank : ∀ c ∈ blanks, isBlank c = true)
    (filled : blanks ≠ []) (word : isWord c = true)
    (stands : reading.Between before (quote :: (inside ++ [quote]) ++ (blanks ++ c :: rest)))
    (atRoot : reading.context.atRoot = true) (answered : reading.context.pending = false)
    (asked : valid.meets Kind.value = true) :
    let text := quote :: (inside ++ [quote])
    ∃ kind span after,
      reading.scan valid = .ok (some ⟨kind, span⟩, after) ∧
        kind ∈ Kind.value ∧ span.start = .after before ∧
        (Value.LiteralBody quote inside →
          span.text reading.source = .ok (text ++ blanks) ∧
          after = { reading with position := .after (before ++ (text ++ blanks)) }) ∧
        (¬ Value.LiteralBody quote inside →
          ∃ more, span.text reading.source = .ok (text ++ (blanks ++ c :: more))) := by
  intro text
  let start : Value.Progress := { context := reading.context }
  have settled : start.phase ≠ .escape := nofun
  have found := Value.found_run_quote settled quotation (inside ++ [quote] ++ (blanks ++ c :: rest))
  obtain ⟨shape, shaped⟩ := Option.isSome_iff_exists.mp found
  have scanned := stands.scan valid
  rw [stands.tokenAt_value asked shaped] at scanned
  have covered := stands.text_run { context := reading.context }
  refine ⟨shape.kind valid, _, _, scanned, (kind_mem_value valid shape).1, rfl, ?_, ?_⟩
  · intro body
    have literal : Value.Literal text := .between quotation body
    obtain ⟨read, kept⟩ := literal.run_blanks blank filled word atRoot answered rest
    rw [read] at covered ⊢
    exact ⟨covered, by rw [kept]⟩
  · intro noBody
    have unclosed := (Value.literalBody_or_unclosed own noEscape).resolve_left noBody
    obtain ⟨more, read⟩ := unclosed.run_blanks quotation own blank word atRoot rest
    rw [read] at covered ⊢
    exact ⟨more, covered⟩

/-- In `'"a+"' b` the inner quotes pair off, and the literal is a token in front of the `b`. -/
theorem scan_literal_paired :
    let inside := ['\x22', 'a', '+', '\x22']
    let text := '\x27' :: (inside ++ ['\x27'])
    let source := text ++ ([' '] ++ 'b' :: [])
    isQuote '\x27' = true ∧ '\x27' ∉ inside ∧ '\x5c' ∉ inside ∧ isBlank ' ' = true ∧
      isWord 'b' = true ∧ Value.LiteralBody '\x27' inside ∧
      ∃ kind span, (ofText source).scan .value =
          .ok (some ⟨kind, span⟩, { ofText source with position := ⟨7, 1, 7⟩ }) ∧
        kind ∈ Kind.value ∧ span.text source = .ok (text ++ [' ']) := by
  intro inside text source
  have quotation : isQuote '\x27' = true := by decide
  have own : '\x27' ∉ inside := by decide
  have noEscape : '\x5c' ∉ inside := by decide
  have blank : isBlank ' ' = true := by decide
  have word : isWord 'b' = true := by decide
  have asked : KindSet.value.meets Kind.value = true := by decide
  have inner : Value.LiteralBody '\x22' ['a', '+'] :=
    .plain (by decide) (by decide) (.plain (by decide) (by decide) .nil)
  have body : Value.LiteralBody '\x27' inside := .literal (by decide) (by decide) inner .nil
  obtain ⟨kind, span, after, scanned, member, _, paired, _⟩ :=
    scan_literal quotation own noEscape (List.forall_mem_singleton.mpr blank) nofun word
      (between_ofText source) (by decide) rfl asked
  obtain ⟨covered, left⟩ := paired body
  rw [left] at scanned
  exact ⟨quotation, own, noEscape, blank, word, body, kind, span, scanned, member, covered⟩

/-- In `'"' b` the inner quote opens a literal of its own: the token is the whole text, and
three quotes are open behind it. -/
theorem scan_lone_quote :
    let inside := ['\x22']
    let text := '\x27' :: (inside ++ ['\x27'])
    let source := text ++ ([' '] ++ 'b' :: [])
    let span : Span := ⟨.start, ⟨5, 1, 5⟩⟩
    let left : Context := { enclosures := .ofEntries ['\x27', '\x22', '\x27'] }
    '\x27' ∉ inside ∧ '\x5c' ∉ inside ∧ isBlank ' ' = true ∧ isWord 'b' = true ∧
      (ofText source).context = .initial ∧
      (ofText source).scan .value =
        .ok (some ⟨.string, span⟩, { ofText source with position := span.stop, context := left }) ∧
      span.text source = .ok source ∧ source ≠ text ++ [' '] ∧ left.atRoot = false := by
  intro inside text source span left
  have scanned : (ofText source).tokenAt .value source =
      (some ⟨.string, span⟩,
        { ofText source with position := span.stop, context := left }) := by decide
  refine ⟨by decide, by decide, by decide, by decide, rfl, ?_, rfl, by decide, by decide⟩
  rw [(between_ofText source).scan, scanned]

end Reading

end PugTokens
