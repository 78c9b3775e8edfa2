import PugTokens.Proofs.Lexer.Endings
import PugTokens.Proofs.Value.Absence
import PugTokens.Proofs.Value.Ternaries

namespace PugTokens

/-! # What makes a value a string

Of the characters of a value the first that is more than a blank tells what the value begins
as, and some make it a script whatever came before: template quotes, and outside of quoted
runs brackets and operators, down to a `:` in front of which the value ends.  A value is a
string if it begins as one and nothing makes it a script (`Value.scan_eq_string_iff`).
-/

namespace Value

/-! ## One character as it is read -/

/-- Read as the text of a quoted run. -/
def quoted (read : Progress × Char) : Bool := read.1.context.quotes read.2

/-- Carried along by a backslash in a quoted run. -/
def escaped (read : Progress × Char) : Bool := read.1.phase = .escape

/-- More than a blank outside of quoted runs. -/
def tells (read : Progress × Char) : Bool := quoted read || !isBlank read.2

/-- A quote that opens no template, or a backslash in a quoted run. -/
def opensLiteral (read : Progress × Char) : Bool :=
  (isQuote read.2 && !isTemplateQuote read.2) || (quoted read && read.2 == '\x5c')

def isMark (c : Char) : Bool := isOpener c || isCloser c || isOperator c

/-- A template quote that is not escaped, or a bracket or operator outside of quoted runs. -/
def spoils (read : Progress × Char) : Bool :=
  (isTemplateQuote read.2 && !escaped read) || (!quoted read && isMark read.2)

/-- What a value begins as that begins with a character. -/
def opening (read : Progress × Char) : Shape :=
  if opensLiteral read then .literal else .script

/-- What characters make of what has been found before them. -/
def verdict (before : Option Shape) (read : List (Progress × Char)) : Option Shape :=
  if read.any spoils then some .script else before.or ((read.find? tells).map opening)

variable {start last : Progress} {c : Char} {ahead : Option Char} {moves : List Move}
variable {text : List Char}

theorem verdict_nil (before : Option Shape) : verdict before [] = before :=
  before.or_none

theorem verdict_singleton (before : Option Shape) (read : Progress × Char) :
    verdict before [read] =
      if spoils read then some .script
      else before.or (if tells read then some (opening read) else none) := by
  rw [verdict, List.any_cons, List.any_nil, Bool.or_false]
  cases telling : tells read with
  | true => rw [List.find?_cons_of_pos telling, Option.map_some, if_pos rfl]
  | false =>
      have silent : ¬ tells read = true := Bool.eq_false_iff.mp telling
      rw [List.find?_cons_of_neg silent, List.find?_nil, Option.map_none,
        if_neg Bool.false_ne_true]

/-- One character after the other. -/
theorem verdict_cons (before : Option Shape) (read : Progress × Char)
    (later : List (Progress × Char)) :
    verdict before (read :: later) = verdict (verdict before [read]) later := by
  rw [verdict_singleton]
  simp only [verdict, List.any_cons, Bool.or_eq_true]
  by_cases spoiledLater : later.any spoils = true
  · rw [if_pos (.inr spoiledLater), if_pos spoiledLater]
  · rw [if_neg spoiledLater]
    by_cases spoiled : spoils read = true
    · rw [if_pos (.inl spoiled), if_pos spoiled]
      rfl
    · rw [if_neg (not_or.mpr ⟨spoiled, spoiledLater⟩), if_neg spoiled, Option.or_assoc]
      cases telling : tells read with
      | true =>
          rw [List.find?_cons_of_pos telling, if_pos rfl]
          rfl
      | false =>
          rw [List.find?_cons_of_neg (Bool.eq_false_iff.mp telling),
            if_neg Bool.false_ne_true]
          rfl

theorem isQuote_of_isTemplateQuote (template : isTemplateQuote c = true) : isQuote c = true := by
  rw [eq_of_beq template]
  decide

theorem isTemplateQuote_of_not_isQuote (plain : isQuote c = false) : isTemplateQuote c = false :=
  Bool.eq_false_iff.mpr fun template => by
    rw [isQuote_of_isTemplateQuote template] at plain
    contradiction

theorem isMark_eq_contains (c : Char) :
    isMark c =
      [CharClass.opener, .closer, .operator, .comma].contains (CharClass.ofChar c) := by
  rw [isMark, isOpener, isCloser, isOperator, isRootOperator]
  cases CharClass.ofChar c <;> rfl

theorem isMark_of_isQuote (quotation : isQuote c = true) : isMark c = false := by
  have ofClass : CharClass.ofChar c = .quote := eq_of_beq quotation
  rw [isMark_eq_contains, ofClass]
  rfl

/-! ## Steps -/

/-- A character in a quoted run is a literal's if it is a backslash, and a word's if not. -/
theorem found_stepQuoted (inside : start.context.quotes c = true) :
    (stepQuoted start c).progress.found = verdict start.found [(start, c)] := by
  have plain : isQuote c = false := by
    simp only [Context.quotes, Bool.and_eq_true, Bool.not_eq_true'] at inside
    exact inside.2
  have template := isTemplateQuote_of_not_isQuote plain
  have harmless : spoils (start, c) = false := by simp [spoils, template, quoted, inside]
  have telling : tells (start, c) = true := by simp [tells, quoted, inside]
  rw [verdict_singleton, harmless, telling, if_neg Bool.false_ne_true, if_pos rfl, opening]
  by_cases backslash : c = '\x5c'
  · have opens : opensLiteral (start, c) = true := by
      simp [opensLiteral, quoted, inside, beq_iff_eq.mpr backslash]
    rw [stepQuoted, if_pos backslash, opens]
    rfl
  · have shut : opensLiteral (start, c) = false := by simp [opensLiteral, plain, backslash]
    rw [stepQuoted, if_neg backslash, shut]
    rfl

theorem found_stepRootOperator (takes : (stepRootOperator start c).takes = true) :
    (stepRootOperator start c).progress.found = some .script := by
  rw [stepRootOperator] at takes ⊢
  split at takes
  · split at takes
    · next colon awaited =>
        rw [if_pos colon, if_pos awaited]
        rfl
    · contradiction
  · next notColon =>
      rw [if_neg notColon]
      split <;> rfl

/-- Outside of quoted runs a quote begins a literal, a mark makes a script, a word begins
one, and a blank tells nothing. -/
theorem found_stepClass (outside : start.context.quotes c = false)
    (settled : start.phase ≠ .escape) (takes : (stepClass start c ahead).takes = true) :
    (stepClass start c ahead).progress.found = verdict start.found [(start, c)] := by
  have spoiling : spoils (start, c) = (isTemplateQuote c || isMark c) := by
    simp [spoils, quoted, escaped, outside, settled]
  have telling : tells (start, c) = !isBlank c := by simp [tells, quoted, outside]
  have opens : opensLiteral (start, c) = (isQuote c && !isTemplateQuote c) := by
    simp [opensLiteral, quoted, outside]
  rw [verdict_singleton, spoiling, telling, opening, opens, isMark_eq_contains]
  rw [stepClass] at takes ⊢
  cases ofClass : CharClass.ofChar c with
  | quote =>
      have quotation : isQuote c = true := beq_iff_eq.mpr ofClass
      have notBlank : isBlank c = false := by simp [isBlank, ofClass]
      rw [quotation, notBlank, stepQuote]
      cases isTemplateQuote c <;> rfl
  | word =>
      have plain : isQuote c = false := by simp [isQuote, ofClass]
      have notBlank : isBlank c = false := by simp [isBlank, ofClass]
      rw [isTemplateQuote_of_not_isQuote plain, plain, notBlank]
      rfl
  | blank =>
      have plain : isQuote c = false := by simp [isQuote, ofClass]
      have blank : isBlank c = true := beq_iff_eq.mpr ofClass
      rw [isTemplateQuote_of_not_isQuote plain, blank]
      exact (found_stepBlank start c ahead).trans start.found.or_none.symm
  | opener =>
      rw [isTemplateQuote_of_not_isQuote (by simp [isQuote, ofClass])]
      rfl
  | closer =>
      rw [isTemplateQuote_of_not_isQuote (by simp [isQuote, ofClass])]
      simp only [ofClass, stepCloser] at takes ⊢
      split at takes
      · next pairs =>
          rw [if_pos pairs]
          rfl
      · contradiction
  | operator =>
      rw [isTemplateQuote_of_not_isQuote (by simp [isQuote, ofClass])]
      simp only [ofClass] at takes ⊢
      split at takes
      · next atRoot =>
          rw [if_pos atRoot]
          exact found_stepRootOperator takes
      · next enclosed =>
          rw [if_neg enclosed]
          rfl
  | comma =>
      rw [isTemplateQuote_of_not_isQuote (by simp [isQuote, ofClass])]
      simp only [ofClass] at takes ⊢
      split at takes
      · contradiction
      · next enclosed =>
          rw [if_neg enclosed]
          rfl
  | other =>
      rw [ofClass] at takes
      contradiction

/-- An escape stands in a quoted run of a value that has begun. -/
structure Escapes (progress : Progress) : Prop where
  quoted : EscapesQuoted progress
  begun : progress.phase = .escape → progress.found.isSome = true

theorem found_of_takes (escapes : Escapes start) (takes : (step start c ahead).takes = true) :
    (step start c ahead).progress.found = verdict start.found [(start, c)] := by
  by_cases escaping : start.phase = .escape
  · obtain ⟨shape, begun⟩ := Option.isSome_iff_exists.mp (escapes.begun escaping)
    have top := escapes.quoted escaping
    have harmless : spoils (start, c) = false := by
      cases quotation : isQuote c with
      | true => simp [spoils, escaped, escaping, isMark_of_isQuote quotation]
      | false =>
          have inside : start.context.quotes c = true := by
            simp [Context.quotes, top, quotation]
          simp [spoils, escaped, escaping, quoted, inside]
    rw [step, if_pos escaping, verdict_singleton, harmless, begun]
    exact begun
  · cases inside : start.context.quotes c with
    | true =>
        rw [step, if_neg escaping, if_pos inside]
        exact found_stepQuoted inside
    | false =>
        rw [step_of_class escaping inside] at takes ⊢
        exact found_stepClass inside escaping takes

theorem Escapes.step (escapes : Escapes start) (c : Char) (ahead : Option Char) :
    Escapes (Value.step start c ahead).progress where
  quoted := escapesQuoted_step start c ahead
  begun := by
    intro escaping
    by_cases before : start.phase = .escape
    · rw [Value.step, if_pos before]
      exact escapes.begun before
    · cases inside : start.context.quotes c with
      | true =>
          rw [Value.step, if_neg before, if_pos inside, stepQuoted]
          split <;> exact Option.isSome_iff_ne_none.mpr (found_or _ _)
      | false =>
          rw [step_of_class before inside] at escaping
          exact absurd escaping (phase_stepClass before)

/-! ## Whole values -/

/-- The induction is on the text, of which every character but the one in front of which
the scan stops has its say. -/
theorem found_run_eq (escapes : Escapes start) (text : List Char) :
    (run start text).last.found =
      if (remainder start text).head? = some ':' then some .script
      else verdict start.found (trace start text) := by
  induction text generalizing start with
  | nil => exact (verdict_nil start.found).symm
  | cons c rest induction =>
      have after := escapes.step c rest.head?
      have first : (Value.step start c rest.head?).takes = true → _ := found_of_takes escapes
      rw [run, remainder, trace]
      cases stepped : Value.step start c rest.head? with
      | stop last =>
          change last.found = if some c = some ':' then some .script else verdict start.found []
          rw [stop_eq stepped, found_halt, verdict_nil]
          simp only [Option.some.injEq]
      | go next moves =>
          rw [stepped] at after first
          have found : next.found = verdict start.found [(start, c)] := first rfl
          change (run next rest).last.found =
            if (remainder next rest).head? = some ':' then some .script
            else verdict start.found ((start, c) :: trace next rest)
          rw [verdict_cons, ← found]
          exact induction after
      | close last moves =>
          rw [stepped] at first
          have found : last.found = verdict start.found [(start, c)] := first rfl
          have noColon : rest.head? ≠ some ':' := by
            intro colon
            have calm := (closing_of_close stepped).aheadNotOperator
            rw [colon] at calm
            exact absurd calm (by decide)
          change last.found =
            if rest.head? = some ':' then some .script else verdict start.found [(start, c)]
          rw [if_neg noColon, found]

/-! ## Strings -/

theorem spoils_eq_false_iff {read : Progress × Char} :
    spoils read = false ↔
      (isTemplateQuote read.2 = true → escaped read = true) ∧
        (quoted read = false → isMark read.2 = false) := by
  rw [spoils]
  cases isTemplateQuote read.2 <;> cases escaped read <;> cases quoted read <;>
    cases isMark read.2 <;> decide

theorem verdict_eq_literal_iff {read : List (Progress × Char)} :
    verdict none read = some .literal ↔
      (∃ first, read.find? tells = some first ∧ opensLiteral first = true) ∧
        ∀ char ∈ read, spoils char = false := by
  rw [verdict, Option.none_or]
  constructor
  · intro literal
    split at literal
    · contradiction
    · next harmless =>
        obtain ⟨first, found, opens⟩ := Option.map_eq_some_iff.mp literal
        rw [opening] at opens
        split at opens
        · next literal =>
            rw [Bool.not_eq_true, List.any_eq_false] at harmless
            exact ⟨⟨first, found, literal⟩,
              fun char member => Bool.eq_false_iff.mpr (harmless char member)⟩
        · contradiction
  · rintro ⟨⟨first, found, literal⟩, harmless⟩
    have none : read.any spoils ≠ true := by
      intro spoiled
      obtain ⟨char, member, spoils⟩ := List.any_eq_true.mp spoiled
      rw [harmless char member] at spoils
      contradiction
    rw [if_neg none, found, Option.map_some, opening, if_pos literal]

theorem found_eq_literal_iff (escapes : Escapes start) (unbegun : start.found = none)
    (text : List Char) :
    (run start text).last.found = some .literal ↔
      (remainder start text).head? ≠ some ':' ∧
        (∃ first, (trace start text).find? tells = some first ∧ opensLiteral first = true) ∧
          ∀ char ∈ trace start text, spoils char = false := by
  rw [found_run_eq escapes, unbegun]
  split
  · next stops => exact ⟨nofun, fun parts => absurd stops parts.1⟩
  · next goesOn => exact verdict_eq_literal_iff.trans (and_iff_right goesOn).symm

theorem map_kind_eq_string_iff {valid : KindSet} {found : Option Shape} :
    found.map (Shape.kind valid) = some .string ↔ .string ∈ valid ∧ found = some .literal := by
  constructor
  · intro string
    obtain ⟨shape, rfl, kind⟩ := Option.map_eq_some_iff.mp string
    refine ⟨(Reading.kind_mem_value valid shape).2 kind, ?_⟩
    cases shape with
    | literal => rfl
    | script => contradiction
  · rintro ⟨strings, rfl⟩
    rw [Option.map_some, Shape.kind, if_pos strings]

/-- A scan stops in front of a `:` only if no `?` waits for it. -/
theorem remainder_eq_colon_iff (context : Context) (text : List Char) :
    (remainder { context } text).head? = some ':' ↔
      LoneColon (run { context } text).last.context (remainder { context } text) := by
  refine ⟨fun colon => ?_, LoneColon.first⟩
  obtain ⟨rest, split, ending, _⟩ := exists_ending_run { context } text
  have whole := trace_append_remainder { context } text
  rw [map_snd_trace] at whole
  obtain rfl := List.append_cancel_left (whole.trans split)
  obtain ⟨later, behind⟩ := List.head?_eq_some_iff.mp colon
  rw [behind] at ending ⊢
  cases ending with
  | closer closes => exact absurd closes (by decide)
  | colon atRoot unasked => exact ⟨rfl, atRoot, unasked⟩
  | blank _ _ _ _ notOperator => exact absurd notOperator (by decide)
  | other ofClass => exact absurd ofClass (by decide)

/-- A value is a string exactly if strings are accepted, it begins as a literal, none of its
template quotes is without an escape, none of its brackets and operators is outside of quoted
runs, and it does not end in front of a `:` that no `?` waits for; otherwise it is a
script. -/
theorem scan_eq_string_iff {valid : KindSet} (asked : valid.meets Kind.value = true)
    (context : Context) (view : View) :
    let outcome := PugTokens.scan context valid view
    let read := trace { context } view.unread
    let behind := remainder { context } view.unread
    outcome.consumed = read.map Prod.snd ∧ view.unread = outcome.consumed ++ behind ∧
      (outcome.kind = some .string ↔
        .string ∈ valid ∧
          (∃ first, read.find? tells = some first ∧ opensLiteral first = true) ∧
          (∀ char ∈ read, isTemplateQuote char.2 = true → escaped char = true) ∧
          (∀ char ∈ read, quoted char = false → isMark char.2 = false) ∧
          ¬ LoneColon outcome.context behind) ∧
      (outcome.kind ≠ some .string → outcome.kind = none ∨ outcome.kind = some .script) := by
  intro outcome read behind
  let start : Progress := { context }
  let extent := run start view.unread
  have same : outcome = ⟨extent.last.found.map (Shape.kind valid), extent.last.context,
    extent.moves⟩ := Reading.scan_value asked context view
  have consumed : outcome.consumed = read.map Prod.snd := by
    rw [same]
    exact (map_snd_trace start view.unread).symm
  have kind : outcome.kind = some .string ↔ .string ∈ valid ∧ extent.last.found = some .literal := by
    rw [same]
    exact map_kind_eq_string_iff
  have colon : behind.head? = some ':' ↔ LoneColon outcome.context behind := by
    rw [same]
    exact remainder_eq_colon_iff context view.unread
  have escapes : Escapes start := ⟨nofun, nofun⟩
  have literal := found_eq_literal_iff escapes rfl view.unread
  refine ⟨consumed, ?_, ⟨fun string => ?_, ?_⟩, fun notString => ?_⟩
  · rw [consumed]
    exact (trace_append_remainder start view.unread).symm
  · obtain ⟨strings, found⟩ := kind.mp string
    obtain ⟨noColon, begins, harmless⟩ := literal.mp found
    exact ⟨strings, begins,
      fun char member => (spoils_eq_false_iff.mp (harmless char member)).1,
      fun char member => (spoils_eq_false_iff.mp (harmless char member)).2,
      fun lone => noColon (colon.mpr lone)⟩
  · rintro ⟨strings, begins, templates, marks, noColon⟩
    have harmless : ∀ char ∈ read, spoils char = false := fun char member =>
      spoils_eq_false_iff.mpr ⟨templates char member, marks char member⟩
    exact kind.mpr ⟨strings, literal.mpr ⟨fun stops => noColon (colon.mp stops), begins, harmless⟩⟩
  · cases found : outcome.kind with
    | none => exact .inl rfl
    | some other =>
        have mapped : extent.last.found.map (Shape.kind valid) = some other :=
          (congrArg Outcome.kind same).symm.trans found
        obtain ⟨shape, _, rfl⟩ := Option.map_eq_some_iff.mp mapped
        have either := (Reading.kind_mem_value valid shape).1
        rcases List.mem_cons.mp either with isScript | isString
        · exact .inr (congrArg some isScript)
        · exact absurd (found.trans (congrArg some (List.mem_singleton.mp isString))) notString

/-- A blank, an escaped template quote and a word behind the last quote leave a string what
it is, while a template quote that is not escaped makes a script. -/
theorem scan_eq_string_iff_escape :
    let string := PugTokens.scan .initial .value
      ⟨[' ', '\x27', '\x5c', '\x60', '\x27', 'b', ')'], false⟩
    let script := PugTokens.scan .initial .value ⟨['\x27', '\x60', '\x60', '\x27'], false⟩
    KindSet.value.meets Kind.value = true ∧
      string.kind = some .string ∧
      string.consumed = [' ', '\x27', '\x5c', '\x60', '\x27', 'b'] ∧
      script.kind = some .script := by
  have asked : KindSet.value.meets Kind.value = true := by decide
  obtain ⟨consumed, _, kind, _⟩ := scan_eq_string_iff asked .initial
    ⟨[' ', '\x27', '\x5c', '\x60', '\x27', 'b', ')'], false⟩
  obtain ⟨_, _, kindScript, others⟩ := scan_eq_string_iff asked .initial
    ⟨['\x27', '\x60', '\x60', '\x27'], false⟩
  have isString := kind.mpr ⟨by decide, ⟨_, rfl, by decide⟩, by decide, by decide,
    fun lone => absurd lone.first (by decide)⟩
  have notString := mt kindScript.mp fun parts => absurd parts.2.2.1 (by decide)
  have isScript := (others notString).resolve_left (by decide)
  exact ⟨asked, isString, consumed.trans rfl, isScript⟩

end Value

end PugTokens
