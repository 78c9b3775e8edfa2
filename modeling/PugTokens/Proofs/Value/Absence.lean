import PugTokens.Proofs.Reading.Values
import PugTokens.Proofs.Value.Beginnings

namespace PugTokens

/-! # Where no value begins

A scan for a value may go over blanks before it knows whether there is one.  It finds
nothing only at the end of the text and in front of what belongs to no value, and then it
leaves the context as it was, but for an operator that a closing bracket answers.  A `:` at
the very beginning that no `?` waits for is all by itself a value without text
(`Value.scan_begins`).
-/

theorem Context.settle_of_pending {context : Context} (answered : context.pending = false) :
    context.settle = context := by
  obtain ⟨levels, enclosures, ternaries, pending⟩ := context
  subst answered
  rfl

/-- A closing bracket that does not pair with what is innermost. -/
def Context.rejects (context : Context) (c : Char) : Bool :=
  isCloser c && some context.enclosures.top != openerOf? c

namespace Value

/-- A text at whose beginning there is no value: outside of quotes, blanks in front of the
end of the text, of a closing bracket that does not pair, of a `,` at the root or of a
character without a class. -/
inductive Barren (context : Context) : List Char → Prop
  | empty : Barren context []
  | blanks {blanks rest : List Char} :
      isQuote context.enclosures.top = false → (∀ c ∈ blanks, isBlank c = true) →
      Boundary context rest → rest.head? ≠ some ':' → Barren context (blanks ++ rest)

/-- A text that begins with a `:` which no `?` waits for. -/
structure LoneColon (context : Context) (text : List Char) : Prop where
  first : text.head? = some ':'
  atRoot : context.atRoot = true
  unasked : context.awaitsColon = false

variable {context : Context} {start stop last : Progress} {c : Char} {ahead : Option Char}
variable {text blanks rest : List Char}

/-! ## One step -/

/-- Blanks in front of a value change nothing. -/
theorem stepBlank_unbegun (missing : start.found = none) (c : Char) (ahead : Option Char) :
    ∃ next moves, stepBlank start c ahead = .go next moves ∧ next.context = start.context ∧
      next.found = none ∧ next.phase ≠ .escape := by
  have ready : Phase.ready ≠ .escape := by decide
  have blanks : Phase.blanks ≠ .escape := by decide
  rw [stepBlank]
  dsimp only
  split
  · exact ⟨_, _, rfl, rfl, missing, blanks⟩
  · split
    · exact ⟨_, _, rfl, rfl, missing, ready⟩
    · next alone =>
        rw [Bool.or_eq_true, not_or, Bool.not_eq_true] at alone
        have unbegun : (start.found.isSome && start.context.atRoot) ≠ true := by simp [missing]
        rw [if_neg unbegun]
        exact ⟨_, _, rfl, Context.settle_of_pending alone.1, missing, ready⟩

theorem reads_unbegun (blank : ∀ c ∈ blanks, isBlank c = true) (settled : start.phase ≠ .escape)
    (outside : isQuote start.context.enclosures.top = false) (missing : start.found = none)
    (rest : List Char) :
    ∃ stop, Reads start blanks rest stop ∧ stop.context = start.context ∧
      stop.found = none ∧ stop.phase ≠ .escape := by
  induction blanks generalizing start with
  | nil => exact ⟨start, .refl start rest, rfl, missing, settled⟩
  | cons first later induction =>
      obtain ⟨next, moves, stepped, same, missingNext, settledNext⟩ :=
        stepBlank_unbegun missing first (later ++ rest).head?
      rw [← step_blank settled outside (blank first List.mem_cons_self)] at stepped
      rw [← same] at outside
      obtain ⟨stop, reads, kept, missingStop, settledStop⟩ :=
        induction (fun c member => blank c (List.mem_cons_of_mem first member)) settledNext
          outside missingNext
      exact ⟨stop, .step stepped reads, kept.trans same, missingStop, settledStop⟩

/-- Within quotes every character is the beginning of a value. -/
theorem found_quoted (settled : start.phase ≠ .escape)
    (inside : isQuote start.context.enclosures.top = true) (c : Char) (rest : List Char) :
    (run start (c :: rest)).last.found.isSome = true := by
  have begun : ∃ next, step start c rest.head? = .taking c next ∧ next.found.isSome = true := by
    cases quotation : isQuote c with
    | true =>
        obtain ⟨next, taken, _, _, found⟩ := step_quote settled quotation rest.head?
        exact ⟨next, taken, found⟩
    | false =>
        rw [step_quoted settled inside quotation, stepQuoted]
        split
        · exact ⟨_, rfl, Option.isSome_iff_ne_none.mpr (found_or _ _)⟩
        · exact ⟨_, rfl, Option.isSome_iff_ne_none.mpr (found_or _ _)⟩
  obtain ⟨next, taken, found⟩ := begun
  rw [run, taken]
  exact found_run next rest found

/-! ## Nothing -/

theorem unbegun_of_missing (missing : (run start text).last.found = none) :
    start.found = none := by
  cases begun : start.found with
  | none => rfl
  | some shape =>
      have found := found_run start text (Option.isSome_iff_exists.mpr ⟨shape, begun⟩)
      rw [missing] at found
      contradiction

theorem boundary_of_missing (settled : start.phase ≠ .escape)
    (outside : isQuote start.context.enclosures.top = false) (unbegun : start.found = none)
    (first : ∀ c, text.head? = some c → isBlank c = false)
    (missing : (run start text).last.found = none) :
    Boundary start.context text ∧ text.head? ≠ some ':' := by
  cases text with
  | nil => exact ⟨.finish, nofun⟩
  | cons c rest =>
      have idle : (step start c rest.head?).progress.found = none → _ :=
        found_step_eq_none settled
      rw [run] at missing
      cases stepped : step start c rest.head? with
      | stop last =>
          rw [stepped] at missing
          change last.found = none at missing
          rw [stop_eq stepped, found_halt] at missing
          refine ⟨boundary_of_stop settled outside stepped rest, fun colon => ?_⟩
          rw [if_pos (Option.some.inj colon)] at missing
          contradiction
      | go next moves =>
          rw [stepped] at missing idle
          rcases (idle (unbegun_of_missing missing)).2 with blank | untaken
          · rw [first c rfl] at blank
            contradiction
          · contradiction
      | close last moves =>
          have begun := (closing_of_close stepped).begun
          rw [unbegun] at begun
          contradiction

theorem barren_of_missing (missing : (run { context } text).last.found = none) :
    Barren context text := by
  cases text with
  | nil => exact .empty
  | cons c later =>
      let start : Progress := { context }
      have settled : start.phase ≠ .escape := nofun
      cases inside : isQuote context.enclosures.top with
      | true =>
          have found := found_quoted settled inside c later
          rw [missing] at found
          contradiction
      | false =>
          generalize c :: later = text at missing ⊢
          have blank : ∀ c ∈ text.takeWhile isBlank, isBlank c = true :=
            List.all_eq_true.mp List.all_takeWhile
          obtain ⟨stop, reads, same, unbegun, settledStop⟩ :=
            reads_unbegun blank settled inside rfl (text.dropWhile isBlank)
          obtain ⟨moves, _, ran⟩ := reads.run
          rw [List.takeWhile_append_dropWhile] at ran
          rw [ran] at missing
          have first : ∀ c, (text.dropWhile isBlank).head? = some c → isBlank c = false := by
            intro c highest
            have stopped := List.head?_dropWhile_not isBlank text
            rw [highest] at stopped
            simpa using stopped
          rw [show context = stop.context from same.symm] at inside ⊢
          obtain ⟨boundary, noColon⟩ :=
            boundary_of_missing settledStop inside unbegun first missing
          rw [← List.takeWhile_append_dropWhile (p := isBlank) (l := text)]
          exact .blanks inside blank boundary noColon

theorem run_boundary (boundary : Boundary stop.context rest) (noColon : rest.head? ≠ some ':')
    (settled : stop.phase ≠ .escape) (outside : isQuote stop.context.enclosures.top = false) :
    Move.textOf (run stop rest).moves = [] ∧ (run stop rest).last.found = stop.found ∧
      (run stop rest).last.context =
        if rest.head?.any stop.context.rejects then stop.context.settle else stop.context := by
  cases rest with
  | nil => exact ⟨textOf_endMoves stop, rfl, rfl⟩
  | cons c later =>
      have plain : c ≠ ':' := fun same => noColon (congrArg some same)
      have left := found_halt stop c
      rw [if_neg plain] at left
      rw [run, boundary.step_eq settled outside]
      refine ⟨rfl, left, ?_⟩
      rw [Progress.halt, if_neg plain, List.head?_cons, Option.any_some]
      cases closes : isCloser c with
      | true =>
          have rejected : stop.context.rejects c = true := by
            cases boundary with
            | closer _ unpaired => simp [Context.rejects, closes, unpaired]
            | comma => contradiction
            | colon => contradiction
            | other ofClass => simp [isCloser, ofClass] at closes
          rw [rejected]
          rfl
      | false =>
          have kept : stop.context.rejects c = false := by simp [Context.rejects, closes]
          rw [kept]
          rfl

theorem run_of_barren (barren : Barren context text) :
    ∃ rest, text = Move.textOf (run { context } text).moves ++ rest ∧
      (run { context } text).last.found = none ∧
      (run { context } text).last.context =
        if rest.head?.any context.rejects then context.settle else context := by
  cases barren with
  | empty => exact ⟨[], rfl, rfl, rfl⟩
  | @blanks blanks rest outside blank boundary noColon =>
      let start : Progress := { context }
      have settled : start.phase ≠ .escape := nofun
      obtain ⟨stop, reads, same, unbegun, settledStop⟩ :=
        reads_unbegun blank settled outside rfl rest
      obtain ⟨moves, covered, ran⟩ := reads.run
      change stop.context = context at same
      rw [← same] at outside boundary
      obtain ⟨nothing, kept, left⟩ := run_boundary boundary noColon settledStop outside
      rw [ran, Extent.moves_precededBy, Move.textOf_append, covered, nothing, List.append_nil]
      rw [same] at left
      exact ⟨rest, rfl, kept.trans unbegun, left⟩

/-- Nothing is found exactly where no value begins. -/
theorem found_eq_none_iff :
    (run { context } text).last.found = none ↔ Barren context text :=
  ⟨barren_of_missing, fun barren => (run_of_barren barren).choose_spec.2.1⟩

/-! ## A value without text -/

theorem LoneColon.run (lone : LoneColon context text) :
    (Value.run { context } text).last.found = some .script ∧
      Move.textOf (Value.run { context } text).moves = [] := by
  obtain ⟨first, atRoot, unasked⟩ := lone
  obtain ⟨rest, rfl⟩ := List.head?_eq_some_iff.mp first
  let start : Progress := { context }
  have settled : start.phase ≠ .escape := nofun
  rw [Value.run, step_colon settled atRoot]
  change context.awaitsColon = false at unasked
  rw [unasked]
  exact ⟨rfl, rfl⟩

theorem loneColon_of_untaken (found : (run { context } text).last.found.isSome = true)
    (untaken : Move.textOf (run { context } text).moves = []) : LoneColon context text := by
  cases text with
  | nil => contradiction
  | cons c rest =>
      have covered := textOf_step { context } c rest.head?
      rw [run] at found untaken
      cases stepped : step { context } c rest.head? with
      | stop last =>
          rw [stepped] at found
          change last.found.isSome = true at found
          rw [stop_eq stepped, found_halt] at found
          split at found
          · next colon =>
              subst colon
              cases boundary_of_stop (settled_of_stop stepped) (outside_of_stop stepped) stepped rest with
              | closer closes => exact absurd closes (by decide)
              | colon atRoot unasked => exact ⟨rfl, atRoot, unasked⟩
              | other ofClass => exact absurd ofClass (by decide)
          · contradiction
      | go next moves =>
          rw [stepped] at covered untaken
          rw [Extent.moves_precededBy, Move.textOf_append, List.append_eq_nil_iff] at untaken
          exact absurd (covered.symm.trans untaken.1) (List.cons_ne_nil c [])
      | close last moves =>
          rw [stepped] at covered untaken
          exact absurd (covered.symm.trans untaken) (List.cons_ne_nil c [])

/-! ## Between values -/

theorem separates_of_boundary (boundary : Boundary context (c :: rest)) : separates c = true := by
  cases boundary with
  | closer closes => simp [separates, closes]
  | comma => rfl
  | colon => rfl
  | other ofClass => simp [separates, ofClass]

theorem separates_of_barren (barren : Barren context (c :: rest)) : separates c = true := by
  generalize whole : c :: rest = text at barren
  cases barren with
  | empty => contradiction
  | @blanks blanks behind _ blank boundary _ =>
      cases blanks with
      | nil =>
          rw [List.nil_append] at whole
          rw [← whole] at boundary
          exact separates_of_boundary boundary
      | cons first later =>
          have same : c = first := (List.cons.inj whole).1
          have blankFirst := blank first List.mem_cons_self
          simp [separates, same, blankFirst]

/-- In front of a character at which a scan finds nothing, or a value without text, no value
goes on and none begins. -/
theorem separates_of_idle
    (idle : (run { context } (c :: rest)).last.found = none ∨
      Move.textOf (run { context } (c :: rest)).moves = []) : separates c = true := by
  cases found : (run { context } (c :: rest)).last.found with
  | none => exact separates_of_barren (barren_of_missing found)
  | some shape =>
      have untaken := idle.resolve_left (by rw [found]; nofun)
      have lone := loneColon_of_untaken (by rw [found]; rfl) untaken
      rw [Option.some.inj lone.first]
      rfl

end Value

/-- A scan for a value finds nothing exactly where none begins, and a value without text
exactly in front of a `:` that no `?` waits for, which is then a script.  Anywhere else it
finds a value and steps over a character at least. -/
theorem Value.scan_begins {valid : KindSet} (asked : valid.meets Kind.value = true)
    (context : Context) (view : View) :
    let outcome := PugTokens.scan context valid view
    (outcome.kind = none ↔ Barren context view.unread) ∧
      (outcome.kind.isSome = true ∧ outcome.consumed = [] ↔ LoneColon context view.unread) ∧
      (LoneColon context view.unread → outcome.kind = some .script) ∧
      (¬ Barren context view.unread → ¬ LoneColon context view.unread →
        outcome.kind.isSome = true ∧ ∃ c later, outcome.consumed = c :: later) := by
  intro outcome
  let extent := run { context } view.unread
  have same : outcome = ⟨extent.last.found.map (Shape.kind valid), extent.last.context,
    extent.moves⟩ := Reading.scan_value asked context view
  have nothing : outcome.kind = none ↔ Barren context view.unread := by
    rw [same, Option.map_eq_none_iff]
    exact found_eq_none_iff
  have found : outcome.kind.isSome = extent.last.found.isSome := by
    rw [same, Option.isSome_map]
  have empty : outcome.kind.isSome = true ∧ outcome.consumed = [] ↔
      LoneColon context view.unread := by
    constructor
    · rintro ⟨begun, untaken⟩
      rw [found] at begun
      rw [same] at untaken
      exact loneColon_of_untaken begun untaken
    · intro lone
      obtain ⟨script, untaken⟩ := lone.run
      rw [found, same]
      exact ⟨Option.isSome_iff_exists.mpr ⟨_, script⟩, untaken⟩
  refine ⟨nothing, empty, fun lone => ?_, fun fertile filled => ?_⟩
  · rw [same, lone.run.1]
    rfl
  · have begun := Option.isSome_iff_ne_none.mpr fun missing => fertile (nothing.mp missing)
    have taken : outcome.consumed ≠ [] := fun untaken => filled (empty.mp ⟨begun, untaken⟩)
    exact ⟨begun, List.exists_cons_of_ne_nil taken⟩

/-- In front of a bracket that does not pair a blank is nothing; a `:` is a value without
text, and with a blank in front of it the blank is its text. -/
theorem Value.scan_begins_colon :
    let inside : Context := { enclosures := ⟨['(']⟩ }
    let colon := PugTokens.scan .initial .value ⟨[':', 'a'], false⟩
    let blank := PugTokens.scan .initial .value ⟨[' ', ':'], false⟩
    KindSet.value.meets Kind.value = true ∧
      Barren inside [' ', ']'] ∧
      (PugTokens.scan inside .value ⟨[' ', ']'], false⟩).kind = none ∧
      LoneColon .initial [':', 'a'] ∧ colon.kind = some .script ∧ colon.consumed = [] ∧
      (¬ Barren .initial [' ', ':']) ∧ (¬ LoneColon .initial [' ', ':']) ∧
      ∃ c later, blank.consumed = c :: later := by
  intro inside colon blank
  have asked : KindSet.value.meets Kind.value = true := by decide
  have boundary : Boundary inside [']'] := .closer (by decide) (by decide)
  have barren : Barren inside [' ', ']'] :=
    .blanks (by decide) (List.forall_mem_singleton.mpr (by decide)) boundary (by decide)
  have lone : LoneColon .initial [':', 'a'] := ⟨rfl, by decide, by decide⟩
  have nothing := (scan_begins asked inside ⟨[' ', ']'], false⟩).1
  obtain ⟨_, empty, scripts, _⟩ := scan_begins asked .initial ⟨[':', 'a'], false⟩
  obtain ⟨missing, _, _, filled⟩ := scan_begins asked .initial ⟨[' ', ':'], false⟩
  have fertile : ¬ Barren .initial [' ', ':'] :=
    fun barren => absurd (missing.mpr barren) (by decide)
  have notLone : ¬ LoneColon .initial [' ', ':'] :=
    fun lone => absurd lone.first (by decide)
  exact ⟨asked, barren, nothing.mpr barren, lone, scripts lone, (empty.mpr lone).2, fertile,
    notLone, (filled fertile notLone).2⟩

end PugTokens
