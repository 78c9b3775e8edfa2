import PugTokens.Proofs.Value.Commas
import PugTokens.Proofs.Value.Shapes

namespace PugTokens

/-! # A value is found again in its own text

A scan looks one character ahead only at blanks, and behind the last of some blanks it
goes on as at the end of the text, whatever comes next.  So a value that is scanned by
itself is taken whole, as the same kind, and leaves the same context.  Only a closing
bracket in front of which the value has ended makes a difference: it has answered the
operator that waits (`Reading.scan_alone`).
-/

namespace Value

variable {start next last : Progress} {c : Char} {ahead other : Option Char}
variable {moves : List Move} {text taken rest : List Char}

/-! ## One step -/

theorem takes_stepBlank (start : Progress) (c : Char) (ahead : Option Char) :
    (stepBlank start c ahead).takes = true := by
  rw [stepBlank]
  dsimp only
  repeat' split
  all_goals rfl

/-- In front of anything but a blank a step leads to the same progress. -/
theorem step_agree (start : Progress) (c : Char) (lone : ahead.any isBlank = false)
    (loneToo : other.any isBlank = false) :
    (step start c other).takes = (step start c ahead).takes ∧
      (step start c other).progress = (step start c ahead).progress := by
  rcases step_ahead start c ahead other with same | ⟨first, second⟩
  · rw [same]
    exact ⟨rfl, rfl⟩
  · rw [first, second, takes_stepBlank, takes_stepBlank, progress_stepBlank lone,
      progress_stepBlank loneToo]
    exact ⟨rfl, rfl⟩

theorem Boundary.any_isBlank {context : Context} (boundary : Boundary context rest) :
    rest.head?.any isBlank = false := by
  cases boundary with
  | finish => rfl
  | comma => rfl
  | colon => rfl
  | @closer c _ closes =>
      have ofClass : CharClass.ofChar c = .closer := eq_of_beq closes
      simp [isBlank, ofClass]
  | other ofClass => simp [isBlank, ofClass]

/-- Where a scan takes nothing there is no blank. -/
theorem any_isBlank_of_untaken (untaken : Move.textOf (run start rest).moves = []) :
    rest.head?.any isBlank = false := by
  cases rest with
  | nil => rfl
  | cons c rest =>
      have covered := textOf_step start c rest.head?
      rw [run] at untaken
      cases stepped : step start c rest.head? with
      | stop last =>
          have boundary :=
            boundary_of_stop (settled_of_stop stepped) (outside_of_stop stepped) stepped rest
          exact boundary.any_isBlank
      | go next moves =>
          rw [stepped] at covered untaken
          rw [Extent.moves_precededBy, Move.textOf_append, List.append_eq_nil_iff] at untaken
          exact absurd (covered.symm.trans untaken.1) (List.cons_ne_nil c [])
      | close last moves =>
          rw [stepped] at covered untaken
          exact absurd (covered.symm.trans untaken) (List.cons_ne_nil c [])

/-! ## Whole values -/

/-- A character that is taken is taken by itself too, and leads to the same progress. -/
theorem run_single (start : Progress) (lone : ahead.any isBlank = false)
    (takes : (step start c ahead).takes = true) :
    Move.textOf (run start [c]).moves = [c] ∧
      (run start [c]).last = (step start c ahead).progress := by
  obtain ⟨takesAlone, same⟩ : (step start c none).takes = _ ∧ _ = (step start c ahead).progress :=
    step_agree start c lone rfl
  have covered := textOf_step start c none
  rw [takesAlone, takes, if_pos rfl] at covered
  rw [takes] at takesAlone
  rw [← same]
  refine ⟨?_, (run_singleton start c).1⟩
  rw [run, List.head?_nil]
  cases stepped : step start c none with
  | stop last =>
      rw [stepped] at takesAlone
      contradiction
  | go next moves =>
      rw [stepped] at covered
      change Move.textOf (moves ++ endMoves next) = [c]
      rw [Move.textOf_append, textOf_endMoves, List.append_nil]
      exact covered
  | close last moves =>
      rw [stepped] at covered
      exact covered

/-- A value that goes on behind a character goes on behind it alone. -/
theorem run_cons (stepped : step start c rest.head? = .go next moves)
    (split : rest = taken ++ text) (lone : taken = [] → rest.head?.any isBlank = false) :
    Move.textOf (run start (c :: taken)).moves = c :: Move.textOf (run next taken).moves ∧
      (run start (c :: taken)).last = (run next taken).last := by
  have covered := textOf_step start c rest.head?
  cases taken with
  | nil =>
      have takes : (step start c rest.head?).takes = true := by rw [stepped]; rfl
      obtain ⟨read, same⟩ := run_single start (lone rfl) takes
      rw [stepped] at same
      rw [read, same, run, textOf_endMoves]
      exact ⟨rfl, rfl⟩
  | cons d taken =>
      have first : rest.head? = (d :: taken).head? := by rw [split]; rfl
      rw [first] at stepped covered
      rw [stepped] at covered
      rw [run, stepped, Extent.moves_precededBy, Move.textOf_append]
      exact ⟨congrArg (· ++ _) covered, rfl⟩

/-- The induction is on the text, of which only the last character that is taken has another
one ahead of it. -/
theorem run_alone (noColon : (remainder start text).head? ≠ some ':') :
    let taken := Move.textOf (run start text).moves
    let alone := run start taken
    Move.textOf alone.moves = taken ∧ (run start text).last.found = alone.last.found ∧
      (run start text).last.context =
        if (remainder start text).head?.any alone.last.context.rejects
        then alone.last.context.settle else alone.last.context := by
  induction text generalizing start with
  | nil =>
      have untaken : Move.textOf (run start []).moves = [] := textOf_endMoves start
      dsimp only
      rw [untaken]
      exact ⟨untaken, rfl, rfl⟩
  | cons c rest induction =>
      have covered := textOf_step start c rest.head?
      dsimp only
      cases stepped : step start c rest.head? with
      | stop last =>
          have settled := settled_of_stop stepped
          have outside := outside_of_stop stepped
          have left : remainder start (c :: rest) = c :: rest := by rw [remainder, stepped]
          rw [left] at noColon ⊢
          have boundary := boundary_of_stop settled outside stepped rest
          obtain ⟨untaken, found, context⟩ := run_boundary boundary noColon settled outside
          rw [untaken]
          exact ⟨textOf_endMoves start, found, context⟩
      | go next moves =>
          rw [stepped] at covered
          change Move.textOf moves = [c] at covered
          have left : remainder start (c :: rest) = remainder next rest := by
            rw [remainder, stepped]
          have ran : run start (c :: rest) = (run next rest).precededBy moves := by
            rw [run, stepped]
          rw [left] at noColon ⊢
          obtain ⟨taken, found, context⟩ := induction noColon
          have behind := trace_append_remainder next rest
          rw [map_snd_trace] at behind
          obtain ⟨covers, same⟩ := run_cons stepped behind.symm any_isBlank_of_untaken
          rw [ran, Extent.moves_precededBy, Move.textOf_append, covered, Extent.last_precededBy]
          rw [List.singleton_append, covers, same, taken]
          exact ⟨rfl, found, context⟩
      | close last moves =>
          have closing := closing_of_close stepped
          rw [stepped] at covered
          change Move.textOf moves = [c] at covered
          have takes : (step start c rest.head?).takes = true := by rw [stepped]; rfl
          obtain ⟨read, same⟩ := run_single start closing.aheadNotBlank takes
          rw [stepped] at same
          change (run start [c]).last = last at same
          have ran : run start (c :: rest) = ⟨last, moves⟩ := by rw [run, stepped]
          have answered : last.context.pending = false := by
            rw [closing.settled]
            rfl
          rw [ran, covered, same]
          refine ⟨read, rfl, ?_⟩
          rw [Context.settle_of_pending answered, ite_self]

end Value

namespace Reading

variable {reading after : Reading} {before rest : List Char} {valid : KindSet} {kind : Kind}
variable {span : Span}

/-- The text of a value that did not end in front of a `:` which no `?` waits for, scanned in
the same context with nothing behind it, is a value of the same kind, all of the text.  It
leaves the same context, but for an operator that a closing bracket behind the value has
answered. -/
theorem scan_alone (asked : valid.meets Kind.value = true)
    (stands : reading.Between before rest)
    (found : reading.scan valid = .ok (some ⟨kind, span⟩, after)) :
    ∃ text later, rest = text ++ later ∧ span.text reading.source = .ok text ∧
      after.Between (before ++ text) later ∧
      (¬ Value.LoneColon after.context later →
        ∃ last, Reading.scan { source := text, context := reading.context } valid =
            .ok (some ⟨kind, ⟨.start, .after text⟩⟩, last) ∧
          after.context =
            if later.head?.any last.context.rejects then last.context.settle
            else last.context) := by
  rw [stands.scan, Except.ok.injEq] at found
  let start : Value.Progress := { context := reading.context }
  let text := Move.textOf (Value.run start rest).moves
  let later := Value.remainder start rest
  have split : text ++ later = rest := by
    have whole := Value.trace_append_remainder start rest
    rwa [Value.map_snd_trace] at whole
  cases shaped : (Value.run start rest).last.found with
  | none =>
      rw [tokenAt_value_none asked shaped] at found
      cases found
  | some shape =>
      rw [stands.tokenAt_value asked shaped] at found
      cases found
      have covered : Span.text reading.source ⟨.after before, .after (before ++ text)⟩ = .ok text :=
        stands.text_run start
      rw [← split] at stands
      refine ⟨text, later, split.symm, covered, stands.behind _, fun paired => ?_⟩
      have noColon : later.head? ≠ some ':' := fun colon =>
        paired ((Value.remainder_eq_colon_iff reading.context rest).mp colon)
      obtain ⟨whole, same, context⟩ := Value.run_alone noColon
      let alone : Reading := { source := text, context := reading.context }
      have standsAlone : alone.Between [] text := ⟨rfl, rfl⟩
      have read : Move.textOf (Value.run { context := alone.context } text).moves = text := whole
      have token := standsAlone.tokenAt_value asked (same.symm.trans shaped)
      dsimp only at token
      rw [read, List.nil_append] at token
      exact ⟨_, (standsAlone.scan valid).trans (congrArg Except.ok token), context⟩

/-- The `)` behind `a+ ` answers the `+`, which goes on waiting where nothing follows. -/
theorem scan_alone_waiting :
    let source := ['a', '+', ' ', ')']
    let text := ['a', '+', ' ']
    let span : Span := ⟨.start, ⟨3, 1, 3⟩⟩
    let waiting : Context := { pending := true }
    KindSet.value.meets Kind.value = true ∧
      (ofText source).scan .value =
        .ok (some ⟨.script, span⟩, { ofText source with position := span.stop }) ∧
      (¬ Value.LoneColon .initial [')']) ∧
      (ofText text).scan .value =
        .ok (some ⟨.script, span⟩, ⟨text, span.stop, waiting⟩) ∧
      (ofText source).context =
        if [')'].head?.any waiting.rejects then waiting.settle else waiting := by
  intro source text span waiting
  have asked : KindSet.value.meets Kind.value = true := by decide
  have paired : ¬ Value.LoneColon .initial [')'] := fun lone => absurd lone.first (by decide)
  have found : (ofText source).scan .value =
      .ok (some ⟨.script, span⟩, { ofText source with position := span.stop }) := by
    have token : (ofText source).tokenAt .value source =
        (some ⟨.script, span⟩, { ofText source with position := span.stop }) := by decide
    rw [(between_ofText source).scan, token]
  have again : (ofText text).scan .value =
      .ok (some ⟨.script, span⟩, ⟨text, span.stop, waiting⟩) := by
    have token : (ofText text).tokenAt .value text =
        (some ⟨.script, span⟩, ⟨text, span.stop, waiting⟩) := by decide
    rw [(between_ofText text).scan, token]
  obtain ⟨read, later, split, covered, _, alone⟩ :=
    scan_alone asked (between_ofText source) found
  have same : Except.ok text = Except.ok read := covered
  cases same
  cases List.append_cancel_left (show text ++ [')'] = text ++ later from split)
  obtain ⟨last, scanned, context⟩ := alone paired
  cases again.symm.trans scanned
  exact ⟨asked, found, paired, again, context⟩

end Reading

end PugTokens
