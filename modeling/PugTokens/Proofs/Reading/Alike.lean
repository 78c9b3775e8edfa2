import PugTokens.Proofs.Reader.Resumption
import PugTokens.Proofs.Reading.Covering

namespace PugTokens

/-! # The same values found twice

The kinds that are asked for give a value its name and nothing else: where it ends, and
what is open behind it, is the same for all of them (`boundaries_same`).  Nor does
it matter what stands before the value, except for the context that it leaves.  So two
searches for values that go over the same text from the same context, for different
kinds or with something else in front of one of them, find the same (`Values.next_alike`).
-/

/-- A place in a text, and the same place when `front` is put before the text. -/
def Position.Behind (front : List Char) (place behind : Position) : Prop :=
  ∃ before, place = .after before ∧ behind = .after (front ++ before)

namespace Position.Behind

variable {front before : List Char} {place behind : Position}

theorem after (front before : List Char) :
    Behind front (.after before) (.after (front ++ before)) :=
  ⟨before, rfl, rfl⟩

theorem eq_of_nil (same : Behind [] place behind) : behind = place := by
  obtain ⟨before, rfl, rfl⟩ := same
  rfl

theorem offset (further : Behind front place behind) :
    behind.offset = place.offset + Text.byteSize front := by
  obtain ⟨before, rfl, rfl⟩ := further
  change Text.byteSize (front ++ before) = Text.byteSize before + Text.byteSize front
  rw [Text.byteSize_append, Nat.add_comm]

end Position.Behind

variable {first second : KindSet}

/-- The kinds of one value under two sets: the same if both or neither hold strings, and
a script wherever there are none. -/
structure KindSet.Agree (first second : KindSet) (kind other : Kind) : Prop where
  same : (.string ∈ first ↔ .string ∈ second) → other = kind
  script : .string ∉ first → kind = .script
  otherScript : .string ∉ second → other = .script

theorem Value.Shape.agree (shape : Value.Shape) (first second : KindSet) :
    KindSet.Agree first second (shape.kind first) (shape.kind second) := by
  cases shape with
  | script => exact ⟨fun _ => rfl, fun _ => rfl, fun _ => rfl⟩
  | literal =>
      refine ⟨fun both => ?_, fun none => if_neg none, fun none => if_neg none⟩
      unfold kind
      by_cases strings : .string ∈ first
      · rw [if_pos strings, if_pos (both.mp strings)]
      · rw [if_neg strings, if_neg (mt both.mpr strings)]

/-- Two answers of a scan that differ in the name of the token at most. -/
structure Outcome.Alike (first second : KindSet) (outcome other : Outcome) : Prop where
  moves : other.moves = outcome.moves
  context : other.context = outcome.context
  kinds : Option.Rel (KindSet.Agree first second) outcome.kind other.kind

theorem scan_alike (asked : first.meets Kind.value = true)
    (askedToo : second.meets Kind.value = true) (context : Context) (view : View) :
    (scan context first view).Alike first second (scan context second view) := by
  rw [Reading.scan_value asked, Reading.scan_value askedToo]
  refine ⟨rfl, rfl, ?_⟩
  change Option.Rel _ ((Value.run { context } view.unread).last.found.map _)
    ((Value.run { context } view.unread).last.found.map _)
  cases (Value.run { context } view.unread).last.found with
  | none => exact .none
  | some shape => exact .some (shape.agree first second)

theorem KindSet.isEmpty_of_meets {valid : KindSet} {kinds : List Kind}
    (asked : valid.meets kinds = true) : valid.isEmpty = false := by
  refine Bool.eq_false_iff.mpr fun empty => ?_
  rw [meets_of_isEmpty empty] at asked
  contradiction

theorem Cursor.scan_alike (asked : first.meets Kind.value = true)
    (askedToo : second.meets Kind.value = true) (cursor : Cursor) (context : Context) :
    (∃ problem, cursor.scan context first = .error problem ∧
        cursor.scan context second = .error problem) ∨
      ∃ outcome other after, cursor.scan context first = .ok (outcome, after) ∧
        cursor.scan context second = .ok (other, after) ∧ outcome.Alike first second other := by
  unfold scan
  rw [KindSet.isEmpty_of_meets asked, KindSet.isEmpty_of_meets askedToo]
  cases seen : cursor.view with
  | error problem => exact .inl ⟨problem, rfl, rfl⟩
  | ok view =>
      have alike := PugTokens.scan_alike asked askedToo context view
      refine .inr ⟨PugTokens.scan context first view, PugTokens.scan context second view, _,
        rfl, ?_, alike⟩
      rw [← alike.moves]
      rfl

/-- Two tokens of one value, behind different texts. -/
structure Token.Alike (front : List Char) (first second : KindSet) (token other : Token) :
    Prop where
  kinds : KindSet.Agree first second token.kind other.kind
  start : token.span.start.Behind front other.span.start
  stop : token.span.stop.Behind front other.span.stop

theorem Token.Alike.span_eq {token other : Token}
    (alike : Token.Alike [] first second token other) : other.span = token.span := by
  calc
    other.span = ⟨other.span.start, other.span.stop⟩ := rfl
    _ = ⟨token.span.start, token.span.stop⟩ := by
        rw [alike.start.eq_of_nil, alike.stop.eq_of_nil]
    _ = token.span := rfl

namespace Values

variable {reading other : Reading} {front before rest : List Char} {valid : KindSet}
variable {c : Char}

/-- What is passed over with a token: its text, or the next character if it has none. -/
def stride (c : Char) (text : List Char) : List Char := if text = [] then [c] else text

theorem next_value (asked : valid.meets Kind.value = true)
    (stands : reading.Between before (c :: rest)) {shape : Value.Shape}
    (found : (Value.run { context := reading.context } (c :: rest)).last.found = some shape) :
    let extent := Value.run { context := reading.context } (c :: rest)
    let text := Move.textOf extent.moves
    (∃ later, c :: rest = stride c text ++ later) ∧
      next ⟨reading, valid⟩ =
        .ok (some ⟨shape.kind valid, ⟨.after before, .after (before ++ text)⟩⟩,
          ⟨⟨reading.source, .after (before ++ stride c text), extent.last.context⟩, valid⟩) := by
  intro extent text
  unfold stride
  by_cases covered : text = []
  · rw [if_pos covered, covered, List.append_nil]
    exact ⟨⟨rest, rfl⟩, next_hollow asked stands found covered⟩
  · rw [if_neg covered]
    exact ⟨Value.exists_run_append { context := reading.context } (c :: rest),
      next_filled asked stands found rfl covered⟩

/-- The same place of the same text, with the same context, but for other kinds and with
`front` before the text. -/
structure Alike (front : List Char) (first second : KindSet) (values others : Values) :
    Prop where
  valid : values.valid = first ∧ others.valid = second
  context : others.reading.context = values.reading.context
  between : ∃ before rest, values.reading.Between before rest ∧
    others.reading.Between (front ++ before) rest

theorem Alike.reading_eq {values others : Values} (alike : Alike [] first second values others) :
    others.reading = values.reading := by
  obtain ⟨before, rest, stands, standsToo⟩ := alike.between
  have source : others.reading.source = values.reading.source :=
    standsToo.source.trans stands.source.symm
  have position : others.reading.position = values.reading.position :=
    standsToo.position.trans stands.position.symm
  calc
    others.reading =
        ⟨others.reading.source, others.reading.position, others.reading.context⟩ := rfl
    _ = ⟨values.reading.source, values.reading.position, values.reading.context⟩ := by
        rw [source, position, alike.context]
    _ = values.reading := rfl

theorem next_alike_between (asked : first.meets Kind.value = true)
    (askedToo : second.meets Kind.value = true) (stands : reading.Between before rest)
    (standsToo : other.Between (front ++ before) rest) (same : other.context = reading.context)
    {answer : Option Token} {after : Values}
    (answered : next ⟨reading, first⟩ = .ok (answer, after)) :
    ∃ answerToo afterToo, next ⟨other, second⟩ = .ok (answerToo, afterToo) ∧
      Option.Rel (Token.Alike front first second) answer answerToo ∧
      Alike front first second after afterToo := by
  -- The induction is on the text that is left, some of which a search may pass over before
  -- it finds a token.
  induction rest generalizing reading other before with
  | nil =>
      rw [next_end stands, Except.ok.injEq, Prod.mk.injEq] at answered
      obtain ⟨rfl, rfl⟩ := answered
      exact ⟨none, _, next_end standsToo, .none, ⟨rfl, rfl⟩, same, before, [], stands, standsToo⟩
  | cons c rest induction =>
      cases found : (Value.run { context := reading.context } (c :: rest)).last.found with
      | none =>
          have missing := Reading.tokenAt_value_none asked found
          have missingToo := Reading.tokenAt_value_none askedToo (same ▸ found)
          have passed : (reading.pass [c]).Between (before ++ [c]) rest := stands.pass
          have passedToo : (other.pass [c]).Between (front ++ (before ++ [c])) rest := by
            rw [← List.append_assoc]
            exact standsToo.pass
          rw [next_pass stands missing] at answered
          rw [next_pass standsToo missingToo]
          exact induction passed passedToo same answered
      | some shape =>
          obtain ⟨⟨later, split⟩, token⟩ := next_value asked stands found
          have ⟨_, tokenToo⟩ := next_value askedToo standsToo (same ▸ found)
          rw [token, Except.ok.injEq, Prod.mk.injEq] at answered
          obtain ⟨rfl, rfl⟩ := answered
          rw [same] at tokenToo
          rw [split] at stands standsToo
          refine ⟨_, _, tokenToo, .some ⟨shape.agree first second, .after front before, ?_⟩,
            ⟨rfl, rfl⟩, rfl, before ++ _, later, stands.behind _, ?_⟩
          · rw [List.append_assoc]
            exact .after front _
          · rw [← List.append_assoc]
            exact standsToo.behind _

/-- Searches for values in the same place run side by side. -/
theorem next_alike (asked : first.meets Kind.value = true)
    (askedToo : second.meets Kind.value = true) {values others after : Values}
    {answer : Option Token} (alike : Alike front first second values others)
    (answered : next values = .ok (answer, after)) :
    ∃ answerToo afterToo, next others = .ok (answerToo, afterToo) ∧
      Option.Rel (Token.Alike front first second) answer answerToo ∧
      Alike front first second after afterToo := by
  obtain ⟨⟨rfl, rfl⟩, same, before, rest, stands, standsToo⟩ := alike
  exact next_alike_between asked askedToo stands standsToo same answered

/-- All the way to the end of the text they do, and there are not more tokens than
characters. -/
theorem exists_runs (asked : first.meets Kind.value = true)
    (askedToo : second.meets Kind.value = true) (stands : reading.Between before rest)
    (standsToo : other.Between (front ++ before) rest)
    (same : other.context = reading.context) :
    ∃ tokens others ahead last aheadToo final,
      Reading.Yields next ⟨reading, first⟩ tokens ahead ∧ next ahead = .ok (none, last) ∧
      Reading.Yields next ⟨other, second⟩ others aheadToo ∧
      next aheadToo = .ok (none, final) ∧
      last.reading.Between (before ++ rest) [] ∧ Alike front first second last final ∧
      tokens.length ≤ rest.length ∧
      List.Forall₂ (fun one another => one.1.Alike front first second another.1 ∧
        Alike front first second one.2 another.2) tokens others := by
  obtain ⟨tokens, ahead, last, run, finished, ends, _, few⟩ := covers asked stands
  have alike : Alike front first second ⟨reading, first⟩ ⟨other, second⟩ :=
    ⟨⟨rfl, rfl⟩, same, before, rest, stands, standsToo⟩
  obtain ⟨others, aheadToo, runToo, alikeAhead, pairs⟩ :=
    run.simulate (next_alike asked askedToo) alike
  obtain ⟨answer, final, finishedToo, nothing, alikeLast⟩ :=
    next_alike asked askedToo alikeAhead finished
  cases nothing
  exact ⟨tokens, others, ahead, ⟨last, first⟩, aheadToo, final, run, finished, runToo,
    finishedToo, ends, alikeLast, few, pairs⟩

end Values

/-- Under any two sets that ask for values a scan makes the same moves, leaves the same
context and finds a token or none, and a cursor is led to the same place.  So all tokens
of an attribute list cover the same parts of its text and leave the same readings. -/
theorem boundaries_same (asked : first.meets Kind.value = true)
    (askedToo : second.meets Kind.value = true) :
    (∀ context view, (scan context first view).Alike first second (scan context second view)) ∧
      (∀ (cursor : Cursor) context,
        (∃ problem, cursor.scan context first = .error problem ∧
            cursor.scan context second = .error problem) ∨
          ∃ outcome other after, cursor.scan context first = .ok (outcome, after) ∧
            cursor.scan context second = .ok (other, after) ∧
            outcome.Alike first second other) ∧
      ∀ source, ∃ tokens others last stop,
        Values.all source first = .ok (tokens, last) ∧ last.next = .ok (none, last) ∧
        Values.all source second = .ok (others, stop) ∧ stop.next = .ok (none, stop) ∧
        List.Forall₂ (fun one another => another.1.span = one.1.span ∧
          KindSet.Agree first second one.1.kind another.1.kind ∧
          another.2.reading = one.2.reading) tokens others ∧
        stop.reading = last.reading := by
  refine ⟨scan_alike asked askedToo, Cursor.scan_alike asked askedToo, fun source => ?_⟩
  have stands := Reading.between_ofText source
  have standsToo : (Reading.ofText source).Between ([] ++ []) source := stands
  obtain ⟨tokens, others, _, last, _, stop, run, finished, runToo, finishedToo, ends, alike, few,
    pairs⟩ := Values.exists_runs asked askedToo stands standsToo rfl
  have fewToo : others.length ≤ source.length := pairs.length_eq ▸ few
  have endsToo : stop.reading.Between ([] ++ source) [] := by
    rw [alike.reading_eq]
    exact ends
  refine ⟨tokens, others, last, stop, run.drain finished (Nat.lt_succ_of_le few),
    Values.next_end ends, runToo.drain finishedToo (Nat.lt_succ_of_le fewToo),
    Values.next_end endsToo, ?_, alike.reading_eq⟩
  exact pairs.imp fun one another pair => ⟨pair.1.span_eq, pair.1.kinds, pair.2.reading_eq⟩

/-- The literal in `'a' b` is a string where strings are asked for and a script among the
kinds of the layout; it ends in the same place. -/
theorem boundaries_same_literal :
    let scripts : KindSet := .ofList [.newline, .indent, .script]
    let source := ['\x27', 'a', '\x27', ' ', 'b']
    KindSet.value.meets Kind.value = true ∧ scripts.meets Kind.value = true ∧
      (scan .initial .value ⟨source, true⟩).kind = some .string ∧
      (scan .initial scripts ⟨source, true⟩).kind = some .script ∧
      (scan .initial scripts ⟨source, true⟩).moves =
        (scan .initial .value ⟨source, true⟩).moves ∧
      ∃ tokens others last stop,
        Values.all source .value = .ok (tokens, last) ∧
        Values.all source scripts = .ok (others, stop) ∧
        List.Forall₂ (fun one another => another.1.span = one.1.span) tokens others ∧
        stop.reading = last.reading := by
  intro scripts source
  have asked : KindSet.value.meets Kind.value = true := by decide
  have askedToo : scripts.meets Kind.value = true := by decide
  obtain ⟨alike, _, drained⟩ := boundaries_same asked askedToo
  obtain ⟨tokens, others, last, stop, all, _, allToo, _, pairs, same⟩ := drained source
  exact ⟨asked, askedToo, by decide, by decide, (alike .initial ⟨source, true⟩).moves, tokens,
    others, last, stop, all, allToo, pairs.imp fun _ _ pair => pair.1, same⟩

end PugTokens
