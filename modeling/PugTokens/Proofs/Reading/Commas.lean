import PugTokens.Proofs.Context.Reachable
import PugTokens.Proofs.Reading.Alike
import PugTokens.Proofs.Reading.Spans
import PugTokens.Proofs.Value.Commas

namespace PugTokens

/-! # Values with a comma between them

A value that is complete ends in front of a `,`, and the next one begins behind it in the
context that the first has left.  What is still open in that context carries over: if it
is no bracket, no quote and no operator, it can only be a `?` that waits for its `:`, and
where none does the values are found as if each stood alone (`Values.all_comma`).
-/

/-- The same token so many bytes further on. -/
structure Token.Shifted (distance : Nat) (token other : Token) : Prop where
  kind : other.kind = token.kind
  start : other.span.start.offset = token.span.start.offset + distance
  stop : other.span.stop.offset = token.span.stop.offset + distance

theorem Token.Alike.shifted {front : List Char} {valid : KindSet} {token other : Token}
    (alike : token.Alike front valid valid other) :
    token.Shifted (Text.byteSize front) other :=
  ⟨alike.kinds.same Iff.rfl, alike.start.offset, alike.stop.offset⟩

namespace Values

variable {reading : Reading} {before text rest : List Char} {valid : KindSet}
variable {token : Token} {after last : Values}

/-- All tokens of a text that is read in a context; in the initial one they are `all`. -/
def allFrom (context : Context) (source : List Char) (valid : KindSet) :
    Except TextError (List (Token × Values) × Values) :=
  Reading.drain next (limit source) ⟨{ source, context }, valid⟩

/-- Of a text, a `,` and `rest` the first token is `token`, and the others are those that
`rest` has `alone`, behind the `,`. -/
def Joins (text : List Char) (token : Token) (valid : KindSet) (rest : List Char)
    (alone : Except TextError (List (Token × Values) × Values)) : Prop :=
  ∃ tokens stop first later final, alone = .ok (tokens, stop) ∧
    all (text ++ ',' :: rest) valid = .ok ((token, first) :: later, final) ∧
    List.Forall₂ (fun one another => one.1.Shifted (Text.byteSize text + 1) another.1)
      tokens later

/-- Of values that join there is one token more than of those alone. -/
theorem Joins.length_eq {alone : Except TextError (List (Token × Values) × Values)}
    (joins : Joins text token valid rest alone) {count : Nat}
    (counted : alone.map (·.1.length) = .ok count) :
    (all (text ++ ',' :: rest) valid).map (·.1.length) = .ok (count + 1) := by
  obtain ⟨tokens, stop, first, later, final, taken, whole, pairs⟩ := joins
  rw [taken] at counted
  have few : tokens.length = count := Except.ok.inj counted
  rw [whole, ← few, pairs.length_eq]
  rfl

/-- No token begins before the place of the reading. -/
theorem start_of_next (asked : valid.meets Kind.value = true)
    (stands : reading.Between before rest)
    (answered : next ⟨reading, valid⟩ = .ok (some token, after)) :
    Text.byteSize before ≤ token.span.start.offset := by
  obtain ⟨tokens, stop, final, run, finished, _, laid, _⟩ := covers asked stands
  apply laid.start_le
  exact List.mem_map_of_mem (run.head finished answered)

/-- A first token that is the whole of a text is found at its beginning. -/
theorem run_of_whole (asked : valid.meets Kind.value = true)
    (answered : next (ofText text valid) = .ok (some token, after))
    (whole : token.span = ⟨.start, .after text⟩) :
    let extent := Value.run { context := .initial } text
    text ≠ [] ∧ Move.textOf extent.moves = text ∧
      extent.last.found.map (Value.Shape.kind valid) = some token.kind ∧
      after.reading.context = extent.last.context := by
  intro extent
  cases text with
  | nil =>
      have finished : next (ofText [] valid) = .ok (none, _) := rfl
      rw [finished] at answered
      cases answered
  | cons c rest =>
      have stands := Reading.between_ofText (c :: rest)
      cases found : extent.last.found with
      | none =>
          -- The first token would begin behind the first character.
          have missing : (Reading.ofText (c :: rest)).tokenAt valid (c :: rest) = (none, _) :=
            Reading.tokenAt_value_none asked found
          have passed : (Reading.pass _ [c]).Between ([] ++ [c]) rest := stands.pass
          rw [ofText, next_pass stands missing] at answered
          have behind := start_of_next asked passed answered
          have positive := c.utf8Size_pos
          rw [whole] at behind
          change c.utf8Size + 0 ≤ 0 at behind
          omega
      | some shape =>
          have ⟨_, answer⟩ := next_value asked stands found
          change next (ofText (c :: rest) valid) = _ at answer
          rw [answer, Except.ok.injEq, Prod.mk.injEq, Option.some.injEq] at answered
          obtain ⟨rfl, rfl⟩ := answered
          obtain ⟨later, split⟩ := Value.exists_run_append { context := .initial } (c :: rest)
          change c :: rest = Move.textOf extent.moves ++ later at split
          have same : Text.byteSize (Move.textOf extent.moves) = Text.byteSize (c :: rest) :=
            congrArg (·.stop.offset) whole
          have none : later = [] := by
            apply Text.eq_nil_of_byteSize
            rw [split, Text.byteSize_append] at same
            omega
          rw [none, List.append_nil] at split
          exact ⟨nofun, split.symm, rfl, rfl⟩

/-- A first token that is the whole of a text is the first one in front of a `,` too, if
it leaves no bracket and no quote open. -/
theorem next_comma (asked : valid.meets Kind.value = true)
    (answered : next (ofText text valid) = .ok (some token, after))
    (whole : token.span = ⟨.start, .after text⟩)
    (atRoot : after.reading.context.atRoot = true) (rest : List Char) :
    next (ofText (text ++ ',' :: rest) valid) =
      .ok (some token, ⟨⟨text ++ ',' :: rest, .after text, after.reading.context⟩, valid⟩) := by
  obtain ⟨filled, covered, kind, left⟩ := run_of_whole asked answered whole
  rw [left] at atRoot ⊢
  have escapes : Value.EscapesQuoted { context := .initial } := nofun
  obtain ⟨last, read⟩ := Value.run_comma escapes covered atRoot rest
  rw [← last] at kind ⊢
  obtain ⟨shape, found, named⟩ := Option.map_eq_some_iff.mp kind
  have stands := Reading.between_ofText (text ++ ',' :: rest)
  have same : (⟨shape.kind valid, ⟨.start, .after text⟩⟩ : Token) = token := by
    rw [named, ← whole]
  rw [← same]
  exact next_filled asked stands found read filled

theorem next_at_comma (asked : valid.meets Kind.value = true)
    (stands : reading.Between before (',' :: rest)) (atRoot : reading.context.atRoot = true) :
    next ⟨reading, valid⟩ = next ⟨reading.pass [','], valid⟩ := by
  let start : Value.Progress := { context := reading.context }
  have settled : start.phase ≠ .escape := nofun
  apply next_pass stands
  apply Reading.tokenAt_value_none asked
  rw [Value.run, Value.stop_comma settled atRoot]

/-- Behind the `,` the tokens are those that the rest has in the context that the first
token leaves. -/
theorem joins_left (asked : valid.meets Kind.value = true)
    (answered : next (ofText text valid) = .ok (some token, after))
    (whole : token.span = ⟨.start, .after text⟩)
    (atRoot : after.reading.context.atRoot = true) (rest : List Char) :
    Joins text token valid rest (allFrom after.reading.context rest valid) := by
  let alone : Reading := { source := rest, context := after.reading.context }
  let first : Reading := ⟨text ++ ',' :: rest, .after text, after.reading.context⟩
  have standsAlone : alone.Between [] rest := ⟨rfl, rfl⟩
  have stands : first.Between text (',' :: rest) := ⟨rfl, rfl⟩
  have passed : (first.pass [',']).Between (text ++ [','] ++ []) rest := by
    rw [List.append_nil]
    exact stands.pass
  obtain ⟨tokens, later, _, stop, _, _, run, finished, runToo, finishedToo, _, _, few, pairs⟩ :=
    exists_runs asked asked standsAlone passed rfl
  have fewToo : later.length ≤ rest.length := pairs.length_eq ▸ few
  obtain ⟨_, runBehind, finishedBehind⟩ :=
    runToo.congr finishedToo (next_at_comma asked stands atRoot)
  have runFirst := Reading.Yields.cons (next_comma asked answered whole atRoot rest) runBehind
  have enough : ((token, ⟨first, valid⟩) :: later).length < limit (text ++ ',' :: rest) := by
    simp only [limit, List.length_cons, List.length_append]
    omega
  refine ⟨tokens, stop, ⟨first, valid⟩, later, _, run.drain finished (Nat.lt_succ_of_le few),
    runFirst.drain finishedBehind enough, ?_⟩
  have distance : Text.byteSize (text ++ [',']) = Text.byteSize text + 1 := by
    rw [Text.byteSize_append]
    rfl
  rw [← distance]
  exact pairs.imp fun one another pair => pair.1.shifted

theorem next_colon (asked : valid.meets Kind.value = true) (stands : reading.Between [] [':'])
    (atRoot : reading.context.atRoot = true) :
    ∃ token after, next ⟨reading, valid⟩ = .ok (some token, after) ∧
      token.span.stop.offset = if reading.context.awaitsColon then 1 else 0 := by
  obtain ⟨found, covered⟩ := Value.run_colon atRoot
  have ⟨_, answered⟩ := next_value asked stands found
  refine ⟨_, _, answered, ?_⟩
  rw [covered]
  cases reading.context.awaitsColon <;> rfl

theorem ternaries_of_joins (asked : valid.meets Kind.value = true) {left : Context}
    (wellFormed : left.WellFormed) (atRoot : left.atRoot = true)
    (behind : Joins text token valid [':'] (allFrom left [':'] valid))
    (alone : Joins text token valid [':'] (all [':'] valid)) : left.ternaries = .bare := by
  obtain ⟨tokens, _, _, later, _, taken, whole, pairs⟩ := behind
  obtain ⟨others, _, _, laterToo, _, takenToo, wholeToo, pairsToo⟩ := alone
  rw [whole] at wholeToo
  cases wholeToo
  -- Behind a `?` that waits the first token is the `:`, alone it has no text.
  let colon : Reading := { source := [':'], context := left }
  have stands : colon.Between [] [':'] := ⟨rfl, rfl⟩
  obtain ⟨one, _, answered, reach⟩ := next_colon asked stands atRoot
  obtain ⟨other, _, answeredToo, reachToo⟩ :=
    next_colon asked (Reading.between_ofText [':']) (by rfl)
  obtain ⟨_, rfl⟩ := Reading.exists_cons_of_drain answered taken
  obtain ⟨_, rfl⟩ := Reading.exists_cons_of_drain answeredToo takenToo
  cases pairs with
  | cons pair _ =>
      cases pairsToo with
      | cons pairToo _ =>
          have same : one.span.stop.offset + (Text.byteSize text + 1) =
              other.span.stop.offset + (Text.byteSize text + 1) :=
            pair.stop.symm.trans pairToo.stop
          have none : ¬ 0 < left.ternaries.entries.length := by
            intro filled
            have awaited := (wellFormed.awaitsColon_iff atRoot).mpr filled
            simp only [colon, awaited, if_true] at reach
            change other.span.stop.offset = 0 at reachToo
            omega
          apply Stack.entries_injective
          exact List.length_eq_zero_iff.mp (by omega)

/-- If the first token of a text is the whole of it and leaves no bracket and no quote
open and no operator waiting, then of the text, a `,` and any rest the tokens are this
one and, further on by what stands before them, those that the rest has in the context
that is left.  They are those of the rest alone, whatever it is, exactly if no `?` is left
waiting for its `:`. -/
theorem all_comma (asked : valid.meets Kind.value = true)
    (single : all text valid = .ok ([(token, after)], last))
    (whole : token.span = ⟨.start, .after text⟩)
    (closed : after.reading.context.enclosures = .bare)
    (settled : after.reading.context.pending = false) :
    (∀ rest, Joins text token valid rest (allFrom after.reading.context rest valid)) ∧
      ((∀ rest, Joins text token valid rest (all rest valid)) ↔
        after.reading.context.ternaries = .bare) := by
  have answered : next (ofText text valid) = .ok (some token, after) :=
    Reading.exists_drain_cons single
  have atRoot : after.reading.context.atRoot = true := by
    rw [Context.atRoot, closed]
    rfl
  have behind := joins_left asked answered whole atRoot
  have left := (run_of_whole asked answered whole).2.2.2
  refine ⟨behind, fun every => ?_, fun bare rest => ?_⟩
  · have wellFormed : after.reading.context.WellFormed := by
      rw [left]
      exact Value.run_keeps Context.WellFormed.change Context.wellFormed_initial text
    exact ternaries_of_joins asked wellFormed atRoot (behind [':']) (every [':'])
  · have levels : after.reading.context.levels = .bare := by
      rw [left]
      exact Value.levels_run { context := .initial } text
    have initial : after.reading.context = .initial := by
      calc
        after.reading.context =
            ⟨after.reading.context.levels, after.reading.context.enclosures,
              after.reading.context.ternaries, after.reading.context.pending⟩ := rfl
        _ = .initial := by
            rw [levels, closed, bare, settled]
            rfl
    have joins := behind rest
    rwa [initial] at joins

/-- The `,` between the brackets of `[a,b]` belongs to the value, and the one behind them
separates it from any other. -/
theorem all_comma_brackets :
    let text := ['[', 'a', ',', 'b', ']']
    let token : Token := ⟨.script, ⟨.start, .after text⟩⟩
    let after : Values := ⟨⟨text, .after text, .initial⟩, .value⟩
    KindSet.value.meets Kind.value = true ∧ all text .value = .ok ([(token, after)], after) ∧
      (∀ rest, Joins text token .value rest (allFrom .initial rest .value)) ∧
      ∀ rest, Joins text token .value rest (all rest .value) := by
  intro text token after
  have asked : KindSet.value.meets Kind.value = true := by decide
  have single : all text .value = .ok ([(token, after)], after) := by decide +kernel
  obtain ⟨behind, alone⟩ := all_comma asked single rfl rfl rfl
  exact ⟨asked, single, behind, alone.mpr rfl⟩

/-- The operator of `a+` still waits behind a `,`: no blank then ends the value behind it, and
what is two tokens alone is one. -/
theorem all_comma_operator :
    let text := ['a', '+']
    let rest := ['\x27', '\x27', ' ', 'b']
    let token : Token := ⟨.script, ⟨.start, .after text⟩⟩
    let after : Values := ⟨⟨text, .after text, { pending := true }⟩, .value⟩
    all text .value = .ok ([(token, after)], after) ∧
      after.reading.context.enclosures = .bare ∧ after.reading.context.ternaries = .bare ∧
      ¬ Joins text token .value rest (all rest .value) := by
  intro text rest token after
  have alone : (all rest .value).map (·.1.length) = .ok 2 := by decide +kernel
  have behind : (all (text ++ ',' :: rest) .value).map (·.1.length) = .ok 2 := by
    decide +kernel
  refine ⟨by decide +kernel, rfl, rfl, fun joins => ?_⟩
  exact absurd (behind.symm.trans (joins.length_eq alone)) (by decide)

/-- The `?` of `a?b` still waits behind a `,`: the `:` of `c:d` is then taken for its other
half, and what is three tokens alone is one. -/
theorem all_comma_question :
    let text := ['a', '?', 'b']
    let token : Token := ⟨.script, ⟨.start, .after text⟩⟩
    let after : Values := ⟨⟨text, .after text, { ternaries := ⟨[1]⟩ }⟩, .value⟩
    KindSet.value.meets Kind.value = true ∧ all text .value = .ok ([(token, after)], after) ∧
      after.reading.context.enclosures = .bare ∧ after.reading.context.pending = false ∧
      ¬ Joins text token .value ['c', ':', 'd'] (all ['c', ':', 'd'] .value) := by
  intro text token after
  have three : (all ['c', ':', 'd'] .value).map (·.1.length) = .ok 3 := by decide +kernel
  have two : (all (text ++ ',' :: ['c', ':', 'd']) .value).map (·.1.length) = .ok 2 := by
    decide +kernel
  refine ⟨by decide, by decide +kernel, rfl, rfl, fun joins => ?_⟩
  exact absurd (two.symm.trans (joins.length_eq three)) (by decide)

end Values

end PugTokens
