import PugTokens.Proofs.Lexer.Endings
import PugTokens.Proofs.Layout.Tokens

namespace PugTokens

/-! # What a scan takes is what its token covers

The scan of a value takes characters and marks its end last, and a layout scan marks its
end, if it does so at all, before it skips anything.  Therefore the token of a value
covers all that was gone over, the token of a step of indentation is a point in front
of the blanks that were measured, and that of a line break is the point behind it.  A
reader that finds nothing is left as it was (`Reader.reachable_scan`).
-/

/-- What the span of a token tells of the places where the scan for it began and ended. -/
inductive Token.Spans (source : List Char) (start stop : Position) : Token → Prop
  | value {kind : Kind} {before text rest : List Char} :
      kind ∈ Kind.value → source = before ++ text ++ rest →
      start = .after before → stop = .after (before ++ text) →
      Span.text source ⟨start, stop⟩ = .ok text → Spans source start stop ⟨kind, ⟨start, stop⟩⟩
  | level {kind : Kind} :
      kind = .indent ∨ kind = .dedent → stop = start →
      Spans source start stop ⟨kind, .point start⟩
  | newline {before rest : List Char} :
      source = before ++ '\n' :: rest → start = .after before →
      stop = ⟨start.offset + 1, start.line + 1, 0⟩ →
      Spans source start stop ⟨.newline, .point stop⟩

/-! ## Moves -/

/-- What a layout scan may find, and the moves by which it does. -/
inductive Layout.Moved (unread : List Char) : Option Kind → List Move → Prop
  | newline {rest : List Char} :
      unread = '\n' :: rest → Moved unread (some .newline) [.skip '\n']
  | level {kind : Kind} (blanks : List Char) :
      kind = .indent ∨ kind = .dedent → Moved unread (some kind) (.mark :: blanks.map .skip)
  | measured (blanks : List Char) : Moved unread none (.mark :: blanks.map .skip)
  | still : Moved unread none []

theorem Layout.measure_moved (context : Context) (valid : KindSet) (line : List Char) :
    Moved line (measure context valid line).kind (measure context valid line).moves := by
  unfold measure
  dsimp only
  split
  · exact .level (leading line) (.inl rfl)
  · split
    · exact .level (leading line) (.inr rfl)
    · exact .measured (leading line)

theorem Layout.scan_moved (context : Context) (valid : KindSet) (view : View) :
    Moved view.unread (scan context valid view).kind (scan context valid view).moves := by
  unfold scan
  split
  · exact .still
  · next c rest unread =>
      split
      · next newline =>
          split
          · rw [newline] at unread ⊢
            exact .newline unread
          · exact .still
      · split
        · rw [unread]
          exact measure_moved context valid (c :: rest)
        · exact .still

variable {valid : KindSet}

theorem scan_moved (noValue : valid.meets Kind.value = false) (context : Context) (view : View) :
    Layout.Moved view.unread (scan context valid view).kind (scan context valid view).moves := by
  unfold scan
  rw [noValue, if_neg Bool.false_ne_true]
  split
  · exact Layout.scan_moved context valid view
  · exact .still

/-- Within a layout scan all marks come before all skips, and nothing is taken. -/
theorem Layout.Moved.split {unread : List Char} {kind : Option Kind} {moves : List Move}
    (moved : Moved unread kind moves) :
    ∃ marks skips, moves = marks ++ skips ∧ (∀ move ∈ marks, move = .mark) ∧
      ∀ move ∈ skips, ∃ c, move = .skip c := by
  have skipped : ∀ (blanks : List Char), ∀ move ∈ blanks.map Move.skip, ∃ c, move = .skip c := by
    intro blanks move member
    obtain ⟨c, _, same⟩ := List.mem_map.mp member
    exact ⟨c, same.symm⟩
  cases moved with
  | newline => exact ⟨[], _, rfl, nofun, skipped ['\n']⟩
  | level blanks => exact ⟨[.mark], _, rfl, by simp, skipped blanks⟩
  | measured blanks => exact ⟨[.mark], _, rfl, by simp, skipped blanks⟩
  | still => exact ⟨[], [], rfl, nofun, nofun⟩

theorem Cursor.span_skip (source : List Char) (position : Position) (c : Char) :
    ((ofPlace source position).play [.skip c]).span = .point (position.advance c) := by
  unfold span
  split <;> rfl

/-! ## Readings -/

namespace Reading

variable {reading : Reading} {before rest : List Char}

theorem Between.spans_value (stands : reading.Between before rest)
    (asked : valid.meets Kind.value = true) :
    reading.tokenAt valid rest = (none, reading) ∨
      ∃ token after, reading.tokenAt valid rest = (some token, after) ∧
        token.Spans (before ++ rest) reading.position after.position := by
  cases found : (Value.run { context := reading.context } rest).last.found with
  | none => exact .inl (tokenAt_value_none asked found)
  | some shape =>
      obtain ⟨later, split⟩ := Value.exists_run_append { context := reading.context } rest
      have whole : before ++ rest =
          before ++ Move.textOf (Value.run { context := reading.context } rest).moves ++ later := by
        rw [List.append_assoc, ← split]
      have text := stands.text_run { context := reading.context }
      rw [stands.source, ← stands.position] at text
      refine .inr ⟨_, _, stands.tokenAt_value asked found, ?_⟩
      rw [← stands.position]
      exact .value (kind_mem_value valid shape).1 whole stands.position rfl text

theorem Between.spans_layout (stands : reading.Between before rest)
    (noValue : valid.meets Kind.value = false) :
    reading.tokenAt valid rest = (none, reading) ∨
      ∃ token after, reading.tokenAt valid rest = (some token, after) ∧
        token.Spans (before ++ rest) reading.position after.position := by
  have moved := scan_moved noValue reading.context (reading.view rest)
  unfold Reading.tokenAt
  dsimp only
  generalize (PugTokens.scan reading.context valid (reading.view rest)).kind = kind,
    (PugTokens.scan reading.context valid (reading.view rest)).moves = moves at moved ⊢
  cases moved with
  | newline unread =>
      have behind : ((Cursor.ofPlace reading.source reading.position).play [.skip '\n']).tokenEnd =
          reading.position.advance '\n' := rfl
      refine .inr ⟨_, _, rfl, ?_⟩
      rw [Cursor.span_skip, behind]
      exact .newline (congrArg (before ++ ·) unread) stands.position rfl
  | level blanks steps =>
      refine .inr ⟨_, _, rfl, ?_⟩
      rw [Cursor.span_mark_skips, Cursor.tokenEnd_mark_skips]
      exact .level steps rfl
  | measured blanks => exact .inl rfl
  | still => exact .inl rfl

/-- At a true place a scan leaves the reading as it is or gives a token whose span tells
where it began and ended. -/
theorem Between.spans_tokenAt (stands : reading.Between before rest) (valid : KindSet) :
    reading.tokenAt valid rest = (none, reading) ∨
      ∃ token after, reading.tokenAt valid rest = (some token, after) ∧
        token.Spans (before ++ rest) reading.position after.position := by
  cases asked : valid.meets Kind.value with
  | true => exact stands.spans_value asked
  | false => exact stands.spans_layout asked

end Reading

theorem Token.Spans.stop_eq {source : List Char} {start stop : Position} {token : Token}
    (spans : token.Spans source start stop) : token.span.stop = stop := by
  cases spans with
  | value => rfl
  | level _ stays => exact stays.symm
  | newline => rfl

/-! ## Readers -/

namespace Reader

variable {source before rest : List Char} {reader : Reader}

theorem exists_scan (stands : reader.reading.Between before rest) (valid : KindSet) :
    ∃ after, reader.scan valid = .ok ((reader.reading.tokenAt valid rest).1, after) ∧
      after.reading = (reader.reading.tokenAt valid rest).2 := by
  have same := scan_reading stands valid
  rw [stands.scan] at same
  cases scanned : reader.scan valid with
  | error reason => simp [scanned, Except.map] at same
  | ok answered =>
      rw [scanned] at same
      simp only [Except.map, Prod.map, id_eq, Except.ok.injEq] at same
      exact ⟨answered.2, by rw [← same], by rw [← same]⟩

/-- A reader that comes about finds nothing and is left as it was, or it finds a token and
stands at the end of it, where the span of the token is what was gone over, for a value,
or a point that was not left, for a step of indentation, or the point behind a line
break.  For through any lexer the scan of a value skips nothing and marks its end last,
and a layout scan takes nothing and marks its end only before it skips. -/
theorem reachable_scan (reached : Reachable source reader) (valid : KindSet) :
    (∃ found after, reader.scan valid = .ok (found, after) ∧
      (found = none → after.reading = reader.reading) ∧
      ∀ token, found = some token → after.cursor.position = token.span.stop ∧
        token.Spans source reader.cursor.position after.cursor.position) ∧
    ∀ {σ : Type} (lexer : Lexer σ) (context : Context) (state after : σ) (outcome : Outcome),
      lexer.Scans context valid state outcome after →
      (valid.meets Kind.value = true →
        (∀ c, .skip c ∉ outcome.moves) ∧
          ∃ front, outcome.moves = front ++ [.mark] ∧
            after = lexer.mark (lexer.play state front)) ∧
      (valid.meets Kind.value = false →
        ∃ marks skips, outcome.moves = marks ++ skips ∧ (∀ move ∈ marks, move = .mark) ∧
          ∀ move ∈ skips, ∃ c, move = .skip c) := by
  constructor
  · obtain ⟨before, rest, stands, rfl⟩ := reached.stands
    obtain ⟨after, scanned, reading⟩ := exists_scan stands valid
    have place : after.cursor.position = after.reading.position := rfl
    refine ⟨_, after, scanned, ?_⟩
    rw [place, reading]
    rcases stands.spans_tokenAt valid with same | ⟨token, next, same, spans⟩
    · rw [same]
      exact ⟨fun _ => rfl, nofun⟩
    · rw [same]
      refine ⟨nofun, fun other found => ?_⟩
      obtain rfl := Option.some.inj found
      exact ⟨spans.stop_eq.symm, spans⟩
  · intro σ lexer context state after outcome scanned
    obtain ⟨text, _, rfl, rfl⟩ := scanned
    refine ⟨fun asked => ?_, fun noValue => ?_⟩
    · rw [Reading.scan_value asked]
      obtain ⟨front, ends⟩ := Value.exists_moves_run { context } text
      refine ⟨Value.skip_notMem_run { context } text, front, ends, ?_⟩
      change lexer.play state (Value.run { context } text).moves = _
      rw [ends, Lexer.play, List.foldl_append]
      rfl
    · exact (scan_moved noValue context _).split

/-- In front of the blank of ` a b`, behind a line break, the indentation is a point that is
not left, and a value covers the blanks on both sides of the `a`. -/
theorem reachable_scan_blanks :
    let source := ['\n', ' ', 'a', ' ', 'b']
    let place : Position := ⟨1, 2, 0⟩
    let reader : Reader := { cursor := { source, position := place } }
    Reachable source reader ∧
      (∃ after, reader.scan .layout = .ok (some ⟨.indent, .point place⟩, after) ∧
        after.cursor.position = place ∧
        Token.Spans source place place ⟨.indent, .point place⟩) ∧
      ∃ after, reader.scan .value = .ok (some ⟨.script, ⟨place, ⟨4, 2, 3⟩⟩⟩, after) ∧
        after.cursor.position = ⟨4, 2, 3⟩ ∧
        Token.Spans source place ⟨4, 2, 3⟩ ⟨.script, ⟨place, ⟨4, 2, 3⟩⟩⟩ := by
  intro source place reader
  have bumped : (ofText source).perform .bump = .ok (.char '\n', reader) := rfl
  have reached : Reachable source reader := .perform .bump .start bumped
  obtain ⟨⟨found, after, scanned, _, tells⟩, _⟩ := reachable_scan reached .layout
  obtain ⟨⟨value, behind, scannedValue, _, tellsValue⟩, _⟩ := reachable_scan reached .value
  cases scanned
  cases scannedValue
  exact ⟨reached, ⟨_, rfl, tells _ rfl⟩, _, rfl, tellsValue _ rfl⟩

end Reader

end PugTokens
