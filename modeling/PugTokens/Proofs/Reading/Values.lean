import PugTokens.Proofs.Reading.Places
import PugTokens.Proofs.Value.Boundaries

namespace PugTokens

/-! # A complete expression is one token

The scan of a value skips nothing, so its token begins where it begins, and the
mark at which it ends is the end of the token.  A reading in front of a complete
expression, with a boundary behind it, therefore finds it as one token
(`Reading.scan_expression`).
-/

namespace Value

theorem skip_notMem_run (progress : Progress) (text : List Char) (d : Char) :
    .skip d ∉ (run progress text).moves := by
  induction text generalizing progress with
  | nil =>
      unfold run endMoves
      split <;> simp
  | cons c rest induction =>
      have own : .skip d ∉ (step progress c rest.head?).moves := by
        intro member
        rcases moves_step progress c rest.head? _ member with same | same <;> contradiction
      unfold run
      cases taken : step progress c rest.head? with
      | stop last =>
          rw [taken] at own
          exact own
      | go next moves =>
          rw [taken] at own
          rw [Extent.moves_precededBy, List.mem_append]
          exact fun skipped => skipped.elim own (induction next)
      | close last moves =>
          rw [taken] at own
          exact own

/-- The last thing that a scan does is to mark the end of the value. -/
theorem exists_moves_run (progress : Progress) (text : List Char) :
    ∃ moves, (run progress text).moves = moves ++ [.mark] := by
  induction text generalizing progress with
  | nil =>
      unfold run endMoves
      split
      · exact ⟨[.take none], rfl⟩
      · exact ⟨[], rfl⟩
  | cons c rest induction =>
      unfold run
      cases stepped : step progress c rest.head? with
      | stop last => exact ⟨[], rfl⟩
      | go next moves =>
          obtain ⟨later, same⟩ := induction next
          exact ⟨moves ++ later, by rw [Extent.moves_precededBy, same, List.append_assoc]⟩
      | close last moves => exact (closing_of_close stepped).marked

end Value

namespace Cursor

variable {moves : List Move}

theorem tokenStart_play (cursor : Cursor) (noSkip : ∀ c, .skip c ∉ moves) :
    (cursor.play moves).tokenStart = cursor.tokenStart := by
  induction moves generalizing cursor with
  | nil => rfl
  | cons first moves induction =>
      have later : ∀ c, .skip c ∉ moves :=
        fun c member => noSkip c (List.mem_cons_of_mem first member)
      have moved : (cursor.move first).tokenStart = cursor.tokenStart := by
        cases first with
        | take c => cases c <;> rfl
        | skip c => exact absurd List.mem_cons_self (noSkip c)
        | mark => rfl
      exact (induction (cursor.move first) later).trans moved

theorem tokenEnd_play_mark (source : List Char) (position : Position) (moves : List Move) :
    ((ofPlace source position).play (moves ++ [.mark])).tokenEnd =
      position.advanceAll (Move.textOf moves) := by
  rw [play_append]
  exact position_play (ofPlace source position) moves

theorem span_play_mark (source : List Char) (position : Position)
    (noSkip : ∀ c, .skip c ∉ moves ++ [.mark]) :
    ((ofPlace source position).play (moves ++ [.mark])).span =
      ⟨position, position.advanceAll (Move.textOf moves)⟩ := by
  have start : ((ofPlace source position).play (moves ++ [.mark])).tokenStart = position :=
    tokenStart_play (ofPlace source position) noSkip
  unfold span
  rw [tokenEnd_play_mark, start, Position.offset_advanceAll, if_neg (by omega)]

end Cursor

namespace Reading

variable {reading : Reading} {before text rest : List Char} {valid : KindSet}

theorem scan_value (asked : valid.meets Kind.value = true) (context : Context) (view : View) :
    PugTokens.scan context valid view =
      ⟨(Value.run { context } view.unread).last.found.map (Value.Shape.kind valid),
        (Value.run { context } view.unread).last.context,
        (Value.run { context } view.unread).moves⟩ :=
  (if_pos asked).trans (Value.scan_eq_run context valid view)

theorem kind_mem_value (valid : KindSet) (shape : Value.Shape) :
    shape.kind valid ∈ Kind.value ∧ (shape.kind valid = .string → .string ∈ valid) := by
  cases shape with
  | script => exact ⟨List.mem_cons_self, nofun⟩
  | literal =>
      unfold Value.Shape.kind
      by_cases strings : .string ∈ valid
      · rw [if_pos strings]
        exact ⟨by decide, fun _ => strings⟩
      · rw [if_neg strings]
        exact ⟨by decide, nofun⟩

theorem tokenAt_value_none (asked : valid.meets Kind.value = true)
    (missing : (Value.run { context := reading.context } rest).last.found = none) :
    reading.tokenAt valid rest = (none, reading) := by
  simp only [tokenAt, scan_value asked, view, missing, Option.map_none]

theorem Between.text_run (stands : reading.Between before rest) (progress : Value.Progress) :
    Span.text reading.source
        ⟨.after before, .after (before ++ Move.textOf (Value.run progress rest).moves)⟩ =
      .ok (Move.textOf (Value.run progress rest).moves) := by
  obtain ⟨later, split⟩ := Value.exists_run_append progress rest
  have whole := stands.source
  rw [split, ← List.append_assoc] at whole
  rw [whole]
  exact Text.slice_append before _ later

/-- The token of a value covers all that the scan steps over. -/
theorem Between.tokenAt_value (stands : reading.Between before rest)
    (asked : valid.meets Kind.value = true) {shape : Value.Shape}
    (found : (Value.run { context := reading.context } rest).last.found = some shape) :
    let extent := Value.run { context := reading.context } rest
    let stop := Position.after (before ++ Move.textOf extent.moves)
    reading.tokenAt valid rest =
      (some ⟨shape.kind valid, ⟨.after before, stop⟩⟩,
        { reading with position := stop, context := extent.last.context }) := by
  intro extent stop
  obtain ⟨moves, ends⟩ := Value.exists_moves_run { context := reading.context } rest
  have noSkip : ∀ c, .skip c ∉ moves ++ [.mark] := by
    rw [← ends]
    exact Value.skip_notMem_run { context := reading.context } rest
  have reached : reading.position.advanceAll (Move.textOf moves) = stop := by
    rw [stands.position, Position.advanceAll_after]
    simp [stop, extent, ends, Move.text]
  simp only [Reading.tokenAt, scan_value asked, view, found, Option.map_some, ends,
    Cursor.span_play_mark reading.source reading.position noSkip, Cursor.tokenEnd_play_mark,
    reached]
  rw [stands.position]

/-- Wherever a value is asked for outside of quotes, a complete expression in front
of a boundary is found as one token that covers exactly it.  The levels, the
enclosures and the `?` that wait are what they were, and an operator can wait
only if a literal is at the end. -/
theorem scan_expression (expression : Value.Expression text)
    (stands : reading.Between before (text ++ rest))
    (outside : isQuote reading.context.enclosures.top = false)
    (asked : valid.meets Kind.value = true)
    (boundary : Value.Boundary reading.context rest) :
    ∃ kind pending,
      let span : Span := ⟨.after before, .after (before ++ text)⟩
      reading.scan valid =
          .ok (some ⟨kind, span⟩,
            { reading with
              position := .after (before ++ text)
              context := { reading.context with pending } }) ∧
        span.text reading.source = .ok text ∧
        kind ∈ Kind.value ∧ (kind = .string → .string ∈ valid) ∧
        (pending = true → Value.EndsQuoted text) := by
  obtain ⟨moves, last, covered, ran, settled, found, ends⟩ := expression.run outside boundary
  obtain ⟨shape, shaped⟩ := Option.isSome_iff_exists.mp found
  have noSkip : ∀ c, .skip c ∉ moves ++ [.mark] := by
    have none := Value.skip_notMem_run { context := reading.context } (text ++ rest)
    rwa [ran] at none
  have left : last.context = { reading.context with pending := last.context.pending } := by
    let restore (context : Context) : Context :=
      { context with pending := last.context.pending }
    have restored := congrArg restore settled
    exact restored
  have stop : reading.position.advanceAll (Move.textOf moves) = .after (before ++ text) := by
    rw [covered, stands.position, Position.advanceAll_after]
  have outcome : PugTokens.scan reading.context valid (reading.view (text ++ rest)) =
      ⟨some (shape.kind valid), last.context, moves ++ [.mark]⟩ := by
    rw [scan_value asked]
    simp only [view, ran, shaped, Option.map_some]
  obtain ⟨member, strings⟩ := kind_mem_value valid shape
  refine ⟨shape.kind valid, last.context.pending, ?_, ?_, member, strings, ends⟩
  · rw [stands.scan, tokenAt, outcome]
    simp only [Cursor.span_play_mark reading.source reading.position noSkip,
      Cursor.tokenEnd_play_mark, stop, ← left]
    rw [stands.position]
  · rw [stands.source, ← List.append_assoc]
    exact Text.slice_append before text rest

/-- In `(a?['b']:c)` the token is all that the parentheses hold. -/
theorem scan_expression_ternary :
    let source := ['(', 'a', '?', '[', '\x27', 'b', '\x27', ']', ':', 'c', ')']
    let text := ['a', '?', '[', '\x27', 'b', '\x27', ']', ':', 'c']
    let reading : Reading := { source, position := ⟨1, 1, 1⟩ }
    Value.Expression text ∧
      ∃ kind pending,
        reading.scan .value =
            .ok (some ⟨kind, ⟨⟨1, 1, 1⟩, ⟨10, 1, 10⟩⟩⟩,
              ⟨source, ⟨10, 1, 10⟩, { pending }⟩) ∧
          Span.text source ⟨⟨1, 1, 1⟩, ⟨10, 1, 10⟩⟩ = .ok text ∧
          kind ∈ Kind.value ∧ (kind = .string → Kind.string ∈ KindSet.value) ∧
          (pending = true → Value.EndsQuoted text) := by
  intro source text reading
  have literal : Value.Literal ['\x27', 'b', '\x27'] :=
    .between (by decide) (.plain (by decide) (by decide) .nil)
  have group : Value.Group ['[', '\x27', 'b', '\x27', ']'] :=
    .between (by decide) (.literal literal .nil)
  have asks : Value.Connector ['?'] :=
    ⟨List.forall_mem_singleton.mpr (by decide), '?', List.mem_cons_self, by decide⟩
  have answers : Value.Connector [':'] :=
    ⟨List.forall_mem_singleton.mpr (by decide), ':', List.mem_cons_self, by decide⟩
  have joined : Value.Joined text ['?', ':'] :=
    .join (.part (.word (by decide))) asks
      (.join (.part (.group group)) answers (.operand (.part (.word (by decide)))))
  have expression : Value.Expression text := ⟨['?', ':'], joined, by decide⟩
  have stands : reading.Between ['('] (text ++ [')']) := ⟨rfl, rfl⟩
  have boundary : Value.Boundary reading.context [')'] := .closer (by decide) (by decide)
  exact ⟨expression, scan_expression expression stands (by decide) (by decide) boundary⟩

end Reading

end PugTokens
