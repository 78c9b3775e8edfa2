import PugTokens.Proofs.Reading.Tokens

namespace PugTokens

/-! # Tokens are parts of their text

A token begins and ends behind parts of what its scan stepped over.  Neither of the
two parts need lie within the other, since blanks can be skipped behind the mark of
the end; the span is a point then.  So a token always is a part of the text, with
both ends at true places (`Reading.Stands.sound`).
-/

/-- The span is a part of the text, and both its ends are true places of it. -/
structure Span.Sound (source : List Char) (span : Span) : Prop where
  start : Reading.Placed source span.start
  stop : Reading.Placed source span.stop
  forward : span.start.offset ≤ span.stop.offset
  within : span.stop.offset ≤ Text.byteSize source
  readable : ∃ text, span.text source = .ok text

namespace Span

theorem sound_between (before text later : List Char) :
    Sound (before ++ text ++ later) ⟨.after before, .after (before ++ text)⟩ where
  start := ⟨before, text ++ later, List.append_assoc before text later, rfl⟩
  stop := ⟨before ++ text, later, rfl, rfl⟩
  forward := by
    simp only [Position.after, Text.byteSize_append]
    omega
  within := by
    simp only [Position.after, Text.byteSize_append]
    omega
  readable := ⟨text, Text.slice_append before text later⟩

theorem sound_point (before later : List Char) :
    Sound (before ++ later) (.point (.after before)) := by
  have empty := sound_between before [] later
  rwa [List.append_nil] at empty

end Span

theorem Text.eq_nil_of_byteSize {text : List Char} (empty : byteSize text = 0) :
    text = [] := by
  have few := length_le_byteSize text
  rw [empty] at few
  exact List.length_eq_zero_iff.mp (Nat.le_zero.mp few)

/-- Of two beginnings of one text the one with no more bytes is a part of the other. -/
theorem Text.exists_append_of_byteSize_le {short long behind later : List Char}
    (same : short ++ behind = long ++ later) (fewer : byteSize short ≤ byteSize long) :
    ∃ middle, long = short ++ middle := by
  rcases List.append_eq_append_iff.mp same with ⟨middle, longer, _⟩ | ⟨middle, longer, _⟩
  · exact ⟨middle, longer⟩
  · have empty : middle = [] := by
      apply eq_nil_of_byteSize
      rw [longer, byteSize_append] at fewer
      omega
    exact ⟨[], by rw [longer, empty, List.append_nil, List.append_nil]⟩

/-- Of two true places of a text what lies between them is a part of it. -/
theorem Span.sound_of_placed {source : List Char} {start stop : Position}
    (placedStart : Reading.Placed source start) (placedStop : Reading.Placed source stop)
    (forward : start.offset ≤ stop.offset) : Sound source ⟨start, stop⟩ := by
  obtain ⟨before, rest, rfl, rfl⟩ := placedStart
  obtain ⟨longer, later, split, rfl⟩ := placedStop
  obtain ⟨middle, rfl⟩ := Text.exists_append_of_byteSize_le split forward
  rw [split]
  exact sound_between before middle later

namespace Cursor

variable {before covered unseen : List Char}

theorem sound_span {source : List Char} {cursor : Cursor}
    (placedStart : Reading.Placed source cursor.tokenStart)
    (placedEnd : Reading.Placed source cursor.tokenEnd) : cursor.span.Sound source := by
  unfold span
  split
  · -- Blanks were skipped behind the mark, and the token is a point.
    exact Span.sound_of_placed placedEnd placedEnd (Nat.le_refl _)
  · next reached => exact Span.sound_of_placed placedStart placedEnd (Nat.not_lt.mp reached)

/-- The beginning of the token stays or lies behind a part of what is stepped over. -/
theorem tokenStart_play_or (cursor : Cursor) (moves : List Move) :
    (cursor.play moves).tokenStart = cursor.tokenStart ∨
      ∃ covered later, Move.textOf moves = covered ++ later ∧
        (cursor.play moves).tokenStart = cursor.position.advanceAll covered := by
  induction moves generalizing cursor with
  | nil => exact .inl rfl
  | cons first moves induction =>
      have after : (cursor.move first).position = cursor.position.advanceAll first.text :=
        position_move cursor first
      rcases induction (cursor.move first) with same | ⟨covered, later, split, start⟩
      · cases first with
        | take c => exact .inl (by cases c <;> exact same)
        | skip c =>
            cases text : cursor.hasText with
            | true =>
                refine .inl (same.trans ?_)
                exact if_pos text
            | false =>
                refine .inr ⟨[c], Move.textOf moves, rfl, same.trans ?_⟩
                exact if_neg (by rw [text]; nofun)
        | mark => exact .inl same
      · refine .inr ⟨first.text ++ covered, later, ?_, ?_⟩
        · rw [Move.textOf_cons, split, List.append_assoc]
        · rw [Position.advanceAll_append, ← after]
          exact start

theorem exists_tokenStart_play (cursor : Cursor) (fresh : cursor.tokenStart = cursor.position)
    (moves : List Move) :
    ∃ covered later, Move.textOf moves = covered ++ later ∧
      (cursor.play moves).tokenStart = cursor.position.advanceAll covered := by
  rcases tokenStart_play_or cursor moves with same | parts
  · exact ⟨[], Move.textOf moves, rfl, same.trans fresh⟩
  · exact parts

/-- A token that begins at a true place is a part of the text if what its scan steps
over comes next in the text. -/
theorem sound_span_play {cursor : Cursor} {moves : List Move}
    (position : cursor.position = .after before) (fresh : cursor.tokenStart = cursor.position)
    (unmarked : cursor.marked = none) :
    (cursor.play moves).span.Sound (before ++ (Move.textOf moves ++ unseen)) := by
  obtain ⟨opening, behind, splitStart, start⟩ := exists_tokenStart_play cursor fresh moves
  obtain ⟨covered, later, splitStop, stop⟩ := tokenEnd_play cursor unmarked moves
  rw [position, Position.advanceAll_after] at start stop
  refine sound_span ⟨before ++ opening, behind ++ unseen, ?_, start⟩
    ⟨before ++ covered, later ++ unseen, ?_, stop⟩
  · rw [splitStart, List.append_assoc, List.append_assoc]
  · rw [splitStop, List.append_assoc, List.append_assoc]

end Cursor

namespace Reading

variable {reading : Reading} {before rest source : List Char} {token : Token}

theorem Between.sound_tokenAt (stands : reading.Between before rest) {valid : KindSet}
    (found : (reading.tokenAt valid rest).1 = some token) :
    token.span.Sound (before ++ rest) := by
  let outcome := PugTokens.scan reading.context valid (reading.view rest)
  obtain ⟨unseen, consumed⟩ :=
    exists_consumed_append reading.context valid (reading.view rest)
  have place : (Cursor.ofPlace reading.source reading.position).position = .after before :=
    stands.position
  have sound : Span.Sound (before ++ (outcome.consumed ++ unseen))
      ((Cursor.ofPlace reading.source reading.position).play outcome.moves).span :=
    Cursor.sound_span_play place rfl rfl
  rw [← consumed] at sound
  unfold Reading.tokenAt at found
  dsimp only at found
  cases kind : outcome.kind with
  | none =>
      rw [kind] at found
      contradiction
  | some answer =>
      rw [kind, Option.some.injEq] at found
      rw [← found]
      exact sound

theorem Between.sound_closeLevel (stands : reading.Between before rest)
    (found : reading.closeLevel.1 = some token) : token.span.Sound (before ++ rest) := by
  unfold Reading.closeLevel at found
  split at found
  · contradiction
  · rw [Option.some.injEq] at found
    rw [← found, stands.position]
    exact Span.sound_point before rest

/-- A token that is answered at a true place is a part of the text. -/
theorem Stands.sound {after : Reading} {operation : Operation}
    (stands : Stands source reading)
    (performed : reading.perform operation = .ok (.token (some token), after)) :
    token.span.Sound source := by
  obtain ⟨before, rest, between, rfl⟩ := stands
  cases operation with
  | scan valid =>
      simp only [Reading.perform, between.scan, bind, Except.bind, pure, Except.pure,
        Except.ok.injEq, Prod.mk.injEq, Answer.token.injEq] at performed
      exact between.sound_tokenAt performed.1
  | closeLevel =>
      simp only [Reading.perform, Except.ok.injEq, Prod.mk.injEq, Answer.token.injEq]
        at performed
      exact between.sound_closeLevel performed.1
  | bump | skipLine | atEnd | rest =>
      simp [Reading.perform, Reading.bump, Reading.atEnd, between.skipLine, between.unread,
        bind, Except.bind, pure, Except.pure] at performed
  | checkpoint | encode => simp [Reading.perform] at performed

end Reading

end PugTokens
