import PugTokens.Proofs.Reading.Places

namespace PugTokens

/-! # Layout tokens of a reading

What a reading finds when every layout token is asked for, by what it stands
in front of.  A line break is passed over and its token lies behind it.  At the
beginning of a line the leading blanks are looked at from the first of them,
which is where the token lies and where the reading stays.
-/

namespace Cursor

theorem tokenStart_play_skips (cursor : Cursor) (blanks : List Char)
    (fresh : cursor.hasText = false) (begun : cursor.tokenStart = cursor.position) :
    (cursor.play (blanks.map .skip)).tokenStart = cursor.position.advanceAll blanks := by
  induction blanks generalizing cursor with
  | nil => exact begun
  | cons c blanks induction =>
      have moved : (cursor.skip c).tokenStart = (cursor.skip c).position := by
        simp [skip, fresh]
      exact induction (cursor.skip c) fresh moved

theorem marked_play_skips (cursor : Cursor) (blanks : List Char) :
    (cursor.play (blanks.map .skip)).marked = cursor.marked := by
  induction blanks generalizing cursor with
  | nil => rfl
  | cons c blanks induction => exact induction (cursor.skip c)

/-- A token that is marked before the blanks in front of it are skipped has no
    text. -/
theorem span_mark_skips (source : List Char) (position : Position) (blanks : List Char) :
    ((ofPlace source position).play (.mark :: blanks.map .skip)).span = .point position := by
  let marked := (ofPlace source position).mark
  have ended : (marked.play (blanks.map .skip)).tokenEnd = position := by
    unfold tokenEnd
    rw [marked_play_skips]
    rfl
  have start : (marked.play (blanks.map .skip)).tokenStart = position.advanceAll blanks :=
    tokenStart_play_skips marked blanks rfl rfl
  change (marked.play (blanks.map .skip)).span = _
  unfold span
  rw [ended, start]
  split
  · rfl
  · next outside =>
      rw [Position.offset_advanceAll] at outside
      cases blanks with
      | nil => rfl
      | cons c blanks =>
          have positive := c.utf8Size_pos
          rw [Text.byteSize_cons] at outside
          omega

theorem tokenEnd_mark_skips (source : List Char) (position : Position)
    (blanks : List Char) :
    ((ofPlace source position).play (.mark :: blanks.map .skip)).tokenEnd = position := by
  change ((ofPlace source position).mark.play (blanks.map .skip)).tokenEnd = _
  unfold tokenEnd
  rw [marked_play_skips]
  rfl

end Cursor

namespace Reading

variable {reading : Reading} {before rest : List Char}

theorem scan_layout (context : Context) (view : View) :
    PugTokens.scan context .layout view = Layout.scan context .layout view := rfl

theorem tokenAt_layout_end (reading : Reading) :
    reading.tokenAt .layout [] = (none, reading) := rfl

theorem tokenAt_layout_newline (stands : reading.Between before ('\n' :: rest)) :
    reading.tokenAt .layout ('\n' :: rest) =
      (some ⟨.newline, .point (.after (before ++ ['\n']))⟩, reading.pass ['\n']) := by
  have place : reading.position.advance '\n' = .after (before ++ ['\n']) := by
    rw [stands.position, Position.advance_after]
  have skipped : reading.tokenAt .layout ('\n' :: rest) =
      (some ⟨.newline, .point (reading.position.advance '\n')⟩, reading.pass ['\n']) := by
    unfold tokenAt
    rw [scan_layout]
    simp only [view, Layout.scan, KindSet.mem_iff, reduceIte]
    simp [KindSet.layout, KindSet.ofList, Kind.layout, KindSet.empty, KindSet.insert,
      KindSet.allows, Cursor.play, Cursor.move, Cursor.skip, Cursor.ofPlace, Cursor.goTo,
      Cursor.begin, Cursor.span, Cursor.tokenEnd, Span.point, pass, Position.advanceAll]
  rw [skipped, place]

/-- What is found at the beginning of a line that is not empty. -/
theorem tokenAt_layout_line (reading : Reading) {c : Char}
    (lineStart : reading.position.column = 0)
    (inLine : c ≠ '\n') :
    reading.tokenAt .layout (c :: rest) =
      let wide := Layout.width (Layout.leading (c :: rest))
      if reading.context.level < wide then
        (some ⟨.indent, .point reading.position⟩,
          { reading with context := reading.context.indent wide })
      else if wide < reading.context.level then
        (some ⟨.dedent, .point reading.position⟩,
          { reading with context := reading.context.dedent })
      else (none, reading) := by
  have indents : Kind.indent ∈ KindSet.layout := by decide
  have dedents : Kind.dedent ∈ KindSet.layout := by decide
  unfold tokenAt
  rw [scan_layout]
  simp only [view, Layout.scan, if_neg inLine, lineStart, decide_true, if_true,
    Layout.measure, indents, dedents, and_true]
  by_cases wider : reading.context.level < Layout.width (Layout.leading (c :: rest))
  · simp only [if_pos wider, Cursor.span_mark_skips, Cursor.tokenEnd_mark_skips]
  · by_cases narrower : Layout.width (Layout.leading (c :: rest)) < reading.context.level
    · simp only [if_neg wider, if_pos narrower, Cursor.span_mark_skips,
        Cursor.tokenEnd_mark_skips]
    · simp only [if_neg wider, if_neg narrower]

end Reading

end PugTokens
