import PugTokens.Cursor.Calls
import PugTokens.Proofs.Reader.Safety

namespace PugTokens

/-! # Tokens for any order of calls

A cursor keeps where the token began, the last mark and whether a character of the token has
been taken.  After any calls these are what the record of the calls says (`Traced.agrees`), so
that a token covers what lies between the opening that the record gives and the last mark, or
the cursor if there is none (`traced_finish`).
-/

open Reading (Placed)

namespace Cursor

variable {source : List Char} {cursor : Cursor} {trace : List Step} {step : Step}

/-! ## One more call on the record -/

theorem lastAfter_concat (steps : List Step) (step : Step) (chosen : Step → Bool) :
    lastAfter (steps ++ [step]) chosen =
      if chosen step then some step.after else lastAfter steps chosen := by
  rw [lastAfter, List.filter_append]
  by_cases isChosen : chosen step = true
  · rw [if_pos isChosen, List.filter_cons_of_pos isChosen, List.filter_nil, List.getLast?_concat]
    rfl
  · rw [if_neg isChosen, List.filter_cons_of_neg isChosen, List.filter_nil, List.append_nil]
    rfl

theorem ofToken_begins (begins : step.begins = true) : ofToken (trace ++ [step]) = [] :=
  List.rtakeWhile_concat_neg _ _ _ (by simp [begins])

theorem ofToken_within (within : step.begins = false) :
    ofToken (trace ++ [step]) = ofToken trace ++ [step] :=
  List.rtakeWhile_concat_pos _ _ _ (by simp [within])

/-- Whether a character of the token has been taken. -/
def taken (trace : List Step) : Bool := (ofToken trace).any Step.takes

theorem taken_within (within : step.begins = false) :
    taken (trace ++ [step]) = (taken trace || step.takes) := by
  rw [taken, ofToken_within within, List.any_append, List.any_cons, List.any_nil,
    Bool.or_false]
  rfl

theorem lastMark_within (within : step.begins = false) :
    lastMark (trace ++ [step]) = if step.marks then some step.after else lastMark trace := by
  rw [lastMark, ofToken_within within, lastAfter_concat]
  rfl

/-- Behind the first character of the token the leading calls stay as they are. -/
theorem leading_taken (within : step.begins = false) (text : taken trace = true) :
    leading (trace ++ [step]) = leading trace := by
  obtain ⟨first, member, takes⟩ := List.any_eq_true.mp text
  rw [leading, leading, ofToken_within within, List.takeWhile_append, if_neg]
  intro whole
  have leads := List.takeWhile_eq_self_iff.mp
    ((List.takeWhile_prefix _).eq_of_length whole) first member
  simp [takes] at leads

theorem leading_untaken (within : step.begins = false) (noText : taken trace = false) :
    leading (trace ++ [step]) =
      if step.takes then ofToken trace else ofToken trace ++ [step] := by
  have leads : ∀ earlier ∈ ofToken trace, (!earlier.takes) = true := by
    simpa [taken] using noText
  rw [leading, ofToken_within within, List.takeWhile_append_of_pos leads]
  cases takes : step.takes <;> simp [takes]

theorem opening_begins (begins : step.begins = true) : opening (trace ++ [step]) = step.after := by
  rw [opening, leading, ofToken_begins begins, begunAt, lastAfter_concat, if_pos begins]
  rfl

theorem skips_of_takes (takes : step.takes = true) : step.skips = false := by
  have call := (of_decide_eq_true takes).1
  simp [Step.skips, call]

/-- A skip moves the opening only in front of the first character of the token. -/
theorem opening_within (within : step.begins = false) :
    opening (trace ++ [step]) =
      if step.skips ∧ taken trace = false then step.after else opening trace := by
  have begun : begunAt (trace ++ [step]) = begunAt trace := by
    rw [begunAt, lastAfter_concat, within]
    rfl
  rw [opening, begun]
  cases text : taken trace with
  | true => rw [leading_taken within text, if_neg (by simp)]; rfl
  | false =>
      have all : leading trace = ofToken trace :=
        List.takeWhile_eq_self_iff.mpr (by simpa [taken] using text)
      rw [leading_untaken within text, opening, all]
      cases takes : step.takes with
      | true => simp [skips_of_takes takes]
      | false =>
          rw [if_neg Bool.false_ne_true, lastAfter_concat]
          cases step.skips <;> simp

/-! ## One more call on the cursor -/

/-- The cursor is at a true place of its text and keeps what the record says. -/
structure Agrees (source : List Char) (trace : List Step) (cursor : Cursor) : Prop where
  text : cursor.source = source
  placed : Placed source cursor.position
  placedStart : Placed source cursor.tokenStart
  placedMark : ∀ position ∈ cursor.marked, Placed source position
  start : cursor.tokenStart = opening trace
  marked : cursor.marked = lastMark trace
  hasText : cursor.hasText = taken trace

variable {position : Position}

theorem Agrees.tokenEnd (agrees : Agrees source trace cursor) :
    Placed source cursor.tokenEnd := by
  unfold Cursor.tokenEnd
  cases marked : cursor.marked with
  | none => exact agrees.placed
  | some position => exact agrees.placedMark position (by simp [marked])

/-- A new token is begun at a true place. -/
theorem Agrees.goTo (agrees : Agrees source trace cursor) (placed : Placed source position)
    (begins : step.begins = true) (leads : step.after = position) :
    Agrees source (trace ++ [step]) (cursor.goTo position) where
  text := agrees.text
  placed := placed
  placedStart := placed
  placedMark := nofun
  start := by rw [opening_begins begins, leads]; rfl
  marked := by rw [lastMark, ofToken_begins begins]; rfl
  hasText := by rw [taken, ofToken_begins begins]; rfl

/-- Nothing is told of the token by a call that takes, skips and marks nothing. -/
theorem Agrees.pass (agrees : Agrees source trace cursor) (placed : Placed source position)
    (within : step.begins = false) (takesNone : step.takes = false)
    (skipsNone : step.skips = false) (marksNone : step.marks = false) :
    Agrees source (trace ++ [step]) { cursor with position } where
  text := agrees.text
  placed := placed
  placedStart := agrees.placedStart
  placedMark := agrees.placedMark
  start := by
    rw [opening_within within, if_neg (by simp [skipsNone])]
    exact agrees.start
  marked := by
    rw [lastMark_within within, if_neg (by simp [marksNone])]
    exact agrees.marked
  hasText := by
    rw [taken_within within, takesNone, Bool.or_false]
    exact agrees.hasText

theorem Agrees.mark (agrees : Agrees source trace cursor) :
    Agrees source (trace ++ [⟨.mark, cursor.position, cursor.position⟩]) cursor.mark where
  text := agrees.text
  placed := agrees.placed
  placedStart := agrees.placedStart
  placedMark := by
    rintro position ⟨⟩
    exact agrees.placed
  start := by
    rw [opening_within rfl, if_neg (by simp [Step.skips])]
    exact agrees.start
  marked := by rw [lastMark_within rfl]; rfl
  hasText := by
    rw [taken_within rfl, agrees.hasText.symm]
    simp [Step.takes, Cursor.mark]

theorem advance_ne (position : Position) (c : Char) : position ≠ position.advance c := by
  intro same
  have offset := congrArg Position.offset same
  have positive := c.utf8Size_pos
  rw [Position.offset_advance] at offset
  omega

theorem Agrees.take {c : Char} (agrees : Agrees source trace cursor)
    (placed : Placed source (cursor.position.advance c)) :
    Agrees source (trace ++ [⟨.take, cursor.position, cursor.position.advance c⟩])
      (cursor.take c) where
  text := agrees.text
  placed := placed
  placedStart := agrees.placedStart
  placedMark := agrees.placedMark
  start := by
    rw [opening_within rfl, if_neg (by simp [Step.skips])]
    exact agrees.start
  marked := by
    rw [lastMark_within rfl]
    exact agrees.marked
  hasText := by
    rw [taken_within rfl]
    simp [Step.takes, advance_ne, Cursor.take]

theorem Agrees.skip {c : Char} (agrees : Agrees source trace cursor)
    (placed : Placed source (cursor.position.advance c)) :
    Agrees source (trace ++ [⟨.skip, cursor.position, cursor.position.advance c⟩])
      (cursor.skip c) := by
  have skips : Step.skips ⟨.skip, cursor.position, cursor.position.advance c⟩ = true := by
    simp [Step.skips, advance_ne]
  have start : (cursor.skip c).tokenStart =
      if cursor.hasText then cursor.tokenStart else cursor.position.advance c := rfl
  refine ⟨agrees.text, placed, ?_, agrees.placedMark, ?_, ?_, ?_⟩
  · rw [start]
    split
    · exact agrees.placedStart
    · exact placed
  · rw [opening_within rfl, start, agrees.hasText]
    cases taken trace <;> simp [skips, agrees.start]
  · rw [lastMark_within rfl]
    exact agrees.marked
  · rw [taken_within rfl]
    simp [Step.takes, Cursor.skip, agrees.hasText]

/-- What the cursor sees at a true place: the end of the text, or a character behind which
there is a true place again. -/
theorem Agrees.peek (agrees : Agrees source trace cursor) :
    cursor.peek = .ok none ∨
      ∃ c, cursor.peek = .ok (some c) ∧ Placed source (cursor.position.advance c) := by
  obtain ⟨before, rest, split, position⟩ := agrees.placed
  have seen := peek_between (agrees.text.trans split) position
  cases rest with
  | nil => exact .inl seen
  | cons c rest =>
      refine .inr ⟨c, seen, before ++ [c], rest, ?_, ?_⟩
      · rw [split, List.append_assoc]
        rfl
      · rw [position, Position.advance_after]

/-- Every call but one that goes elsewhere succeeds, and the record tells of it what the
cursor keeps. -/
theorem Agrees.call (agrees : Agrees source trace cursor) {call : Call}
    (stays : ∀ position, call ≠ .goTo position) :
    ∃ after, cursor.call call = .ok after ∧
      Agrees source (trace ++ [⟨call, cursor.position, after.position⟩]) after := by
  cases call with
  | begin => exact ⟨_, rfl, agrees.goTo agrees.placed rfl rfl⟩
  | finish => exact ⟨_, rfl, agrees.goTo agrees.tokenEnd rfl rfl⟩
  | mark => exact ⟨_, rfl, agrees.mark⟩
  | goTo position => exact absurd rfl (stays position)
  | take =>
      rcases agrees.peek with seen | ⟨c, seen, placed⟩
      · refine ⟨cursor, by simp only [Cursor.call, takeNext, seen]; rfl, ?_⟩
        exact agrees.pass agrees.placed rfl (by simp [Step.takes]) rfl rfl
      · exact ⟨_, by simp only [Cursor.call, takeNext, seen]; rfl, agrees.take placed⟩
  | skip =>
      rcases agrees.peek with seen | ⟨c, seen, placed⟩
      · refine ⟨cursor, by simp only [Cursor.call, skipNext, seen]; rfl, ?_⟩
        exact agrees.pass agrees.placed rfl rfl (by simp [Step.skips]) rfl
      · exact ⟨_, by simp only [Cursor.call, skipNext, seen]; rfl, agrees.skip placed⟩
  | bump =>
      rcases agrees.peek with seen | ⟨c, seen, placed⟩
      · refine ⟨cursor, by simp only [Cursor.call, Cursor.bump, seen]; rfl, ?_⟩
        exact agrees.pass agrees.placed rfl rfl rfl rfl
      · exact ⟨_, by simp only [Cursor.call, Cursor.bump, seen]; rfl,
          agrees.pass placed rfl rfl rfl rfl⟩

/-! ## Any calls -/

theorem Traced.agrees (traced : Traced source trace cursor) : Agrees source trace cursor := by
  induction traced with
  | new => exact ⟨rfl, ⟨[], source, rfl, rfl⟩, ⟨[], source, rfl, rfl⟩, nofun, rfl, rfl, rfl⟩
  | call call _ stays called agrees =>
      obtain ⟨after, again, agreesAfter⟩ := agrees.call stays
      cases called.symm.trans again
      exact agreesAfter
  | goTo _ _ agrees agreesEarlier => exact agrees.goTo agreesEarlier.placed rfl rfl

/-- Whatever was called before, every call succeeds, and one to finish the token answers with
the part of the text from its opening to the last mark, or to the cursor if nothing was marked.
If the opening lies beyond the end the token is the point of its end.  The next token begins
there. -/
theorem traced_finish (traced : Traced source trace cursor) :
    let stop := (lastMark trace).getD cursor.position
    let start := if stop.offset < (opening trace).offset then stop else opening trace
    cursor.finish = (⟨start, stop⟩, { source, position := stop, tokenStart := stop }) ∧
      Span.Sound source ⟨start, stop⟩ ∧
      Traced source (trace ++ [⟨.finish, cursor.position, stop⟩]) cursor.finish.2 ∧
      ∀ call, ∃ after, cursor.call call = .ok after := by
  intro stop start
  have agrees := traced.agrees
  have ends : cursor.tokenEnd = stop := by
    rw [tokenEnd, agrees.marked]
  have covers : cursor.span = ⟨start, stop⟩ := by
    rw [span, ends, agrees.start]
    dsimp only [start]
    split <;> rfl
  have begun : cursor.goTo stop = { source, position := stop, tokenStart := stop } := by
    rw [← agrees.text]
    rfl
  have sound := sound_span agrees.placedStart agrees.tokenEnd
  rw [covers] at sound
  have finished : cursor.finish =
      (⟨start, stop⟩, { source, position := stop, tokenStart := stop }) := by
    rw [finish, covers, ends, begun]
  refine ⟨finished, sound, ?_, fun call => ?_⟩
  · have called : cursor.call .finish = .ok cursor.finish.2 := rfl
    have recorded := traced.call .finish (by simp) called
    rw [finished] at recorded ⊢
    exact recorded
  · by_cases elsewhere : ∃ position, call = .goTo position
    · obtain ⟨position, rfl⟩ := elsewhere
      exact ⟨_, rfl⟩
    · obtain ⟨after, called, _⟩ := agrees.call (not_exists.mp elsewhere)
      exact ⟨after, called⟩

/-- In front of an `a` a line break is skipped, the end is marked and a blank is skipped: the
opening behind the blank lies beyond the end.  The blank behind the `a` does not count. -/
theorem traced_finish_beyond :
    let source := ['\n', ' ', 'a', ' ']
    let trace : List Step :=
      [⟨.skip, ⟨0, 1, 0⟩, ⟨1, 2, 0⟩⟩, ⟨.mark, ⟨1, 2, 0⟩, ⟨1, 2, 0⟩⟩,
        ⟨.skip, ⟨1, 2, 0⟩, ⟨2, 2, 1⟩⟩, ⟨.take, ⟨2, 2, 1⟩, ⟨3, 2, 2⟩⟩,
        ⟨.skip, ⟨3, 2, 2⟩, ⟨4, 2, 3⟩⟩]
    ∃ cursor, Traced source trace cursor ∧ opening trace = ⟨2, 2, 1⟩ ∧
      lastMark trace = some ⟨1, 2, 0⟩ ∧
      cursor.finish = (.point ⟨1, 2, 0⟩,
        { source, position := ⟨1, 2, 0⟩, tokenStart := ⟨1, 2, 0⟩ }) := by
  intro source trace
  have first : Traced source [] { source } := .new
  have second := first.call .skip (by simp) rfl
  have third := second.call .mark (by simp) rfl
  have fourth := third.call .skip (by simp) rfl
  have fifth := fourth.call .take (by simp) rfl
  have traced := fifth.call .skip (by simp) rfl
  exact ⟨_, traced, rfl, rfl, (traced_finish traced).1⟩

end Cursor

end PugTokens
