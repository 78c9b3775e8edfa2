import PugTokens.Proofs.Reader.Resumption
import PugTokens.Proofs.Reading.Spans

namespace PugTokens

/-! # Nothing that is done with a reader fails

A scan moves along the text that comes next, so each of its moves finds the character
that it asks for, and the text can be looked at behind each of them.  Whatever a
reader does leads from one true place of its text to another, and every token on the
way is a part of the text (`Reader.reachable_safe`).
-/

/-! ## Along the text -/

/-- Moves that step over what comes next, one character at a time, and ask for one
more only at the end. -/
inductive Move.Along : List Char → List Move → Prop
  | nil (text : List Char) : Along text []
  | take {c : Char} {text : List Char} {moves : List Move} :
      Along text moves → Along (c :: text) (.take (some c) :: moves)
  | skip {c : Char} {text : List Char} {moves : List Move} :
      Along text moves → Along (c :: text) (.skip c :: moves)
  | past {moves : List Move} : Along [] moves → Along [] (.take none :: moves)
  | mark {text : List Char} {moves : List Move} :
      Along text moves → Along text (.mark :: moves)

theorem Move.along_append {moves later : List Move} {rest : List Char}
    (inside : .take none ∉ moves) (along : Along rest later) :
    Along (textOf moves ++ rest) (moves ++ later) := by
  induction moves with
  | nil => exact along
  | cons first moves induction =>
      have next := induction fun member => inside (List.mem_cons_of_mem first member)
      cases first with
      | take c =>
          cases c with
          | none => exact absurd List.mem_cons_self inside
          | some c => exact .take next
      | skip c => exact .skip next
      | mark => exact .mark next

theorem Layout.take_none_notMem_scan (context : Context) (valid : KindSet) (view : View) :
    .take none ∉ (Layout.scan context valid view).moves := by
  unfold Layout.scan
  repeat' split
  · exact List.not_mem_nil
  · simp
  · exact List.not_mem_nil
  · unfold measure
    dsimp only
    repeat' split
    all_goals simp
  · exact List.not_mem_nil

theorem Layout.along_scan (context : Context) (valid : KindSet) (view : View) :
    Move.Along view.unread (Layout.scan context valid view).moves := by
  obtain ⟨later, split⟩ := Layout.exists_consumed_append context valid view
  have inside := take_none_notMem_scan context valid view
  have along := Move.along_append inside (.nil later)
  rw [List.append_nil] at along
  rw [split]
  exact along

namespace Value

theorem along_run (progress : Progress) (text : List Char) :
    Move.Along text (run progress text).moves := by
  induction text generalizing progress with
  | nil =>
      unfold run endMoves
      split
      · exact .past (.mark (.nil []))
      · exact .mark (.nil [])
  | cons c rest induction =>
      have covered := textOf_step progress c rest.head?
      have inside : .take none ∉ (step progress c rest.head?).moves := by
        intro member
        rcases moves_step progress c rest.head? _ member with same | same
        · contradiction
        · exact Option.some_ne_none c (Move.take.inj same).symm
      unfold run
      cases stepped : step progress c rest.head? with
      | stop last => exact .mark (.nil (c :: rest))
      | go next moves =>
          rw [stepped] at covered inside
          have along := Move.along_append inside (induction next)
          rwa [covered] at along
      | close last moves =>
          rw [stepped] at covered inside
          have along := Move.along_append inside (.nil rest)
          rwa [covered, List.append_nil] at along

end Value

theorem along_scan (context : Context) (valid : KindSet) (view : View) :
    Move.Along view.unread (scan context valid view).moves := by
  unfold scan
  split
  · rw [Value.scan_eq_run]
    exact Value.along_run { context } view.unread
  · split
    · exact Layout.along_scan context valid view
    · exact .nil view.unread

namespace Cursor

/-- One move, with a look at the text for the character to step over. -/
def moveNext (cursor : Cursor) : Move → Except TextError Cursor
  | .take _ => cursor.takeNext
  | .skip _ => cursor.skipNext
  | .mark => .ok cursor.mark

/-- The moves can be carried out one by one, with a look at the text behind each. -/
def CanPlay (cursor : Cursor) (moves : List Move) : Prop :=
  ∀ done later, moves = done ++ later →
    done.foldlM moveNext cursor = .ok (cursor.play done) ∧
      ∃ next, (cursor.play done).peek = .ok next

variable {cursor : Cursor} {before rest : List Char}

theorem peek_between (source : cursor.source = before ++ rest)
    (position : cursor.position = .after before) : cursor.peek = .ok rest.head? := by
  unfold peek unread
  rw [source, position]
  change (do return (← Text.dropBytes (Text.byteSize before) _).head?) = _
  rw [Text.dropBytes_append]
  rfl

/-- A move along the text finds its character and leads to a true place again. -/
theorem moveNext_along {move : Move} {later : List Move}
    (along : Move.Along rest (move :: later)) (source : cursor.source = before ++ rest)
    (position : cursor.position = .after before) :
    cursor.moveNext move = .ok (cursor.move move) ∧
      ∃ passed left, Move.Along left later ∧ (cursor.move move).source = passed ++ left ∧
        (cursor.move move).position = .after passed := by
  have seen := peek_between source position
  cases along with
  | @take c text _ along =>
      refine ⟨?_, before ++ [c], text, along, ?_, ?_⟩
      · simp only [moveNext, takeNext, seen]
        rfl
      · rw [List.append_assoc]
        exact source
      · exact (congrArg (Position.advance · c) position).trans (Position.advance_after before c)
  | @skip c text _ along =>
      refine ⟨?_, before ++ [c], text, along, ?_, ?_⟩
      · simp only [moveNext, skipNext, seen]
        rfl
      · rw [List.append_assoc]
        exact source
      · exact (congrArg (Position.advance · c) position).trans (Position.advance_after before c)
  | past along =>
      refine ⟨?_, before, [], along, source, position⟩
      simp only [moveNext, takeNext, seen]
      rfl
  | mark along => exact ⟨rfl, before, rest, along, source, position⟩

theorem foldlM_moveNext {moves later : List Move} (along : Move.Along rest (moves ++ later))
    (source : cursor.source = before ++ rest) (position : cursor.position = .after before) :
    moves.foldlM moveNext cursor = .ok (cursor.play moves) ∧
      ∃ next, (cursor.play moves).peek = .ok next := by
  induction moves generalizing cursor before rest with
  | nil => exact ⟨rfl, rest.head?, peek_between source position⟩
  | cons first moves induction =>
      obtain ⟨moved, passed, left, along, source, position⟩ :=
        moveNext_along along source position
      rw [List.foldlM_cons, moved]
      exact induction along source position

theorem canPlay_along {moves : List Move} (along : Move.Along rest moves)
    (source : cursor.source = before ++ rest) (position : cursor.position = .after before) :
    cursor.CanPlay moves := by
  intro done later split
  rw [split] at along
  exact foldlM_moveNext along source position

end Cursor

namespace Reader

open Reading (Operation Answer Placed Stands)

variable {source before rest : List Char} {reader : Reader}

/-! ## Reachable readers -/

/-- What can be relied on with a reader of a text, whatever is done with it next. -/
structure Safe (source : List Char) (reader : Reader) : Prop where
  placed : Placed source reader.cursor.position
  performs : ∀ operation, ∃ answer after, reader.perform operation = .ok (answer, after) ∧
    Placed source after.cursor.position ∧
    ∀ token, answer = .token (some token) → token.span.Sound source
  scans : ∀ valid, ∃ outcome moved,
    reader.cursor.begin.scan reader.context valid = .ok (outcome, moved) ∧
    reader.cursor.begin.CanPlay outcome.moves
  /-- The rest of a line is what stands between the places before and behind it. -/
  skips : ∃ line after, reader.skipLine = .ok (line, after) ∧
    Text.slice source reader.cursor.position.offset after.cursor.position.offset = .ok line
  resumes : ∀ earlier checkpoint, Reachable source earlier →
    earlier.checkpoint = .ok checkpoint →
    ∃ after, reader.resume checkpoint = .ok after ∧ Placed source after.cursor.position

theorem placed_of_stands (stands : Stands source reader.reading) :
    Placed source reader.cursor.position := by
  obtain ⟨before, rest, between, split⟩ := stands
  exact ⟨before, rest, split, between.position⟩

theorem skipLine_slice (stands : reader.reading.Between before rest) :
    ∃ line after, reader.skipLine = .ok (line, after) ∧
      Text.slice (before ++ rest) reader.cursor.position.offset
        after.cursor.position.offset = .ok line := by
  have unread : reader.cursor.unread = .ok rest := stands.unread
  have position : reader.cursor.position = .after before := stands.position
  have slice := Text.slice_append before (rest.takeWhile (· ≠ '\n'))
    (rest.dropWhile (· ≠ '\n'))
  rw [List.append_assoc, List.takeWhile_append_dropWhile] at slice
  unfold skipLine
  rw [unread]
  refine ⟨_, _, rfl, ?_⟩
  dsimp only
  rw [position, Position.advanceAll_after]
  exact slice

/-- Nothing that is done with a reader that comes about from the beginning of a text
fails, all its places are true ones, and its tokens are parts of the text. -/
theorem reachable_safe (reached : Reachable source reader) : Safe source reader where
  placed := placed_of_stands reached.stands
  performs operation := by
    obtain ⟨answer, after, done, performed, standsAfter⟩ :=
      exists_perform reached.stands operation
    refine ⟨answer, after, done, placed_of_stands standsAfter, fun token answered => ?_⟩
    rw [answered] at performed
    exact reached.stands.sound performed
  scans valid := by
    obtain ⟨before, rest, between, _⟩ := reached.stands
    have along := along_scan reader.context valid (reader.reading.view rest)
    exact ⟨_, _, scan_cursor between valid,
      Cursor.canPlay_along along between.source between.position⟩
  skips := by
    obtain ⟨before, rest, between, split⟩ := reached.stands
    rw [split]
    exact skipLine_slice between
  resumes earlier checkpoint reachedEarlier taken := by
    have sameText : reader.cursor.source = earlier.cursor.source := by
      rw [reached.source_cursor, reachedEarlier.source_cursor]
    obtain ⟨after, resumed, view⟩ := resume_eq_ok taken sameText
    refine ⟨after, resumed, placed_of_stands ?_⟩
    rw [view]
    exact reachedEarlier.stands

/-- Behind the line break of a text whose first line is the two bytes of an `é`, a
reader finds the indentation of the second line. -/
theorem reachable_safe_accent :
    let source := ['é', '\n', ' ', 'a']
    let reader : Reader := { cursor := { source, position := ⟨3, 2, 0⟩ } }
    Reachable source reader ∧ Safe source reader ∧
      ∃ after, reader.scan .layout = .ok (some ⟨.indent, .point ⟨3, 2, 0⟩⟩, after) := by
  intro source reader
  let middle : Reader := { cursor := { source, position := ⟨2, 1, 1⟩ } }
  have first : (ofText source).perform .bump = .ok (.char 'é', middle) := rfl
  have second : middle.perform .bump = .ok (.char '\n', reader) := rfl
  have reached : Reachable source reader := .perform .bump (.perform .bump .start first) second
  exact ⟨reached, reachable_safe reached, _, rfl⟩

end Reader

end PugTokens
