import PugTokens.Proofs.Reading.Places
import PugTokens.Reading.Reachable
import PugTokens.Value.Trace

namespace PugTokens

/-! # What is done with a reading keeps it at a true place

A scan steps over text that comes next, and the end of its token lies within
what it stepped over.  So nothing that can be done with a reading at a true place
of its text fails, and all of it leads to such a place.
-/

theorem Layout.exists_consumed_append (context : Context) (valid : KindSet) (view : View) :
    ∃ later, view.unread = (Layout.scan context valid view).consumed ++ later := by
  obtain ⟨unread, lineStart⟩ := view
  cases unread with
  | nil => exact ⟨[], rfl⟩
  | cons c rest =>
      unfold Layout.scan
      dsimp only
      split
      · split
        · exact ⟨rest, rfl⟩
        · exact ⟨c :: rest, rfl⟩
      · split
        · rw [consumed_measure]
          exact ⟨(c :: rest).dropWhile isBlank, List.takeWhile_append_dropWhile.symm⟩
        · exact ⟨c :: rest, rfl⟩

theorem Value.exists_consumed_append (context : Context) (valid : KindSet) (view : View) :
    ∃ later, view.unread = (Value.scan context valid view).consumed ++ later := by
  rw [Value.scan_eq_run]
  exact exists_run_append { context } view.unread

/-- A scan steps over what comes next. -/
theorem exists_consumed_append (context : Context) (valid : KindSet) (view : View) :
    ∃ later, view.unread = (scan context valid view).consumed ++ later := by
  unfold scan
  split
  · exact Value.exists_consumed_append context valid view
  · split
    · exact Layout.exists_consumed_append context valid view
    · exact ⟨view.unread, rfl⟩

namespace Cursor

/-- The last mark lies behind a part of what is stepped over. -/
theorem marked_play (cursor : Cursor) (moves : List Move) :
    (cursor.play moves).marked = cursor.marked ∨
      ∃ covered later, Move.textOf moves = covered ++ later ∧
        (cursor.play moves).marked = some (cursor.position.advanceAll covered) := by
  induction moves generalizing cursor with
  | nil => exact .inl rfl
  | cons first moves induction =>
      have after : (cursor.move first).position = cursor.position.advanceAll first.text :=
        position_move cursor first
      rcases induction (cursor.move first) with same | ⟨covered, later, split, marked⟩
      · cases first with
        | take c => exact .inl (by cases c <;> exact same)
        | skip c => exact .inl same
        | mark => exact .inr ⟨[], Move.textOf moves, rfl, same⟩
      · refine .inr ⟨first.text ++ covered, later, ?_, ?_⟩
        · rw [Move.textOf_cons, split, List.append_assoc]
        · rw [Position.advanceAll_append, ← after]
          exact marked

theorem tokenEnd_play (cursor : Cursor) (fresh : cursor.marked = none)
    (moves : List Move) :
    ∃ covered later, Move.textOf moves = covered ++ later ∧
      (cursor.play moves).tokenEnd = cursor.position.advanceAll covered := by
  unfold tokenEnd
  rcases marked_play cursor moves with same | ⟨covered, later, split, marked⟩
  · refine ⟨Move.textOf moves, [], by simp, ?_⟩
    rw [same, fresh]
    exact position_play cursor moves
  · exact ⟨covered, later, split, by rw [marked]; rfl⟩

end Cursor

namespace Reading

variable {reading : Reading} {before rest : List Char}

/-- The reading stands at a true place of the text. -/
def Stands (source : List Char) (reading : Reading) : Prop :=
  ∃ before rest, reading.Between before rest ∧ source = before ++ rest

theorem Between.stands (stands : reading.Between before rest) :
    Stands (before ++ rest) reading :=
  ⟨before, rest, stands, rfl⟩

theorem Between.pass_stands {text later : List Char}
    (stands : reading.Between before (text ++ later)) :
    Stands (before ++ (text ++ later)) (reading.pass text) := by
  have passed := stands.pass.stands
  rwa [List.append_assoc] at passed

/-- A token ends within the text to come. -/
theorem Between.exists_tokenAt (stands : reading.Between before rest) (valid : KindSet) :
    ∃ passed later, rest = passed ++ later ∧
      (reading.tokenAt valid rest).2.Between (before ++ passed) later := by
  obtain ⟨unseen, consumed⟩ :=
    exists_consumed_append reading.context valid (reading.view rest)
  unfold Reading.tokenAt
  dsimp only
  cases (PugTokens.scan reading.context valid (reading.view rest)).kind with
  | none => exact ⟨[], rest, rfl, by rwa [List.append_nil]⟩
  | some kind =>
      obtain ⟨covered, later, split, stop⟩ :=
        (Cursor.ofPlace reading.source reading.position).tokenEnd_play rfl
          (PugTokens.scan reading.context valid (reading.view rest)).moves
      have whole : rest = covered ++ (later ++ unseen) := by
        rw [← List.append_assoc, ← split]
        exact consumed
      refine ⟨covered, later ++ unseen, whole, ?_, ?_⟩
      · rw [List.append_assoc, ← whole]
        exact stands.source
      · dsimp only
        rw [stop]
        exact (congrArg (Position.advanceAll · covered) stands.position).trans
          (Position.advanceAll_after before covered)

theorem Between.tokenAt (stands : reading.Between before rest) (valid : KindSet) :
    Stands (before ++ rest) (reading.tokenAt valid rest).2 := by
  obtain ⟨passed, later, split, place⟩ := stands.exists_tokenAt valid
  exact ⟨before ++ passed, later, place, by rw [List.append_assoc, ← split]⟩

/-- At a true place nothing fails, and everything leads to a true place. -/
theorem Stands.perform {source : List Char} (stands : Stands source reading)
    (operation : Operation) :
    ∃ answer after, reading.perform operation = .ok (answer, after) ∧
      Stands source after := by
  obtain ⟨before, rest, between, rfl⟩ := stands
  cases operation with
  | scan valid =>
      refine ⟨.token (reading.tokenAt valid rest).1, _, ?_, between.tokenAt valid⟩
      simp only [Reading.perform, between.scan, bind, Except.bind]
      rfl
  | bump =>
      cases rest with
      | nil =>
          simp only [Reading.perform, between.bump_end, bind, Except.bind]
          exact ⟨_, _, rfl, between.stands⟩
      | cons c later =>
          have passed : Stands (before ++ c :: later) (reading.pass [c]) := between.pass_stands
          simp only [Reading.perform, between.bump, bind, Except.bind]
          exact ⟨_, _, rfl, passed⟩
  | skipLine =>
      let line := rest.takeWhile (· ≠ '\n')
      refine ⟨.text line, reading.pass line, ?_, ?_⟩
      · simp only [Reading.perform, between.skipLine, bind, Except.bind]
        rfl
      · have split := List.takeWhile_append_dropWhile (p := (· ≠ '\n')) (l := rest)
        rw [← split] at between
        have passed := between.pass_stands
        rwa [split] at passed
  | closeLevel =>
      refine ⟨_, _, rfl, before, rest, ?_, rfl⟩
      unfold Reading.closeLevel
      split
      · exact between
      · exact ⟨between.source, between.position⟩
  | atEnd =>
      simp only [Reading.perform, between.atEnd, bind, Except.bind]
      exact ⟨_, _, rfl, between.stands⟩
  | rest =>
      simp only [Reading.perform, between.unread, bind, Except.bind, pure, Except.pure]
      exact ⟨_, _, rfl, between.stands⟩
  | checkpoint => exact ⟨_, _, rfl, between.stands⟩
  | encode => exact ⟨_, _, rfl, between.stands⟩

theorem Stands.performAll {source : List Char} (stands : Stands source reading)
    (operations : List Operation) : ∃ trail, reading.performAll operations = .ok trail := by
  induction operations generalizing reading with
  | nil => exact ⟨[], rfl⟩
  | cons operation later induction =>
      obtain ⟨answer, after, performed, standsAfter⟩ := stands.perform operation
      obtain ⟨trail, rest⟩ := induction standsAfter
      refine ⟨(answer, after) :: trail, ?_⟩
      simp only [Reading.performAll, performed, rest, bind, Except.bind]
      rfl

end Reading

end PugTokens
