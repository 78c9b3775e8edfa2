import PugTokens.Proofs.Context.RoundTrip
import PugTokens.Proofs.Reading.Tokens
import PugTokens.Reading.Reader

namespace PugTokens

/-! # Resuming from a checkpoint

What a reader answers depends on its text, its place and its context alone: the
rest of what its cursor knows is set anew before a scan looks at it.  A reader
therefore does what the reading does that can be seen of it
(`Reader.perform_reading`).  A checkpoint stores the place and, without loss, the
context, and so whoever resumes from it goes on as its maker did
(`Reader.resume_checkpoint`).
-/

theorem KindSet.meets_of_isEmpty {valid : KindSet} (empty : valid.isEmpty = true)
    (kinds : List Kind) : valid.meets kinds = false := by
  have none : valid.toList = [] := List.isEmpty_iff.mp empty
  refine List.any_eq_false.mpr fun kind _ allowed => ?_
  have member : kind ∈ valid.toList := mem_toList.mpr allowed
  rw [none] at member
  exact absurd member List.not_mem_nil

theorem scan_of_isEmpty {valid : KindSet} (empty : valid.isEmpty = true)
    (context : Context) (view : View) : scan context valid view = .nothing context := by
  unfold scan
  rw [KindSet.meets_of_isEmpty empty, KindSet.meets_of_isEmpty empty]
  rfl

namespace Reader

open Reading (Operation Answer Stands)

variable {source before rest : List Char} {reader : Reader}

@[simp] theorem source_reading (reader : Reader) :
    reader.reading.source = reader.cursor.source := rfl

@[simp] theorem context_reading (reader : Reader) :
    reader.reading.context = reader.context := rfl

theorem scan_cursor (stands : reader.reading.Between before rest) (valid : KindSet) :
    reader.cursor.begin.scan reader.context valid =
      let outcome := PugTokens.scan reader.context valid (reader.reading.view rest)
      .ok (outcome, reader.cursor.begin.play outcome.moves) := by
  unfold Cursor.scan
  split
  · next empty =>
      rw [scan_of_isEmpty empty]
      rfl
  · have seen : reader.cursor.begin.view = .ok (reader.reading.view rest) := by
      have unread : reader.cursor.begin.unread = .ok rest := stands.unread
      unfold Cursor.view
      rw [unread]
      rfl
    rw [seen]
    rfl

theorem scan_reading (stands : reader.reading.Between before rest) (valid : KindSet) :
    (reader.scan valid).map (Prod.map id reading) = reader.reading.scan valid := by
  rw [stands.scan]
  unfold Reader.scan Reading.tokenAt
  simp only [scan_cursor stands, context_reading, bind, Except.bind]
  cases (PugTokens.scan reader.context valid (reader.reading.view rest)).kind with
  | none =>
      simp only [pure, Except.pure, Except.map, Prod.map, id_eq, reading, Cursor.goTo,
        Cursor.begin, Cursor.source_play]
  | some kind =>
      simp only [pure, Except.pure, Except.map, Prod.map, id_eq, reading, Cursor.finish,
        Cursor.goTo, Cursor.begin, Cursor.source_play]
      rfl

theorem closeLevel_reading (reader : Reader) :
    Prod.map id reading reader.closeLevel = reader.reading.closeLevel := by
  unfold closeLevel Reading.closeLevel
  rw [context_reading]
  by_cases bare : reader.context.levels.isBare = true
  · rw [if_pos bare, if_pos bare]
    rfl
  · rw [if_neg bare, if_neg bare]
    rfl

/-- A reader answers as its reading does, and goes where that goes. -/
theorem perform_reading (stands : reader.reading.Between before rest)
    (operation : Operation) :
    (reader.perform operation).map (Prod.map id reading) =
      reader.reading.perform operation := by
  cases operation with
  | scan valid =>
      have same := scan_reading stands valid
      cases scanned : reader.scan valid with
      | error reason =>
          rw [scanned] at same
          simp only [perform, Reading.perform, ← same, scanned, bind, Except.bind, Except.map]
      | ok found =>
          rw [scanned] at same
          simp only [perform, Reading.perform, ← same, scanned, bind, Except.bind, Except.map]
          rfl
  | bump =>
      have unread : reader.cursor.unread = .ok rest := stands.unread
      simp only [perform, Reading.perform, bump, Reading.bump, Cursor.bump, Cursor.peek,
        stands.unread, unread, bind, Except.bind, pure, Except.pure]
      cases rest <;> rfl
  | skipLine =>
      have unread : reader.cursor.unread = .ok rest := stands.unread
      simp only [perform, Reading.perform, skipLine, stands.skipLine, unread, bind,
        Except.bind, pure, Except.pure]
      rfl
  | closeLevel =>
      simp only [perform, Reading.perform, ← closeLevel_reading]
      rfl
  | atEnd =>
      have unread : reader.cursor.unread = .ok rest := stands.unread
      simp only [perform, Reading.perform, Cursor.atEnd, Reading.atEnd, stands.unread,
        unread, bind, Except.bind, pure, Except.pure]
      rfl
  | rest =>
      have unread : reader.cursor.unread = .ok rest := stands.unread
      simp only [perform, Reading.perform, stands.unread, unread, bind, Except.bind, pure,
        Except.pure]
      rfl
  | checkpoint => rfl
  | encode => rfl

/-- At a true place a reader does something, its reading does the same, and both are
at a true place again. -/
theorem exists_perform (stands : Stands source reader.reading) (operation : Operation) :
    ∃ answer after, reader.perform operation = .ok (answer, after) ∧
      reader.reading.perform operation = .ok (answer, after.reading) ∧
      Stands source after.reading := by
  obtain ⟨answer, next, performed, standsNext⟩ := stands.perform operation
  obtain ⟨before, rest, between, _⟩ := stands
  have same := perform_reading between operation
  rw [performed] at same
  cases done : reader.perform operation with
  | error reason => simp [done, Except.map] at same
  | ok answered =>
      rw [done] at same
      simp only [Except.map, Prod.map, id_eq, Except.ok.injEq, Prod.mk.injEq] at same
      obtain ⟨rfl, rfl⟩ := same
      exact ⟨_, _, rfl, performed, standsNext⟩

theorem performAll_reading (stands : Stands source reader.reading)
    (operations : List Operation) :
    reader.performAll operations = reader.reading.performAll operations := by
  induction operations generalizing reader with
  | nil => rfl
  | cons operation later induction =>
      obtain ⟨answer, after, done, performed, standsAfter⟩ := exists_perform stands operation
      simp only [performAll, Reading.performAll, done, performed, induction standsAfter,
        bind, Except.bind]

/-! ## Reachable readers -/

theorem stands_perform {after : Reader} {answer : Answer} {operation : Operation}
    (stands : Stands source reader.reading)
    (performed : reader.perform operation = .ok (answer, after)) :
    Stands source after.reading := by
  obtain ⟨expected, next, done, _, standsNext⟩ := exists_perform stands operation
  rw [performed, Except.ok.injEq, Prod.mk.injEq] at done
  rw [done.2]
  exact standsNext

theorem checkpoint_eq_ok {checkpoint : Checkpoint}
    (taken : reader.checkpoint = .ok checkpoint) :
    checkpoint.position = reader.cursor.position ∧
      reader.context.encode = .ok checkpoint.bytes := by
  unfold Reader.checkpoint at taken
  cases written : reader.context.encode with
  | error reason => simp [written, bind, Except.bind] at taken
  | ok bytes =>
      simp only [written, bind, Except.bind, pure, Except.pure, Except.ok.injEq] at taken
      subst taken
      exact ⟨rfl, rfl⟩

/-- Resuming on any reader of the same text gives back what could be seen of the
one that the checkpoint was taken from. -/
theorem resume_eq_ok {checkpoint : Checkpoint} {other : Reader}
    (taken : reader.checkpoint = .ok checkpoint)
    (sameText : other.cursor.source = reader.cursor.source) :
    ∃ resumed, other.resume checkpoint = .ok resumed ∧ resumed.reading = reader.reading := by
  obtain ⟨place, written⟩ := checkpoint_eq_ok taken
  have read := Context.decode_encode written []
  rw [List.append_nil] at read
  refine ⟨⟨other.cursor.goTo checkpoint.position, reader.context⟩, ?_, ?_⟩
  · unfold resume
    rw [read]
    rfl
  · rw [place]
    simp only [reading, Cursor.goTo, Cursor.begin, sameText]

theorem Reachable.stands (reached : Reachable source reader) :
    Stands source reader.reading := by
  induction reached with
  | start => exact ⟨[], source, ⟨rfl, rfl⟩, rfl⟩
  | perform operation _ performed induction => exact stands_perform induction performed
  | @resume reader earlier after checkpoint _ _ taken resumed induction earlierIH =>
      obtain ⟨before, rest, between, split⟩ := induction
      obtain ⟨before', rest', between', split'⟩ := earlierIH
      have sameText : reader.cursor.source = earlier.cursor.source := by
        rw [← source_reading, ← source_reading, between.source, between'.source, ← split,
          split']
      obtain ⟨expected, same, view⟩ := resume_eq_ok taken sameText
      rw [resumed, Except.ok.injEq] at same
      subst same
      rw [view]
      exact ⟨before', rest', between', split'⟩

theorem Reachable.source_cursor (reached : Reachable source reader) :
    reader.cursor.source = source := by
  obtain ⟨before, rest, between, split⟩ := reached.stands
  rw [split]
  exact between.source

/-- Whoever resumes from a checkpoint, on the reader it was taken from or on any
other of the same text, goes on as that reader would have gone on: with the same
answers, places and contexts.  Two readers with the same checkpoint have the same
future. -/
theorem resume_checkpoint (reached : Reachable source reader) {checkpoint : Checkpoint}
    (taken : reader.checkpoint = .ok checkpoint) :
    (∀ other : Reader, other.cursor.source = source →
      ∃ resumed, other.resume checkpoint = .ok resumed ∧
        resumed.reading = reader.reading ∧
        ∀ operations, ∃ trail,
          resumed.performAll operations = .ok trail ∧
          reader.performAll operations = .ok trail ∧
          reader.reading.performAll operations = .ok trail) ∧
      ∀ other : Reader, Reachable source other → other.checkpoint = .ok checkpoint →
        ∀ operations, other.performAll operations = reader.performAll operations := by
  have stands := reached.stands
  refine ⟨?_, ?_⟩
  · intro other sameText
    rw [← reached.source_cursor] at sameText
    obtain ⟨resumed, done, view⟩ := resume_eq_ok taken sameText
    refine ⟨resumed, done, view, fun operations => ?_⟩
    obtain ⟨trail, performed⟩ := stands.performAll operations
    have standsResumed : Stands source resumed.reading := view ▸ stands
    refine ⟨trail, ?_, ?_, performed⟩
    · rw [performAll_reading standsResumed, view]
      exact performed
    · rw [performAll_reading stands]
      exact performed
  · intro other reachedOther takenOther operations
    have sameText : other.cursor.source = reader.cursor.source := by
      rw [reached.source_cursor, reachedOther.source_cursor]
    obtain ⟨resumed, done, view⟩ := resume_eq_ok taken sameText
    have own : other.cursor.source = other.cursor.source := rfl
    obtain ⟨again, doneAgain, viewAgain⟩ := resume_eq_ok takenOther own
    rw [done, Except.ok.injEq] at doneAgain
    have same : other.reading = reader.reading := by rw [← viewAgain, ← doneAgain, view]
    rw [performAll_reading stands, performAll_reading reachedOther.stands, same]

/-- Behind the first line of a text the `?` of that line is still open, and the
bytes of the checkpoint tell so. -/
theorem resume_checkpoint_question :
    let source := ['a', '?', 'b', '\n', ':', 'c']
    let place : Position := ⟨3, 1, 3⟩
    let reader : Reader := ⟨.ofPlace source place, { ternaries := ⟨[1]⟩ }⟩
    Reachable source reader ∧ reader.checkpoint = .ok ⟨place, [1, 1, 2, 1, 0]⟩ ∧
      ∃ resumed, (ofText source).resume ⟨place, [1, 1, 2, 1, 0]⟩ = .ok resumed ∧
        resumed.reading = reader.reading ∧
        ∀ operations, ∃ trail,
          resumed.performAll operations = .ok trail ∧
          reader.performAll operations = .ok trail ∧
          reader.reading.performAll operations = .ok trail := by
  intro source place reader
  have scanned : (ofText source).perform (.scan .value) =
      .ok (.token (some ⟨.script, ⟨.start, place⟩⟩), reader) := rfl
  have reached : Reachable source reader := .perform (.scan .value) .start scanned
  have taken : reader.checkpoint = .ok ⟨place, [1, 1, 2, 1, 0]⟩ := rfl
  exact ⟨reached, taken, (resume_checkpoint reached taken).1 (ofText source) rfl⟩

end Reader

end PugTokens
