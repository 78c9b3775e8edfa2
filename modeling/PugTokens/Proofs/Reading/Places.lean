import PugTokens.Reading

namespace PugTokens

/-! # Where a reading stands

A reading that stands at a true place of its text has the text before it and
the text to come.  With both at hand nothing that looks at the text can fail,
and moving over a part of the text to come leads to a true place again.
-/

namespace Position

theorem offset_advance (position : Position) (c : Char) :
    (position.advance c).offset = position.offset + c.utf8Size := by
  unfold advance
  split <;> rfl

theorem offset_advanceAll (position : Position) (text : List Char) :
    (position.advanceAll text).offset = position.offset + Text.byteSize text := by
  induction text generalizing position with
  | nil => rfl
  | cons c text induction =>
      have later := induction (position.advance c)
      rw [offset_advance] at later
      rw [Text.byteSize_cons, ← Nat.add_assoc]
      exact later

theorem column_after_newline (before : List Char) :
    (after (before ++ ['\n'])).column = 0 := by
  simp [after]

end Position

namespace Reading

variable {reading : Reading} {before rest : List Char}

/-- The reading stands between two parts of its text. -/
structure Between (reading : Reading) (before rest : List Char) : Prop where
  source : reading.source = before ++ rest
  position : reading.position = .after before

theorem between_ofText (source : List Char) : (ofText source).Between [] source :=
  ⟨rfl, rfl⟩

theorem Between.unread (stands : reading.Between before rest) :
    reading.unread = .ok rest := by
  unfold Reading.unread
  rw [stands.source, stands.position]
  exact Text.dropBytes_append before rest

theorem Between.pass {text later : List Char}
    (stands : reading.Between before (text ++ later)) :
    (reading.pass text).Between (before ++ text) later where
  source := by
    rw [List.append_assoc]
    exact stands.source
  position := by
    change reading.position.advanceAll text = _
    rw [stands.position, Position.advanceAll_after]

/-- Behind a line break a line begins. -/
theorem Between.passLine {line later : List Char}
    (stands : reading.Between before (line ++ '\n' :: later)) :
    (reading.pass (line ++ ['\n'])).Between (before ++ line ++ ['\n']) later ∧
      (reading.pass (line ++ ['\n'])).position.column = 0 := by
  rw [List.append_cons] at stands
  have passed := stands.pass
  rw [← List.append_assoc] at passed
  exact ⟨passed, passed.position ▸ Position.column_after_newline (before ++ line)⟩

/-- Behind a part of the text to come the reading stands too, whatever the context. -/
theorem Between.behind {text later : List Char}
    (stands : reading.Between before (text ++ later)) (context : Context) :
    Between { reading with position := .after (before ++ text), context } (before ++ text)
      later where
  source := by
    rw [List.append_assoc]
    exact stands.source
  position := rfl

theorem Between.scan (stands : reading.Between before rest) (valid : KindSet) :
    reading.scan valid = .ok (reading.tokenAt valid rest) := by
  unfold Reading.scan
  rw [stands.unread]
  rfl

theorem Between.atEnd (stands : reading.Between before rest) :
    reading.atEnd = .ok rest.isEmpty := by
  unfold Reading.atEnd
  rw [stands.unread]
  rfl

theorem Between.bump {c : Char} (stands : reading.Between before (c :: rest)) :
    reading.bump = .ok (some c, reading.pass [c]) := by
  unfold Reading.bump
  rw [stands.unread]
  rfl

theorem Between.bump_end (stands : reading.Between before []) :
    reading.bump = .ok (none, reading) := by
  unfold Reading.bump
  rw [stands.unread]
  rfl

theorem Between.skipLine (stands : reading.Between before rest) :
    reading.skipLine =
      .ok (rest.takeWhile (· ≠ '\n'), reading.pass (rest.takeWhile (· ≠ '\n'))) := by
  unfold Reading.skipLine
  rw [stands.unread]
  rfl

end Reading

end PugTokens
