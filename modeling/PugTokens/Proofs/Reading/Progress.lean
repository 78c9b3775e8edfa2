import PugTokens.Proofs.Reader.Scanning
import PugTokens.Proofs.Reading.Covering

namespace PugTokens

/-! # Asking for a value moves on

A token need not have any text, and a scan that finds nothing leaves the reading where it
was.  What moves the values on is the character that is passed over in both cases: every
turn of a call ends it or passes over a character that was still to be read.  So a call
comes to its end whatever kinds are asked for, and one that answers with a token leaves
less of the text to come (`Values.reachable_next`).
-/

theorem Token.Spans.isEmpty {source : List Char} {place : Position} {token : Token}
    (spans : token.Spans source place place) : token.span.isEmpty = true := by
  cases spans with
  | value => exact beq_self_eq_true place.offset
  | level => exact beq_self_eq_true place.offset
  | newline => exact beq_self_eq_true place.offset

namespace Values

/-- A call turn by turn, with how many turns it takes. -/
inductive Call : Values → Nat → Option Token → Values → Prop
  | finished {values : Values} : values.reading.atEnd = .ok true → Call values 0 none values
  | token {values : Values} {token : Token} {after : Reading} :
      values.reading.atEnd = .ok false →
      values.reading.scan values.valid = .ok (some token, after) →
      token.span.isEmpty = false →
      Call values 1 (some token) { values with reading := after }
  /-- Behind a token without text a character is passed over. -/
  | point {values : Values} {token : Token} {after passed : Reading} {c : Option Char} :
      values.reading.atEnd = .ok false →
      values.reading.scan values.valid = .ok (some token, after) →
      token.span.isEmpty = true → after.bump = .ok (c, passed) →
      Call values 1 (some token) { values with reading := passed }
  /-- Where there is no token a character is passed over, and the next turn begins. -/
  | pass {values last : Values} {same passed : Reading} {c : Option Char} {turns : Nat}
      {answer : Option Token} :
      values.reading.atEnd = .ok false →
      values.reading.scan values.valid = .ok (none, same) → same.bump = .ok (c, passed) →
      Call { values with reading := passed } turns answer last →
      Call values (turns + 1) answer last

/-- Values of a text that come about by calls from its beginning. -/
inductive Reachable (source : List Char) (valid : KindSet) : Values → Prop
  | start : Reachable source valid (ofText source valid)
  | next {values after : Values} {answer : Option Token} :
      Reachable source valid values → values.next = .ok (answer, after) →
      Reachable source valid after

/-- A call between two parts of a text passes over a first part of the second, with no
more turns than that has characters. -/
structure Advances (values : Values) (before passed later : List Char) (turns : Nat)
    (answer : Option Token) (after : Values) : Prop where
  answered : values.next = .ok (answer, after)
  called : Call values turns answer after
  stands : after.reading.Between (before ++ passed) later
  few : turns ≤ passed.length
  ended : answer = none → later = []
  moved : answer ≠ none → 0 < turns

variable {source before rest passed later : List Char} {values after : Values}
variable {valid : KindSet} {reading : Reading} {c : Char} {turns : Nat} {answer : Option Token}

/-! ## One call -/

section Token

variable {token : Token} {next last : Reading} {d : Option Char}

theorem advances_filled (stands : reading.Between before (c :: rest))
    (found : reading.tokenAt valid (c :: rest) = (some token, next))
    (filled : token.span.isEmpty = false) (place : next.Between (before ++ passed) later)
    (moved : passed ≠ []) :
    Advances ⟨reading, valid⟩ before passed later 1 (some token) ⟨next, valid⟩ where
  answered := next_token stands found filled
  called := .token stands.atEnd (by rw [stands.scan, found]) filled
  stands := place
  few := List.length_pos_iff.mpr moved
  ended := nofun
  moved := fun _ => Nat.one_pos

theorem advances_point (stands : reading.Between before (c :: rest))
    (found : reading.tokenAt valid (c :: rest) = (some token, next))
    (empty : token.span.isEmpty = true) (bumped : next.bump = .ok (d, last))
    (place : last.Between (before ++ passed) later) (moved : passed ≠ []) :
    Advances ⟨reading, valid⟩ before passed later 1 (some token) ⟨last, valid⟩ where
  answered := next_bump stands found empty bumped
  called := .point stands.atEnd (by rw [stands.scan, found]) empty bumped
  stands := place
  few := List.length_pos_iff.mpr moved
  ended := nofun
  moved := fun _ => Nat.one_pos

theorem exists_advances_token (stands : reading.Between before (c :: rest))
    (found : reading.tokenAt valid (c :: rest) = (some token, next))
    (spans : token.Spans (before ++ c :: rest) reading.position next.position) :
    ∃ passed later after, c :: rest = passed ++ later ∧
      Advances ⟨reading, valid⟩ before passed later 1 (some token) after := by
  obtain ⟨passed, later, split, place⟩ := stands.exists_tokenAt valid
  rw [found] at place
  cases empty : token.span.isEmpty with
  | false =>
      have moved : passed ≠ [] := by
        rintro rfl
        rw [place.position, List.append_nil, ← stands.position] at spans
        rw [spans.isEmpty] at empty
        contradiction
      exact ⟨passed, later, _, split, advances_filled stands found empty place moved⟩
  | true =>
      cases later with
      | nil =>
          -- As behind a line break that ends the text, nothing is left to be passed over.
          have moved : passed ≠ [] := by
            rintro rfl
            cases split
          exact ⟨passed, [], _, split,
            advances_point stands found empty place.bump_end place moved⟩
      | cons d later =>
          have behind : (next.pass [d]).Between (before ++ passed ++ [d]) later := place.pass
          rw [List.append_assoc] at behind
          refine ⟨passed ++ [d], later, _, ?_,
            advances_point stands found empty place.bump behind (by simp)⟩
          rw [List.append_assoc]
          exact split

end Token

theorem Advances.pass (advances : Advances ⟨reading.pass [c], valid⟩ (before ++ [c]) passed later
      turns answer after)
    (stands : reading.Between before (c :: rest))
    (missing : reading.tokenAt valid (c :: rest) = (none, reading)) :
    Advances ⟨reading, valid⟩ before (c :: passed) later (turns + 1) answer after where
  answered := (next_pass stands missing).trans advances.answered
  called := by
    have scanned : reading.scan valid = .ok (none, reading) := by rw [stands.scan, missing]
    exact .pass stands.atEnd scanned stands.bump advances.called
  stands := by
    have behind := advances.stands
    rwa [List.append_assoc] at behind
  few := Nat.succ_le_succ advances.few
  ended := advances.ended
  moved := fun _ => Nat.succ_pos turns

/-- The induction is on the text to come, of which a turn that does not end the call passes
over the first character. -/
theorem exists_advances (stands : values.reading.Between before rest) :
    ∃ turns answer passed later after, rest = passed ++ later ∧
      Advances values before passed later turns answer after := by
  obtain ⟨reading, valid⟩ := values
  change reading.Between before rest at stands
  induction rest generalizing before reading with
  | nil =>
      refine ⟨0, none, [], [], ⟨reading, valid⟩, rfl, next_end stands,
        .finished stands.atEnd, ?_, Nat.le_refl 0, fun _ => rfl, fun some => absurd rfl some⟩
      rwa [List.append_nil]
  | cons c rest induction =>
      rcases stands.spans_tokenAt valid with missing | ⟨token, next, found, spans⟩
      · have passed : (reading.pass [c]).Between (before ++ [c]) rest := stands.pass
        obtain ⟨turns, answer, more, later, after, rfl, advances⟩ := induction _ passed
        exact ⟨turns + 1, answer, c :: more, later, after, rfl, advances.pass stands missing⟩
      · obtain ⟨passed, later, after, split, advances⟩ :=
          exists_advances_token stands found spans
        exact ⟨1, some token, passed, later, after, split, advances⟩

theorem Advances.offset_le (advances : Advances values before passed later turns answer after)
    (stands : values.reading.Between before rest) :
    values.reading.position.offset + turns ≤ after.reading.position.offset := by
  have few := advances.few
  have bytes := Text.length_le_byteSize passed
  rw [stands.position, advances.stands.position]
  simp only [Position.after, Text.byteSize_append]
  omega

theorem Advances.length_lt (advances : Advances values before passed later turns answer after)
    (some : answer ≠ none) : later.length < (passed ++ later).length := by
  have few := advances.few
  have moved := advances.moved some
  rw [List.length_append]
  omega

/-- Where a call finds nothing the text is at its end, and so does the next call. -/
theorem Advances.next_none (advances : Advances values before passed later turns none after) :
    after.next = .ok (none, after) := by
  have stands := advances.stands
  rw [advances.ended rfl] at stands
  exact next_end stands

/-! ## One call after the other -/

theorem Reachable.stands (reached : Reachable source valid values) :
    ∃ before rest, values.reading.Between before rest ∧ source = before ++ rest := by
  induction reached with
  | start => exact ⟨[], source, Reading.between_ofText source, rfl⟩
  | @next values after answer _ answered induction =>
      obtain ⟨before, rest, stands, whole⟩ := induction
      obtain ⟨turns, _, passed, later, _, rfl, advances⟩ := exists_advances stands
      cases advances.answered.symm.trans answered
      exact ⟨before ++ passed, later, advances.stands, by rw [whole, List.append_assoc]⟩

/-- At most one token comes for each character that is still to be read. -/
theorem length_le_of_yields {tokens : List (Token × Values)} {last : Values}
    (run : Reading.Yields next values tokens last)
    (stands : values.reading.Between before rest) : tokens.length ≤ rest.length := by
  induction run generalizing before rest with
  | refl => exact Nat.zero_le rest.length
  | @cons values _ _ _ _ answered _ induction =>
      obtain ⟨turns, _, passed, later, _, rfl, advances⟩ := exists_advances stands
      cases advances.answered.symm.trans answered
      exact Nat.lt_of_le_of_lt (induction advances.stands) (advances.length_lt nofun)

/-- The induction is on the length of the text to come. -/
theorem exists_yields (stands : values.reading.Between before rest) :
    ∃ tokens last final, Reading.Yields next values tokens last ∧
      next last = .ok (none, final) ∧ next final = .ok (none, final) := by
  induction size : rest.length using Nat.strongRecOn generalizing values before rest with
  | ind size induction =>
  subst size
  obtain ⟨turns, answer, passed, later, after, rfl, advances⟩ :=
    exists_advances stands
  cases answer with
  | none => exact ⟨[], values, after, .refl values, advances.answered, advances.next_none⟩
  | some token =>
      obtain ⟨tokens, last, final, run, finished, again⟩ :=
        induction later.length (advances.length_lt nofun) advances.stands rfl
      exact ⟨_, last, final, .cons advances.answered run, finished, again⟩

/-- Whatever kinds are asked for, every call comes to its end, in no more turns than it
passes over bytes.  One that answers with a token has moved on, so that no more tokens come
than there are characters left; one that answers with none leaves the values at the end
of the text, where all later calls do the same. -/
theorem reachable_next (reached : Reachable source valid values) :
    ∃ rest, values.reading.unread = .ok rest ∧
      (∃ turns answer after, values.next = .ok (answer, after) ∧
        Call values turns answer after ∧
        values.reading.position.offset + turns ≤ after.reading.position.offset ∧
        Reading.Placed source after.reading.position ∧
        (answer ≠ none →
          values.reading.position.offset < after.reading.position.offset) ∧
        (answer = none →
          after.reading.position = .after source ∧ after.next = .ok (none, after))) ∧
      (∀ {tokens last}, Reading.Yields next values tokens last →
        tokens.length ≤ rest.length) ∧
      ∃ tokens last, all source valid = .ok (tokens, last) ∧
        tokens.length ≤ source.length ∧ last.next = .ok (none, last) := by
  obtain ⟨before, rest, stands, rfl⟩ := reached.stands
  refine ⟨rest, stands.unread, ?_, fun run => length_le_of_yields run stands, ?_⟩
  · obtain ⟨turns, answer, passed, later, after, rfl, advances⟩ :=
      exists_advances stands
    have offset := advances.offset_le stands
    have place := advances.stands.position
    refine ⟨turns, answer, after, advances.answered, advances.called, offset,
      ⟨before ++ passed, later, (List.append_assoc before passed later).symm, place⟩, ?_, ?_⟩
    · intro some
      have moved := advances.moved some
      omega
    · rintro rfl
      rw [advances.ended rfl, List.append_nil]
      exact ⟨place, advances.next_none⟩
  · have start : (ofText (before ++ rest) valid).reading.Between [] (before ++ rest) :=
      Reading.between_ofText (before ++ rest)
    obtain ⟨tokens, last, final, run, finished, again⟩ := exists_yields start
    have few := length_le_of_yields run start
    exact ⟨tokens, final, run.drain finished (Nat.lt_succ_of_le few), few, again⟩

/-- In `#:` the `#` is passed over in a turn of its own; the token in front of the `:` has no
text, and the `:` is passed over behind it. -/
theorem reachable_next_point :
    let values := ofText ['#', ':'] .value
    let point : Token := ⟨.script, .point ⟨1, 1, 1⟩⟩
    let last : Values := ⟨⟨['#', ':'], ⟨2, 1, 2⟩, .initial⟩, .value⟩
    Reachable ['#', ':'] .value values ∧ values.next = .ok (some point, last) ∧
      (∃ turns, Call values turns (some point) last ∧ turns ≤ 2) ∧
      values.reading.position.offset < last.reading.position.offset ∧
      Reachable ['#', ':'] .value last ∧ last.next = .ok (none, last) ∧
      last.reading.position = .after ['#', ':'] := by
  intro values point last
  have begun : Reachable ['#', ':'] .value values := .start
  have answered : values.next = .ok (some point, last) := by decide
  have finished : last.next = .ok (none, last) := by decide
  have reached : Reachable ['#', ':'] .value last := begun.next answered
  obtain ⟨_, _, ⟨turns, _, _, found, called, offset, _, moved, _⟩, _⟩ := reachable_next begun
  obtain ⟨_, _, ⟨_, _, _, again, _, _, _, _, ended⟩, _⟩ := reachable_next reached
  cases answered.symm.trans found
  cases finished.symm.trans again
  have few : 0 + turns ≤ 2 := offset
  exact ⟨begun, answered, ⟨turns, called, by omega⟩, moved nofun, reached, finished, (ended rfl).1⟩

end Values

end PugTokens
