import PugTokens.Proofs.Lexer.Texts
import PugTokens.Proofs.Value.Steps

namespace PugTokens

/-! # One character of lookahead

A scan looks no further than the character in front of which it stops: where two texts
agree up to that character, the scan does the same in both.  The place, the text before
it and all that comes later do not matter, except that a layout scan asks whether a line
begins (`Lexer.scans_lookahead`).
-/

/-! ## Texts that agree -/

/-- Two texts have the same characters up to an index, that one included, or both end
before it. -/
def Agree (count : Nat) (text other : List Char) : Prop :=
  ∀ index ≤ count, other[index]? = text[index]?

namespace Agree

variable {count : Nat} {c : Char} {text rest other : List Char}

theorem eq_nil (agree : Agree count [] other) : other = [] := by
  have first := agree 0 (Nat.zero_le count)
  cases other with
  | nil => rfl
  | cons d other => simp at first

theorem exists_cons (agree : Agree count (c :: rest) other) : ∃ later, other = c :: later := by
  have first := agree 0 (Nat.zero_le count)
  cases other with
  | nil => simp at first
  | cons d later =>
      simp only [List.getElem?_cons_zero, Option.some.injEq] at first
      exact ⟨later, by rw [first]⟩

theorem tail (agree : Agree (count + 1) (c :: rest) (c :: other)) : Agree count rest other := by
  intro index within
  exact agree (index + 1) (Nat.succ_le_succ within)

theorem head? (agree : Agree count text other) : other.head? = text.head? := by
  have first := agree 0 (Nat.zero_le count)
  rwa [← List.head?_eq_getElem?, ← List.head?_eq_getElem?] at first

theorem takeWhile {p : Char → Bool} (agree : Agree (text.takeWhile p).length text other) :
    other.takeWhile p = text.takeWhile p := by
  induction text generalizing other with
  | nil => rw [agree.eq_nil]
  | cons c rest induction =>
      obtain ⟨later, rfl⟩ := agree.exists_cons
      cases taken : p c with
      | false =>
          have ends : ¬ p c = true := Bool.eq_false_iff.mp taken
          rw [List.takeWhile_cons_of_neg ends, List.takeWhile_cons_of_neg ends]
      | true =>
          rw [List.takeWhile_cons_of_pos taken, List.length_cons] at agree
          rw [List.takeWhile_cons_of_pos taken, List.takeWhile_cons_of_pos taken,
            induction agree.tail]

end Agree

/-! ## Values -/

namespace Value

variable {progress last : Progress} {c : Char} {ahead : Option Char} {text other : List Char}

/-- Whether a scan stops in front of a character does not depend on what follows it. -/
theorem step_of_stop (stopped : step progress c ahead = .stop last) (behind : Option Char) :
    step progress c behind = .stop last := by
  rcases step_ahead progress c ahead behind with same | ⟨blank, _⟩
  · exact same.trans stopped
  · rw [blank, stepBlank] at stopped
    dsimp only at stopped
    repeat' split at stopped
    all_goals contradiction

/-- The induction is on the text, of which every step but the last leaves a part in which
the texts still agree. -/
theorem run_congr (agree : Agree (Move.textOf (run progress text).moves).length text other) :
    run progress other = run progress text := by
  induction text generalizing progress other with
  | nil => rw [agree.eq_nil]
  | cons c rest induction =>
      obtain ⟨later, rfl⟩ := agree.exists_cons
      have covered := textOf_step progress c rest.head?
      unfold run at agree ⊢
      cases stepped : step progress c rest.head? with
      | stop last => rw [step_of_stop stepped later.head?]
      | close last moves =>
          rw [stepped] at covered agree
          change Move.textOf moves = [c] at covered
          rw [covered] at agree
          have same := agree.tail.head?
          rw [same, stepped]
      | go next moves =>
          rw [stepped] at covered agree
          change Move.textOf moves = [c] at covered
          rw [Extent.moves_precededBy, Move.textOf_append, covered, List.singleton_append,
            List.length_cons] at agree
          rw [agree.tail.head?, stepped]
          exact congrArg (Extent.precededBy moves) (induction agree.tail)

end Value

/-! ## Layout -/

namespace Layout

theorem measure_congr {context : Context} {valid : KindSet} {line other : List Char}
    (agree : Agree (measure context valid line).consumed.length line other) :
    measure context valid other = measure context valid line := by
  rw [consumed_measure] at agree
  have same : leading other = leading line := agree.takeWhile
  simp only [measure, same]

theorem scan_congr {context : Context} {valid : KindSet} {text other : List Char}
    {lineStart : Bool}
    (agree : Agree (scan context valid ⟨text, lineStart⟩).consumed.length text other) :
    scan context valid ⟨other, lineStart⟩ = scan context valid ⟨text, lineStart⟩ := by
  cases text with
  | nil => rw [agree.eq_nil]
  | cons c rest =>
      obtain ⟨later, rfl⟩ := agree.exists_cons
      unfold scan at agree ⊢
      dsimp only at agree ⊢
      by_cases newline : c = '\n'
      · rw [if_pos newline, if_pos newline]
      · rw [if_neg newline] at agree
        rw [if_neg newline, if_neg newline]
        cases lineStart with
        | false => rfl
        | true =>
            rw [if_pos rfl] at agree
            rw [if_pos rfl, if_pos rfl]
            exact measure_congr agree

end Layout

theorem scan_congr {context : Context} {valid : KindSet} {view other : View}
    (agree : Agree (scan context valid view).consumed.length view.unread other.unread)
    (lines : valid.meets Kind.value = false → valid.meets Kind.layout = true →
      other.lineStart = view.lineStart) :
    scan context valid other = scan context valid view := by
  unfold scan at agree ⊢
  cases asked : valid.meets Kind.value with
  | true =>
      rw [asked, if_pos rfl, Value.scan_eq_run] at agree
      have same : Value.run { context } other.unread = Value.run { context } view.unread :=
        Value.run_congr agree
      simp only [if_true, Value.scan_eq_run, same]
  | false =>
      rw [asked, if_neg Bool.false_ne_true] at agree
      rw [if_neg Bool.false_ne_true, if_neg Bool.false_ne_true]
      split
      · next layout =>
          rw [if_pos layout] at agree
          obtain ⟨unread, lineStart⟩ := view
          obtain ⟨unreadOther, lineStartOther⟩ := other
          obtain rfl : lineStartOther = lineStart := lines asked layout
          exact Layout.scan_congr agree
      · rfl

/-- If two lexers show the same characters up to the one in front of which the scan
through the first stops, or both end there, and if both or neither stand where a line
begins in case the layout is scanned for, then the scan through the second has the same
answer, with the same moves, and leaves the same context. -/
theorem Lexer.scans_lookahead {σ τ : Type} {lexer : Lexer σ} {other : Lexer τ}
    {context : Context} {valid : KindSet} {outcome : Outcome} {state after : σ} {place : τ}
    {text : List Char} (scanned : lexer.Scans context valid state outcome after)
    (shows : other.Shows place text)
    (agree : ∀ count ≤ outcome.consumed.length, other.ahead place count = lexer.ahead state count)
    (lines : valid.meets Kind.value = false → valid.meets Kind.layout = true →
      (other.column place = 0 ↔ lexer.column state = 0)) :
    other.Scans context valid place outcome (other.play place outcome.moves) ∧
      ∀ found last, other.Scans context valid place found last → found = outcome := by
  obtain ⟨shown, showsShown, rfl, _⟩ := scanned
  have agreeTexts : Agree
      (scan context valid ⟨shown, lexer.column state = 0⟩).consumed.length shown text := by
    intro count within
    rw [← shows.ahead, ← showsShown.ahead]
    exact agree count within
  have same : scan context valid ⟨text, other.column place = 0⟩ =
      scan context valid ⟨shown, lexer.column state = 0⟩ := by
    apply scan_congr agreeTexts
    intro noValue layout
    simp only [lines noValue layout]
  have scans : other.Scans context valid place
      (scan context valid ⟨shown, lexer.column state = 0⟩) _ := ⟨text, shows, same.symm, rfl⟩
  exact ⟨scans, fun found last again => (again.unique scans).1⟩

/-- A cursor in the second line of a text and a tape that begins in front of the same
indentation find it alike, although they differ behind the `a` that follows it. -/
theorem Lexer.scans_lookahead_indent :
    let cursor : Cursor := { source := ['é', '\n', ' ', '\t', 'a', 'b'], position := ⟨3, 2, 0⟩ }
    let tape : Tape := { unread := [' ', '\t', 'a', '+'], column := 0 }
    let outcome : Outcome :=
      ⟨some .indent, { levels := ⟨[9]⟩ }, [.mark, .skip ' ', .skip '\t']⟩
    Cursor.lexer.Scans .initial .layout cursor outcome (cursor.play outcome.moves) ∧
      (∀ count ≤ 2, Tape.lexer.ahead tape count = Cursor.lexer.ahead cursor count) ∧
      Tape.lexer.ahead tape 3 ≠ Cursor.lexer.ahead cursor 3 ∧
      Tape.lexer.Scans .initial .layout tape outcome (Tape.lexer.play tape outcome.moves) ∧
      (tape.scan .initial .layout).1 = outcome := by
  intro cursor tape outcome
  have scanned : cursor.scan .initial .layout = .ok (outcome, cursor.play outcome.moves) := rfl
  have source : cursor.source = ['é', '\n'] ++ [' ', '\t', 'a', 'b'] := rfl
  have through : Cursor.lexer.Scans .initial .layout cursor outcome _ :=
    Cursor.scans source rfl scanned
  have agree : ∀ count ≤ 2, Tape.lexer.ahead tape count = Cursor.lexer.ahead cursor count := by
    decide
  obtain ⟨same, only⟩ :=
    Lexer.scans_lookahead through tape.shows agree fun _ _ => by decide
  exact ⟨through, agree, by decide, same, only _ _ (tape.scans .initial .layout)⟩

end PugTokens
