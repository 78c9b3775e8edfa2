import PugTokens.Proofs.Layout.Changes
import PugTokens.Proofs.Lexer.Endings
import PugTokens.Proofs.Value.Absence
import PugTokens.Proofs.Value.Commas

namespace PugTokens.Lexer

/-! # What a scan leaves alone

A scan takes nothing back by itself, whether it finds something or not.  Scans for values
and scans of the layout share a context but no part of it: the former never touch the
levels, the latter touch nothing else.  And a scan for a value that finds none has not
touched anything, unless a closing bracket that does not pair stands in front of it, which
answers the operator that waits (`Lexer.scans_frame`).
-/

variable {σ : Type} {lexer : Lexer σ} {state after : σ} {context : Context} {valid : KindSet}
variable {outcome : Outcome}

/-- A lexer shows, behind a scan, what the scan has left of the text in front of it. -/
theorem Scans.split (scanned : lexer.Scans context valid state outcome after) :
    ∃ text rest, lexer.Shows state text ∧ lexer.Shows after rest ∧
      text = outcome.consumed ++ rest ∧
      outcome = scan context valid ⟨text, lexer.column state = 0⟩ := by
  obtain ⟨text, shows, rfl, rfl⟩ := scanned
  have along := along_scan context valid ⟨text, lexer.column state = 0⟩
  exact ⟨text, _, shows, shows.play _, along.textOf_append_drop.symm, rfl⟩

/-- A scan for a value finds a value or nothing and leaves the levels as they were; if it
finds nothing it leaves the whole context, but for an operator that waits in front of a
closing bracket that does not pair.  A scan for other kinds leaves all but the levels, of
which it opens one of the measured width or closes one that is wider. -/
theorem scans_frame (scanned : lexer.Scans context valid state outcome after) :
    ∃ text rest, lexer.Shows state text ∧ lexer.Shows after rest ∧
      text = outcome.consumed ++ rest ∧
      (valid.meets Kind.value = true →
        outcome.context.levels = context.levels ∧
          (∀ kind, outcome.kind = some kind → kind ∈ Kind.value) ∧
          (outcome.kind = none →
            outcome.context =
              if rest.head?.any context.rejects then context.settle else context)) ∧
      (valid.meets Kind.value = false →
        Layout.Effect valid text context outcome.kind outcome.context) := by
  obtain ⟨text, rest, shows, showsAfter, split, same⟩ := scanned.split
  refine ⟨text, rest, shows, showsAfter, split, fun asked => ?_, fun noValue => ?_⟩
  · rw [Reading.scan_value asked] at same
    have found : outcome.kind = _ := congrArg Outcome.kind same
    have left : outcome.context = _ := congrArg Outcome.context same
    have moves : outcome.moves = _ := congrArg Outcome.moves same
    refine ⟨?_, fun kind some => ?_, fun missing => ?_⟩
    · rw [left]
      exact Value.levels_run { context } text
    · obtain ⟨shape, _, rfl⟩ := Option.map_eq_some_iff.mp (found.symm.trans some)
      exact (Reading.kind_mem_value valid shape).1
    · have unbegun := Option.map_eq_none_iff.mp (found.symm.trans missing)
      obtain ⟨behind, splitBehind, _, kept⟩ :=
        Value.run_of_barren (Value.barren_of_missing unbegun)
      rw [Outcome.consumed, moves] at split
      obtain rfl := List.append_cancel_left (splitBehind.symm.trans split)
      exact left.trans kept
  · rw [same]
    exact scan_effect noValue context ⟨text, lexer.column state = 0⟩

/-- An operator that waits is forgotten in front of a `)` although no value is found there,
and it goes on waiting where a level is closed. -/
theorem scans_frame_closer :
    let waiting : Context := { levels := ⟨[4]⟩, pending := true }
    let closer : Tape := { unread := [' ', ')'], column := 0 }
    let line : Tape := { unread := [' ', ' ', 'a'], column := 0 }
    let (outcome, after) := closer.scan waiting .value
    let (closed, behind) := line.scan waiting .layout
    Tape.lexer.Scans waiting .value closer outcome after ∧
      KindSet.value.meets Kind.value = true ∧
      outcome.kind = none ∧ outcome.context = waiting.settle ∧
      Tape.lexer.Scans waiting .layout line closed behind ∧
      KindSet.layout.meets Kind.value = false ∧ closed.kind = some .dedent ∧
      Layout.Effect .layout [' ', ' ', 'a'] waiting (some .dedent) closed.context := by
  intro waiting closer line
  have asked : KindSet.value.meets Kind.value = true := by decide
  have noValue : KindSet.layout.meets Kind.value = false := by decide
  have scanned := closer.scans waiting .value
  have scannedLine := line.scans waiting .layout
  obtain ⟨text, rest, shows, _, split, value, _⟩ := scans_frame scanned
  obtain ⟨lineText, _, showsLine, _, _, _, layout⟩ := scans_frame scannedLine
  obtain rfl : text = closer.unread := shows.unique closer.shows
  obtain rfl : lineText = line.unread := showsLine.unique line.shows
  have left := (value asked).2.2 rfl
  have behind : [')'] = rest := (List.cons.inj split).2
  rw [← behind] at left
  exact ⟨scanned, asked, rfl, left, scannedLine, noValue, rfl, layout noValue⟩

end PugTokens.Lexer
