import PugTokens.Proofs.Lexer.Texts
import PugTokens.Proofs.Reading.Values

namespace PugTokens

/-! # Where a scan for a value ends

Outside of quotes a value is read on until something comes that cannot belong to it, or
behind blanks that no operator stands beside.  Within quotes nothing but the end of the
text ends it.  So what stands in front of a lexer behind a scan, and what is open there,
is one of a few things (`Lexer.scans_ending`).
-/

/-! ## Values -/

namespace Value

/-- What comes next where a value ends: the value has taken some text, it may have been
found, and this is the context that it leaves. -/
inductive Ending (found : Bool) (context : Context) (taken : List Char) : List Char → Prop
  | finish : Ending found context taken []
  /-- A closing bracket that does not pair with what is innermost. -/
  | closer {c : Char} {rest : List Char} :
      isCloser c = true → some context.enclosures.top ≠ openerOf? c →
      context.pending = false → Ending found context taken (c :: rest)
  /-- A `:` that no `?` waits for. -/
  | colon {rest : List Char} :
      context.atRoot = true → context.awaitsColon = false → context.pending = false →
      Ending found context taken (':' :: rest)
  /-- Blanks have been taken, and no operator stands beside them. -/
  | blank {last c : Char} {rest : List Char} :
      found = true → taken.getLast? = some last → isBlank last = true →
      isBlank c = false → isOperator c = false → context.atRoot = true →
      context.pending = false → Ending found context taken (c :: rest)
  | other {c : Char} {rest : List Char} :
      CharClass.ofChar c = .other → Ending found context taken (c :: rest)
  | comma {rest : List Char} :
      context.atRoot = true → Ending found context taken (',' :: rest)

variable {progress last : Progress} {c : Char} {ahead : Option Char} {moves : List Move}
variable {found : Bool} {context : Context} {taken rest : List Char}

/-- More text in front of what a value has taken does not change how it ends. -/
theorem Ending.cons (ending : Ending found context taken rest) (c : Char) :
    Ending found context (c :: taken) rest := by
  cases ending with
  | finish => exact .finish
  | closer closes unpaired settled => exact .closer closes unpaired settled
  | colon atRoot unasked settled => exact .colon atRoot unasked settled
  | blank found highest blank notBlank notOperator atRoot settled =>
      refine .blank found ?_ blank notBlank notOperator atRoot settled
      rw [List.getLast?_cons, highest]
      rfl
  | other ofClass => exact .other ofClass
  | comma atRoot => exact .comma atRoot

theorem ending_of_stop (stopped : step progress c ahead = .stop last)
    (found : Bool) (taken rest : List Char) :
    Ending found last.context taken (c :: rest) ∧
      isQuote last.context.enclosures.top = false := by
  have settled := settled_of_stop stopped
  have outside := outside_of_stop stopped
  have boundary := boundary_of_stop settled outside stopped rest
  rw [stop_eq stopped]
  cases boundary with
  | closer closes unpaired =>
      rw [Progress.halt, if_pos closes]
      exact ⟨.closer closes unpaired rfl, outside⟩
  | comma atRoot => exact ⟨.comma atRoot, outside⟩
  | colon atRoot unasked => exact ⟨.colon atRoot unasked rfl, outside⟩
  | other ofClass =>
      rw [halt_of_other ofClass]
      exact ⟨.other ofClass, outside⟩

theorem ending_of_close (closed : step progress c rest.head? = .close last moves) :
    Ending last.found.isSome last.context [c] rest ∧
      isQuote last.context.enclosures.top = false := by
  obtain ⟨blank, begun, atRoot, aheadNotBlank, aheadNotOperator, rfl, _⟩ :=
    closing_of_close closed
  refine ⟨?_, isQuote_top_of_atRoot atRoot⟩
  cases rest with
  | nil => exact .finish
  | cons d rest => exact .blank begun rfl blank aheadNotBlank aheadNotOperator atRoot rfl

/-- The induction is on the text, of which every step but the last takes a character. -/
theorem exists_ending_run (progress : Progress) (text : List Char) :
    let extent := run progress text
    ∃ rest, text = Move.textOf extent.moves ++ rest ∧
      Ending extent.last.found.isSome extent.last.context (Move.textOf extent.moves) rest ∧
      (rest ≠ [] → isQuote extent.last.context.enclosures.top = false) := by
  induction text generalizing progress with
  | nil =>
      refine ⟨[], ?_, .finish, fun filled => absurd rfl filled⟩
      simp only [run, textOf_endMoves, List.append_nil]
  | cons c text induction =>
      have covered := textOf_step progress c text.head?
      unfold run
      cases stepped : step progress c text.head? with
      | stop last =>
          obtain ⟨ending, outside⟩ := ending_of_stop stepped last.found.isSome [] text
          exact ⟨c :: text, rfl, ending, fun _ => outside⟩
      | go next moves =>
          rw [stepped] at covered
          change Move.textOf moves = [c] at covered
          obtain ⟨rest, split, ending, outside⟩ := induction next
          refine ⟨rest, ?_, ?_, outside⟩
          · rw [Extent.moves_precededBy, Move.textOf_append, covered, List.append_assoc, ← split]
            rfl
          · rw [Extent.moves_precededBy, Move.textOf_append, covered]
            exact ending.cons c
      | close last moves =>
          rw [stepped] at covered
          change Move.textOf moves = [c] at covered
          obtain ⟨ending, outside⟩ := ending_of_close stepped
          refine ⟨text, ?_, ?_, fun _ => outside⟩
          · rw [covered]
            rfl
          · rw [covered]
            exact ending

end Value

/-! ## Lexers -/

namespace Move

theorem steps_append (left right : List Move) :
    steps (left ++ right) = steps left + steps right := List.countP_append

/-- Moves along a text step over what comes first in it. -/
theorem Along.textOf_append_drop {text : List Char} {moves : List Move}
    (along : Along text moves) : textOf moves ++ text.drop (steps moves) = text := by
  induction along with
  | nil => rfl
  | take _ induction =>
      rw [textOf_cons, steps_take, List.drop_succ_cons, List.append_assoc, induction]
      rfl
  | skip _ induction =>
      rw [textOf_cons, steps_skip, List.drop_succ_cons, List.append_assoc, induction]
      rfl
  | past _ induction =>
      rw [List.drop_nil, List.append_nil] at induction ⊢
      exact induction
  | mark _ induction =>
      rw [textOf_cons, steps_mark]
      exact induction

end Move

namespace Lexer

variable {σ : Type} {lexer : Lexer σ} {state after : σ} {text : List Char}

theorem Shows.play (shows : lexer.Shows state text) (moves : List Move) :
    lexer.Shows (lexer.play state moves) (text.drop (Move.steps moves)) := by
  intro later
  have shown := shows (moves ++ later)
  rw [Move.steps_append, ← List.getElem?_drop] at shown
  unfold Lexer.play at shown ⊢
  rwa [List.foldl_append] at shown

/-- Behind a scan for a value a lexer stands at the end of the text, in front of a
character that cannot belong to the value, or behind blanks that end it; and it does not
stand within quotes, unless it is at the end of the text. -/
theorem scans_ending {context : Context} {valid : KindSet} {outcome : Outcome}
    (asked : valid.meets Kind.value = true)
    (scanned : lexer.Scans context valid state outcome after) :
    ∃ text rest, lexer.Shows state text ∧ lexer.Shows after rest ∧
      text = outcome.consumed ++ rest ∧
      Value.Ending outcome.kind.isSome outcome.context outcome.consumed rest ∧
      (rest ≠ [] → isQuote outcome.context.enclosures.top = false) := by
  obtain ⟨text, shows, rfl, rfl⟩ := scanned
  have along := along_scan context valid ⟨text, lexer.column state = 0⟩
  have showsAfter := shows.play (scan context valid ⟨text, lexer.column state = 0⟩).moves
  have whole := along.textOf_append_drop
  rw [Reading.scan_value asked] at showsAfter whole ⊢
  obtain ⟨rest, split, ending, outside⟩ := Value.exists_ending_run { context } text
  have same : text.drop (Move.steps (Value.run { context } text).moves) = rest :=
    List.append_cancel_left (whole.trans split)
  refine ⟨text, rest, shows, ?_, split, ?_, outside⟩
  · rw [← same]
    exact showsAfter
  · rw [Option.isSome_map]
    exact ending

/-- On a tape with `a+ b c` the first blank is taken since an operator stands in front of
it, and the second one ends the value. -/
theorem scans_ending_blank :
    let tape : Tape := { unread := ['a', '+', ' ', 'b', ' ', 'c'], column := 0 }
    let (outcome, after) := tape.scan .initial .value
    KindSet.value.meets Kind.value = true ∧
      Tape.lexer.Scans .initial .value tape outcome after ∧
      ∃ rest, Tape.lexer.Shows after rest ∧ tape.unread = outcome.consumed ++ rest ∧
        outcome.consumed = ['a', '+', ' ', 'b', ' '] ∧
        Value.Ending true .initial ['a', '+', ' ', 'b', ' '] rest := by
  intro tape
  have asked : KindSet.value.meets Kind.value = true := by decide
  have scanned := tape.scans .initial .value
  obtain ⟨text, rest, shows, showsAfter, split, ending, _⟩ := scans_ending asked scanned
  obtain rfl : text = tape.unread := shows.unique tape.shows
  exact ⟨asked, scanned, rest, showsAfter, split, rfl, ending⟩

end Lexer

end PugTokens
