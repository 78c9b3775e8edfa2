import PugTokens.Proofs.Value.Ternaries

namespace PugTokens.Value

/-! # A value in front of a comma

A scan looks one character ahead, and only at blanks does it matter what it sees.  So a
scan that goes through a whole text does so in front of a `,` too, and outside of all
brackets and quotes it ends there (`run_comma`).
-/

variable {start : Progress} {c : Char} {text : List Char}

theorem stepBlank_comma (start : Progress) (c : Char) :
    ∃ moves, stepBlank start c (some ',') = .go (start.enterPhase .ready) moves := by
  have blank : isBlank ',' = false := by decide
  have operator : isOperator ',' = true := by decide
  simp only [stepBlank, Option.any_some, blank, operator, Bool.or_true, if_true,
    Bool.false_eq_true, if_false]
  exact ⟨_, rfl⟩

/-- The last of some blanks leads to the same progress whatever else is ahead. -/
theorem progress_stepBlank {ahead : Option Char} (last : ahead.any isBlank = false)
    (start : Progress) (c : Char) :
    (stepBlank start c ahead).progress = start.enterPhase .ready := by
  obtain ⟨⟨levels, enclosures, ternaries, pending⟩, found, phase⟩ := start
  simp only [stepBlank, last, Bool.false_eq_true, if_false]
  split
  · rfl
  · next alone =>
      rw [Bool.or_eq_true, not_or, Bool.not_eq_true] at alone
      change pending = false ∧ _ at alone
      obtain ⟨rfl, _⟩ := alone
      split <;> rfl

/-- The character in front of a `,` leads where it leads at the end of a text. -/
theorem step_comma (taken : (step start c none).takes = true) :
    ∃ moves, step start c (some ',') = .go (step start c none).progress moves := by
  obtain ⟨moves, blank⟩ := stepBlank_comma start c
  rcases step_ahead start c none (some ',') with same | ⟨atEnd, atComma⟩
  · cases stepped : step start c none with
    | stop last =>
        rw [stepped] at taken
        contradiction
    | go next moves => exact ⟨moves, same.trans stepped⟩
    | close last moves =>
        rw [(blank_of_close (same.trans stepped)).2] at blank
        contradiction
  · rw [atEnd, progress_stepBlank rfl, atComma]
    exact ⟨moves, blank⟩

theorem run_singleton (start : Progress) (c : Char) :
    (run start [c]).last = (step start c none).progress ∧
      (Move.textOf (run start [c]).moves = [c] → (step start c none).takes = true) := by
  rw [run, List.head?_nil]
  cases step start c none with
  | stop last => exact ⟨rfl, fun covered => by contradiction⟩
  | go next moves => exact ⟨rfl, fun _ => rfl⟩
  | close last moves => exact ⟨rfl, fun _ => rfl⟩

theorem reads_comma (covered : Move.textOf (run start text).moves = text) (rest : List Char) :
    Reads start text (',' :: rest) (run start text).last := by
  -- Only the last character has the `,` ahead of it, where the text ended before.
  induction text generalizing start with
  | nil => exact .refl start _
  | cons c text induction =>
      cases text with
      | nil =>
          obtain ⟨last, takes⟩ := run_singleton start c
          obtain ⟨moves, stepped⟩ := step_comma (takes covered)
          rw [last]
          exact .step stepped (.refl _ _)
      | cons d text =>
          have own := textOf_step start c (some d)
          rw [run, List.head?_cons] at covered ⊢
          cases stepped : step start c (some d) with
          | stop last =>
              rw [stepped] at covered
              contradiction
          | close last moves =>
              rw [stepped] at covered own
              change Move.textOf moves = [c] at own
              cases own.symm.trans covered
          | go next moves =>
              rw [stepped] at covered own
              change Move.textOf moves = [c] at own
              rw [Extent.moves_precededBy, Move.textOf_append, own] at covered
              exact .step stepped (induction (List.cons.inj covered).2)

/-- A scan that goes through a whole text and is then outside of all brackets and quotes
ends in front of a `,` behind the text. -/
theorem run_comma (escapes : EscapesQuoted start)
    (covered : Move.textOf (run start text).moves = text)
    (atRoot : (run start text).last.context.atRoot = true) (rest : List Char) :
    (run start (text ++ ',' :: rest)).last = (run start text).last ∧
      Move.textOf (run start (text ++ ',' :: rest)).moves = text := by
  have reads := reads_comma covered rest
  have settled := (reads.marksAtRoot_balance escapes).2.phase_of_atRoot atRoot
  obtain ⟨moves, read, same⟩ := reads.run
  rw [same, run, stop_comma settled atRoot]
  refine ⟨rfl, ?_⟩
  rw [Extent.moves_precededBy, Move.textOf_append, read]
  exact List.append_nil text

/-- A `:` at the beginning is the whole value if it is awaited, and ends it if not. -/
theorem run_colon {context : Context} (atRoot : context.atRoot = true) :
    (run { context } [':']).last.found = some .script ∧
      Move.textOf (run { context } [':']).moves =
        if context.awaitsColon then [':'] else [] := by
  let start : Progress := { context }
  have settled : start.phase ≠ .escape := nofun
  rw [run, step_colon settled atRoot]
  cases context.awaitsColon <;> exact ⟨rfl, rfl⟩

theorem levels_run (start : Progress) (text : List Char) :
    (run start text).last.context.levels = start.context.levels := by
  let Kept (context : Context) : Prop := context.levels = start.context.levels
  have keeps {before after : Context} {c : Char} (changed : Change c before after)
      (same : Kept before) : Kept after := by
    cases changed <;> exact same
  exact run_keeps keeps rfl text

end PugTokens.Value
