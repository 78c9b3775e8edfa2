import Mathlib.Data.List.Forall2
import PugTokens.Reading

namespace PugTokens.Reading

/-! # Taking answers until there are none

`drain` asks a bounded number of times.  `Yields` follows the same answers with
no bound, so that runs can be put together from parts; a run that comes to its
end is what `drain` finds, if the bound is larger than the number of answers.
Of two states that go on alike one runs as the other does (`Yields.simulate`).
-/

variable {σ α ε : Type} {next : σ → Except ε (Option α × σ)}
variable {state middle last final : σ} {answers later : List (α × σ)}

/-- The answers that `next` gives one after the other, each with the state after
    it, and where they lead. -/
inductive Yields (next : σ → Except ε (Option α × σ)) : σ → List (α × σ) → σ → Prop
  | refl (state : σ) : Yields next state [] state
  | cons {state after last : σ} {answer : α} {later : List (α × σ)} :
      next state = .ok (some answer, after) → Yields next after later last →
      Yields next state ((answer, after) :: later) last

theorem Yields.append (first : Yields next state answers middle)
    (second : Yields next middle later last) :
    Yields next state (answers ++ later) last := by
  induction first with
  | refl => exact second
  | cons answered _ induction => exact .cons answered (induction second)

theorem Yields.single {answer : α} (answered : next state = .ok (some answer, last)) :
    Yields next state [(answer, last)] last :=
  .cons answered (.refl last)

/-- Where `next` does the same, the same run begins. -/
theorem Yields.congr {other : σ} (run : Yields next state answers last)
    (finished : next last = .ok (none, final)) (same : next other = next state) :
    ∃ stop, Yields next other answers stop ∧ next stop = .ok (none, final) := by
  cases run with
  | refl => exact ⟨other, .refl other, same.trans finished⟩
  | cons answered later => exact ⟨last, .cons (same.trans answered) later, finished⟩

/-- A run that comes to its end begins with every run from the same state. -/
theorem Yields.continues (first : Yields next state answers middle)
    (run : Yields next state later last) (finished : next last = .ok (none, final)) :
    ∃ rest, later = answers ++ rest ∧ Yields next middle rest last := by
  induction first generalizing later with
  | refl => exact ⟨later, rfl, run⟩
  | cons answered _ induction =>
      cases run with
      | refl => cases answered.symm.trans finished
      | cons again run =>
          cases answered.symm.trans again
          obtain ⟨rest, split, continued⟩ := induction run
          exact ⟨rest, congrArg _ split, continued⟩

theorem Yields.drain {limit : Nat} (run : Yields next state answers last)
    (finished : next last = .ok (none, final)) (enough : answers.length < limit) :
    drain next limit state = .ok (answers, final) := by
  induction run generalizing limit with
  | refl =>
      cases limit with
      | zero => simp at enough
      | succ limit =>
          unfold Reading.drain
          rw [finished]
          rfl
  | cons answered _ induction =>
      cases limit with
      | zero => simp at enough
      | succ limit =>
          have rest := induction finished (Nat.lt_of_succ_lt_succ enough)
          unfold Reading.drain
          rw [answered]
          simp only [bind, Except.bind, rest]
          rfl

/-- What one answer keeps holds behind every answer of a run. -/
theorem Yields.keeps {Kept : σ → Prop} {Told : α → Prop}
    (step : ∀ {state answer after}, Kept state → next state = .ok (some answer, after) →
      Told answer ∧ Kept after)
    (run : Yields next state answers last) (kept : Kept state) :
    ∀ answer ∈ answers, Told answer.1 ∧ Kept answer.2 := by
  induction run with
  | refl => nofun
  | cons answered _ induction =>
      have first := step kept answered
      exact List.forall_mem_cons.mpr ⟨first, induction first.2⟩

/-- A run that is not over after its first answer begins with it. -/
theorem Yields.head {after : σ} {answer : α} (run : Yields next state answers last)
    (finished : next last = .ok (none, final)) (answered : next state = .ok (some answer, after)) :
    (answer, after) ∈ answers := by
  cases run with
  | refl =>
      rw [answered] at finished
      cases finished
  | cons again _ =>
      rw [answered] at again
      cases again
      exact List.mem_cons_self

/-- What is taken begins with the next answer. -/
theorem drain_succ {limit : Nat} {after : σ} {answer : α}
    (answered : next state = .ok (some answer, after)) :
    drain next (limit + 1) state =
      (drain next limit after).map fun taken => ((answer, after) :: taken.1, taken.2) := by
  rw [Reading.drain, answered]
  cases taken : drain next limit after <;> simp only [bind, Except.bind, taken] <;> rfl

theorem exists_cons_of_drain {limit : Nat} {after : σ} {answer : α}
    (answered : next state = .ok (some answer, after))
    (drained : drain next (limit + 1) state = .ok (answers, last)) :
    ∃ later, answers = (answer, after) :: later := by
  rw [drain_succ answered] at drained
  cases taken : drain next limit after with
  | error problem =>
      rw [taken] at drained
      cases drained
  | ok result =>
      rw [taken] at drained
      cases drained
      exact ⟨result.1, rfl⟩

theorem exists_drain_cons {limit : Nat} {first : α × σ}
    (drained : drain next limit state = .ok (first :: answers, last)) :
    next state = .ok (some first.1, first.2) := by
  cases limit with
  | zero => cases drained
  | succ limit =>
      cases answered : next state with
      | error problem =>
          rw [Reading.drain, answered] at drained
          cases drained
      | ok result =>
          obtain ⟨answer | answer, after⟩ := result
          · rw [Reading.drain, answered] at drained
            cases drained
          · obtain ⟨_, same⟩ := exists_cons_of_drain answered drained
            cases same
            rfl

section Simulation

variable {τ β ζ : Type} {along : τ → Except ζ (Option β × τ)} {other : τ}
variable {Related : σ → τ → Prop} {Alike : α → β → Prop}

/-- If related states give answers that are alike and go on to related states, then a
run from one of them is followed by a run from the other. -/
theorem Yields.simulate
    (step : ∀ {state other answer after}, Related state other →
      next state = .ok (answer, after) →
      ∃ answerToo afterToo, along other = .ok (answerToo, afterToo) ∧
        Option.Rel Alike answer answerToo ∧ Related after afterToo)
    (run : Yields next state answers last) (related : Related state other) :
    ∃ others stop, Yields along other others stop ∧ Related last stop ∧
      List.Forall₂ (fun one another => Alike one.1 another.1 ∧ Related one.2 another.2)
        answers others := by
  induction run generalizing other with
  | refl => exact ⟨[], other, .refl other, related, .nil⟩
  | cons answered _ induction =>
      obtain ⟨answerToo, afterToo, answeredToo, alike, relatedAfter⟩ := step related answered
      cases alike with
      | some alike =>
          obtain ⟨others, stop, later, relatedLast, pairs⟩ := induction relatedAfter
          exact ⟨_, stop, .cons answeredToo later, relatedLast,
            .cons ⟨alike, relatedAfter⟩ pairs⟩

end Simulation

end PugTokens.Reading
