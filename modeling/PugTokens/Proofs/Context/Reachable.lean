import PugTokens.Proofs.Context.Order
import PugTokens.Proofs.Value.Ternaries

namespace PugTokens.Context

open Value (Reads marksAtRoot seen step)

/-! # Contexts that come about are in order

Since a `?` is remembered only outside all brackets and quotes, a `:` that is
met there finds an open `?` exactly if more `?` than `:` have been read, in this
value or in those before it.
-/

theorem WellFormed.awaitsColon_iff {context : Context} (wellFormed : context.WellFormed)
    (atRoot : context.atRoot = true) :
    context.awaitsColon = true ↔ 0 < context.ternaries.entries.length := by
  unfold awaitsColon
  rw [wellFormed.size_enclosures atRoot, beq_iff_eq]
  rcases List.eq_nil_or_concat' context.ternaries.entries with empty | ⟨front, last, filled⟩
  · rw [Stack.top_of_entries_nil empty, empty]
    simp
  · have one : last = 1 := wellFormed.rooted last (by simp [filled])
    rw [Stack.top_of_entries filled, filled, one]
    simp

/-- The stacks of a context that comes about are in order, and outside all
brackets and quotes a `:` belongs to the value exactly if a `?` waits for it:
one left over by earlier values, or one read in this value and not yet
answered. -/
theorem reachable_inOrder {context : Context} (reached : Reachable context) :
    context.WellFormed ∧
      ∀ read rest progress, Reads { context } read (':' :: rest) progress →
        progress.context.atRoot = true →
        ((step progress ':' rest.head?).takes = true ↔
          marksAtRoot ':' (seen { context } read (':' :: rest)) <
            context.ternaries.entries.length +
              marksAtRoot '?' (seen { context } read (':' :: rest))) := by
  have wellFormed := reached.wellFormed
  refine ⟨wellFormed, ?_⟩
  intro read rest progress reads atRoot
  have escapes : Value.EscapesQuoted { context } := by
    intro escaping
    contradiction
  obtain ⟨balance, escapesHere⟩ := reads.marksAtRoot_balance escapes
  have wellFormedHere : progress.context.WellFormed :=
    reads.keeps WellFormed.change wellFormed
  rw [Value.takes_colon (escapesHere.phase_of_atRoot atRoot) atRoot,
    wellFormedHere.awaitsColon_iff atRoot]
  dsimp only at balance
  omega

/-- In `a?b:c` the `:` is taken, and behind the whole of it another is not. -/
theorem reachable_inOrder_question :
    let asking : Value.Progress := { context := { ternaries := ⟨[1]⟩ }, found := some .script }
    let paired := (PugTokens.scan .initial .value ⟨['a', '?', 'b', ':', 'c'], true⟩).context
    Reads { context := .initial } ['a', '?', 'b'] [':', 'c'] asking ∧
      (step asking ':' (some 'c')).takes = true ∧
      paired.WellFormed ∧ (step { context := paired } ':' none).takes = false := by
  intro asking paired
  have reads : Reads { context := .initial } ['a', '?', 'b'] [':', 'c'] asking :=
    .step rfl (.step rfl (.step rfl (.refl _ _)))
  have first := (reachable_inOrder .initial).2 ['a', '?', 'b'] ['c'] asking reads rfl
  have second := reachable_inOrder (.scan .value ⟨['a', '?', 'b', ':', 'c'], true⟩ .initial)
  refine ⟨reads, first.mpr (by decide), second.1, ?_⟩
  refine Bool.eq_false_iff.mpr fun taken => ?_
  exact absurd ((second.2 [] [] _ (.refl _ _) (by decide)).mp taken) (by decide)

end PugTokens.Context
