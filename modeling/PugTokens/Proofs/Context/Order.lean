import Mathlib.Data.List.Chain
import PugTokens.Proofs.Context.RoundTrip
import PugTokens.Proofs.Value.Reads
import PugTokens.Scan.Reachable

namespace PugTokens

/-! # The order of the open entries

Scanning from the initial context keeps its stacks in order: levels grow from
the bottom up, quotes stand only above brackets, and a `?` is remembered only
outside all of them.  Nothing checks this while a text is read; it follows from
what one character can do to a context.
-/

theorem Stack.top_of_entries {α : Type} {bottom last : α} {stack : Stack bottom}
    {front : List α} (listed : stack.entries = front ++ [last]) : stack.top = last := by
  have highest := stack.top_eq_getLast
  rw [Stack.toList, listed, ← List.cons_append, List.getLast?_append] at highest
  simpa using highest.symm

theorem Stack.top_of_entries_nil {α : Type} {bottom : α} {stack : Stack bottom}
    (listed : stack.entries = []) : stack.top = bottom := by
  have highest := stack.top_eq_getLast
  rw [Stack.toList, listed] at highest
  simpa using highest.symm

namespace Context

theorem alternating_iff_isChain (quotes : List Char) :
    Alternating quotes ↔ quotes.IsChain (· ≠ ·) := by
  induction quotes with
  | nil => simp [Alternating]
  | cons first rest induction =>
      cases rest with
      | nil => simp [Alternating]
      | cons second rest => rw [Alternating, List.isChain_cons_cons, induction]

/-! ## Brackets and quotes -/

variable {stack : Stack outside} {entries : List Char} {c : Char}

/-- Below anything but a quote there are only brackets. -/
theorem Nested.openers (nested : Nested stack.entries) (plain : isQuote stack.top = false) :
    ∀ c ∈ stack.entries, isOpener c = true := by
  obtain ⟨brackets, quotes, split, areOpeners, areQuotes, _⟩ := nested
  have none : quotes = [] := by
    rcases List.eq_nil_or_concat' quotes with empty | ⟨front, last, filled⟩
    · exact empty
    · subst filled
      rw [← List.append_assoc] at split
      have quote := areQuotes last (by simp)
      rw [Stack.top_of_entries split, quote] at plain
      contradiction
  subst none
  rw [split, List.append_nil]
  exact areOpeners

theorem nested_openers (areOpeners : ∀ c ∈ entries, isOpener c = true) : Nested entries :=
  ⟨entries, [], by simp, areOpeners, by simp, trivial⟩

theorem Nested.openBracket (nested : Nested stack.entries)
    (plain : isQuote stack.top = false) (opener : isOpener c = true) :
    Nested (stack.entries ++ [c]) := by
  refine nested_openers fun other member => ?_
  rcases List.mem_append.mp member with below | same
  · exact nested.openers plain other below
  · rw [List.mem_singleton.mp same]
    exact opener

theorem Nested.openQuote (nested : Nested stack.entries) (quote : isQuote c = true)
    (different : stack.top ≠ c) : Nested (stack.entries ++ [c]) := by
  obtain ⟨brackets, quotes, split, areOpeners, areQuotes, alternating⟩ := nested
  refine ⟨brackets, quotes ++ [c], by rw [split, List.append_assoc], areOpeners, ?_, ?_⟩
  · intro other member
    rcases List.mem_append.mp member with below | same
    · exact areQuotes other below
    · rw [List.mem_singleton.mp same]
      exact quote
  · rw [alternating_iff_isChain] at alternating ⊢
    refine alternating.append (by simp) ?_
    intro last highest first same
    obtain ⟨front, filled⟩ := List.getLast?_eq_some_iff.mp highest
    rw [filled, ← List.append_assoc] at split
    rw [Stack.top_of_entries split] at different
    have equal : c = first := by simpa using same
    exact equal ▸ different

theorem Nested.dropLast (nested : Nested entries) : Nested entries.dropLast := by
  obtain ⟨brackets, quotes, split, areOpeners, areQuotes, alternating⟩ := nested
  rcases List.eq_nil_or_concat' quotes with empty | ⟨front, last, filled⟩
  · subst empty
    rw [split, List.append_nil]
    exact nested_openers fun c member => areOpeners c (List.dropLast_subset _ member)
  · rw [filled] at split areQuotes alternating
    rw [← List.append_assoc] at split
    rw [split, List.dropLast_concat]
    refine ⟨brackets, front, rfl, areOpeners, fun c member => areQuotes c (by simp [member]), ?_⟩
    rw [alternating_iff_isChain] at alternating ⊢
    have shorter := alternating.dropLast
    rwa [List.dropLast_concat] at shorter

/-- Outside all brackets and quotes nothing is open. -/
theorem Nested.entries_of_outside (nested : Nested stack.entries)
    (atRoot : stack.top = outside) : stack.entries = [] := by
  have plain : isQuote stack.top = false := by
    rw [atRoot]
    decide
  have areOpeners := nested.openers plain
  rcases List.eq_nil_or_concat' stack.entries with empty | ⟨front, last, filled⟩
  · exact empty
  · have top := Stack.top_of_entries filled
    have opener := areOpeners last (by simp [filled])
    rw [← top, atRoot] at opener
    exact absurd opener (by decide)

/-! ## Steps -/

variable {context : Context}

theorem WellFormed.size_enclosures (wellFormed : context.WellFormed)
    (atRoot : context.atRoot = true) : context.enclosures.size = 1 := by
  have top : context.enclosures.top = outside := eq_of_beq atRoot
  have none := wellFormed.nested.entries_of_outside top
  rw [← Stack.length_toList, Stack.toList, none]
  rfl

theorem WellFormed.change {after : Context} (changed : Value.Change c context after)
    (wellFormed : context.WellFormed) : after.WellFormed := by
  cases changed with
  | keep => exact wellFormed
  | settle => exact ⟨wellFormed.increasing, wellFormed.nested, wellFormed.rooted⟩
  | operator => exact ⟨wellFormed.increasing, wellFormed.nested, wellFormed.rooted⟩
  | openQuote quote different =>
      refine ⟨wellFormed.increasing, ?_, wellFormed.rooted⟩
      simp only [enter, Stack.entries_push]
      exact wellFormed.nested.openQuote quote different
  | closeQuote =>
      refine ⟨wellFormed.increasing, ?_, wellFormed.rooted⟩
      simp only [leave, Stack.entries_pop]
      exact wellFormed.nested.dropLast
  | openBracket opener plain =>
      refine ⟨wellFormed.increasing, ?_, wellFormed.rooted⟩
      simp only [enter, settle, Stack.entries_push]
      exact wellFormed.nested.openBracket plain opener
  | closeBracket =>
      refine ⟨wellFormed.increasing, ?_, wellFormed.rooted⟩
      simp only [leave, settle, Stack.entries_pop]
      exact wellFormed.nested.dropLast
  | ask question atRoot =>
      refine ⟨wellFormed.increasing, wellFormed.nested, ?_⟩
      intro size member
      simp only [ask, await, Stack.entries_push] at member
      rcases List.mem_append.mp member with below | same
      · exact wellFormed.rooted size below
      · rw [List.mem_singleton.mp same]
        exact wellFormed.size_enclosures atRoot
  | answer colon atRoot awaited =>
      refine ⟨wellFormed.increasing, wellFormed.nested, ?_⟩
      intro size member
      simp only [answer, await, Stack.entries_pop] at member
      exact wellFormed.rooted size (List.dropLast_subset _ member)

/-- A stack read from the top down. -/
theorem toList_eq_reverse {α : Type} {bottom : α} (stack : Stack bottom) :
    stack.toList = (stack.above ++ [bottom]).reverse := by
  simp [Stack.toList, Stack.entries]

theorem WellFormed.indent {width : Nat} (wellFormed : context.WellFormed)
    (wider : context.level < width) : (context.indent width).WellFormed := by
  refine ⟨?_, wellFormed.nested, wellFormed.rooted⟩
  have increasing := wellFormed.increasing
  rw [toList_eq_reverse, List.pairwise_reverse] at increasing ⊢
  refine List.pairwise_cons.mpr ⟨?_, increasing⟩
  intro level member
  have highest : level ≤ context.level := by
    unfold Context.level Stack.top
    cases open_levels : context.levels.above with
    | nil => simpa [open_levels] using member
    | cons top below =>
        rw [open_levels, List.cons_append] at increasing
        rw [open_levels] at member
        rcases List.mem_cons.mp member with same | lower
        · exact Nat.le_of_eq same
        · exact Nat.le_of_lt ((List.pairwise_cons.mp increasing).1 level lower)
  omega

theorem WellFormed.dedent (wellFormed : context.WellFormed) :
    context.dedent.WellFormed := by
  refine ⟨?_, wellFormed.nested, wellFormed.rooted⟩
  have increasing := wellFormed.increasing
  rw [toList_eq_reverse, List.pairwise_reverse] at increasing ⊢
  refine increasing.sublist ?_
  exact (List.tail_sublist context.levels.above).append_right [0]

theorem WellFormed.layout (wellFormed : context.WellFormed) (valid : KindSet) (view : View) :
    (Layout.scan context valid view).context.WellFormed := by
  unfold Layout.scan
  split
  · exact wellFormed
  · split
    · split <;> exact wellFormed
    · split
      · unfold Layout.measure
        dsimp only
        split
        · next wider => exact wellFormed.indent wider.1
        · split
          · exact wellFormed.dedent
          · exact wellFormed
      · exact wellFormed

theorem WellFormed.scan (wellFormed : context.WellFormed) (valid : KindSet) (view : View) :
    (PugTokens.scan context valid view).context.WellFormed := by
  unfold PugTokens.scan
  split
  · rw [Value.scan_eq_run]
    exact Value.run_keeps WellFormed.change wellFormed view.unread
  · split
    · exact wellFormed.layout valid view
    · exact wellFormed

theorem Reachable.wellFormed (reached : Reachable context) : context.WellFormed := by
  induction reached with
  | initial => exact wellFormed_initial
  | scan valid view _ induction => exact induction.scan valid view
  | dedent _ induction => exact induction.dedent
  | @reload context loaded bytes _ written read induction =>
      have same := decode_encode written []
      rw [List.append_nil, read, Except.ok.injEq] at same
      exact same ▸ induction

end Context

end PugTokens
