import PugTokens.Scan

namespace PugTokens

/-! # What a layout scan does to a context

The levels are all that a layout scan can change, by one level at a time.
-/

namespace Layout

/-- What is found in front of a text, and the context that it leaves: a wider line opens a
level of its width, and a narrower one closes the innermost level. -/
inductive Effect (valid : KindSet) (text : List Char) (context : Context) :
    Option Kind → Context → Prop
  | nothing : Effect valid text context none context
  | newline : .newline ∈ valid → Effect valid text context (some .newline) context
  | indent {wide : Nat} :
      .indent ∈ valid → width (leading text) = wide → context.level < wide →
      Effect valid text context (some .indent)
        { context with levels := context.levels.push wide }
  | dedent {lower : Stack (0 : Nat)} {level : Nat} :
      .dedent ∈ valid → width (leading text) < level → context.levels = lower.push level →
      Effect valid text context (some .dedent) { context with levels := lower }

variable {context : Context} {valid : KindSet}

/-- A level that is wider than a line is above the bottom, and closing it leaves the
others. -/
theorem levels_dedent {wide : Nat} (narrower : wide < context.level) :
    context.levels = context.dedent.levels.push context.level := by
  have filled : context.levels.isBare = false := by
    apply Stack.isBare_of_top_ne
    change context.level ≠ 0
    omega
  exact (Stack.push_top_pop filled).symm

theorem measure_effect (context : Context) (valid : KindSet) (line : List Char) :
    Effect valid line context (measure context valid line).kind
      (measure context valid line).context := by
  rw [measure]
  split
  · next wider => exact .indent wider.2 rfl wider.1
  · split
    · next narrower => exact .dedent narrower.2 narrower.1 (levels_dedent narrower.1)
    · exact .nothing

theorem scan_effect (context : Context) (valid : KindSet) (view : View) :
    Effect valid view.unread context (scan context valid view).kind
      (scan context valid view).context := by
  rw [scan]
  split
  · exact .nothing
  · next c rest unread =>
      split
      · split
        · next accepted => exact .newline accepted
        · exact .nothing
      · split
        · rw [unread]
          exact measure_effect context valid (c :: rest)
        · exact .nothing

/-- What a layout scan does to a context: it opens a level, closes one that is wider
than the line, or leaves all as it is. -/
theorem scan_cases (context : Context) (valid : KindSet) (view : View) :
    let outcome := scan context valid view
    (outcome.kind = some .indent ∧
        ∃ wide, context.level < wide ∧ outcome.context = context.indent wide) ∨
      (outcome.kind = some .dedent ∧
        ∃ wide, wide < context.level ∧ outcome.context = context.dedent) ∨
      ((outcome.kind = some .newline ∨ outcome.kind = none) ∧ outcome.context = context) := by
  intro outcome
  have effect := scan_effect context valid view
  change Effect valid view.unread context outcome.kind outcome.context at effect
  generalize outcome.kind = kind, outcome.context = after at effect ⊢
  cases effect with
  | nothing => exact .inr (.inr ⟨.inr rfl, rfl⟩)
  | newline => exact .inr (.inr ⟨.inl rfl, rfl⟩)
  | indent _ _ wider => exact .inl ⟨rfl, _, wider, rfl⟩
  | @dedent lower level _ narrower levels =>
      have top : context.level = level := congrArg Stack.top levels
      have left : context.dedent = { context with levels := lower } := by
        rw [Context.dedent, levels]
        rfl
      exact .inr (.inl ⟨rfl, _, top ▸ narrower, left.symm⟩)

end Layout

/-- A scan that is not for a value is one of the layout, or finds nothing. -/
theorem scan_effect {valid : KindSet} (noValue : valid.meets Kind.value = false)
    (context : Context) (view : View) :
    Layout.Effect valid view.unread context (scan context valid view).kind
      (scan context valid view).context := by
  rw [scan, noValue, if_neg Bool.false_ne_true]
  split
  · exact Layout.scan_effect context valid view
  · exact .nothing

end PugTokens
