import PugTokens.Proofs.Outline.Levels

namespace PugTokens.Outline

/-! # Two lines in a row

A line acts on the levels by its width: of those that are open it keeps what is no wider, and
it opens a level if none is as wide (`inside_eq`, `steps_eq`).  So two lines in a row come to
what the second of them alone would come to exactly if the first does nothing that the second
would not have done first (`Redundant.merges`, `Merges.redundant`).
-/

variable {line next : List Char} {levels outer : List Nat} {level : Nat}

/-! ## One line and the levels -/

/-- Levels above the bottom, the innermost first, each wider than the next and the last
wider than the bottom. -/
def Descending (levels : List Nat) : Prop := (levels ++ [0]).Pairwise (· > ·)

theorem descending_nil : Descending [] := List.pairwise_singleton _ 0

theorem descending_cons :
    Descending (level :: outer) ↔ (∀ lower ∈ outer ++ [0], lower < level) ∧ Descending outer :=
  List.pairwise_cons

theorem Descending.filter (descending : Descending levels) (chosen : Nat → Bool) :
    Descending (levels.filter chosen) :=
  descending.sublist (List.filter_sublist.append_right [0])

theorem Descending.kept_eq_filter (descending : Descending levels) (wide : Nat) :
    kept wide levels = levels.filter (· ≤ wide) := by
  induction levels with
  | nil => rfl
  | cons level outer induction =>
      obtain ⟨lower, descending⟩ := descending_cons.mp descending
      unfold kept at induction ⊢
      by_cases wider : wide < level
      · rw [List.dropWhile_cons_of_pos (by simpa using wider),
          List.filter_cons_of_neg (by simpa using wider), induction descending]
      · have narrow : ∀ other ∈ level :: outer, other ≤ wide := by
          intro other member
          rcases List.mem_cons.mp member with rfl | member
          · omega
          · have below := lower other (List.mem_append_left [0] member)
            omega
        rw [List.dropWhile_cons_of_neg (by simpa using wider),
          List.filter_eq_self.mpr (by simpa using narrow)]

theorem Descending.length_closings (descending : Descending levels) (wide : Nat) :
    (closings wide levels).length = levels.countP (wide < ·) := by
  have balance := Outline.length_closings wide levels
  have parts := List.length_eq_countP_add_countP (l := levels) (wide < ·)
  rw [descending.kept_eq_filter, ← List.countP_eq_length_filter] at balance
  simp only [decide_eq_true_eq, Nat.not_lt] at parts
  omega

/-- A level is opened at a width that no open level has. -/
theorem Descending.opens_iff (descending : Descending levels) (wide : Nat) :
    (kept wide levels).headD 0 < wide ↔ wide ∉ 0 :: levels := by
  induction levels with
  | nil => simp [kept, Nat.pos_iff_ne_zero]
  | cons level outer induction =>
      obtain ⟨lower, descending⟩ := descending_cons.mp descending
      have bottom : 0 < level := lower 0 (by simp)
      unfold kept at induction ⊢
      by_cases wider : wide < level
      · rw [List.dropWhile_cons_of_pos (by simpa using wider), induction descending]
        have other : wide ≠ level := Nat.ne_of_lt wider
        simp [other]
      · rw [List.dropWhile_cons_of_neg (by simpa using wider), List.headD_cons]
        have notLower : level < wide → wide ∉ outer := by
          intro above member
          have below := lower wide (List.mem_append_left [0] member)
          omega
        simp only [List.mem_cons, not_or]
        constructor
        · intro above
          exact ⟨by omega, by omega, notLower above⟩
        · intro others
          omega

theorem inside_nil (levels : List Nat) : inside levels [] = levels := rfl

theorem steps_nil (levels : List Nat) : steps levels [] = [] := rfl

/-- A line that is not empty acts on the levels by its width. -/
theorem indentation_filled (filled : line ≠ []) (levels : List Nat) :
    indentation .start line levels =
      let closed := (closings (widthOf line) levels).map fun left =>
        (⟨.dedent, .start, 0 :: left.reverse⟩ : Entry)
      let left := kept (widthOf line) levels
      if left.headD 0 < widthOf line then
        (closed ++ [⟨.indent, .start, 0 :: (widthOf line :: left).reverse⟩],
          widthOf line :: left)
      else (closed, left) :=
  if_neg (by simpa using filled)

theorem inside_eq (descending : Descending levels) (filled : line ≠ []) :
    inside levels line =
      if widthOf line ∈ 0 :: levels then levels.filter (· ≤ widthOf line)
      else widthOf line :: levels.filter (· ≤ widthOf line) := by
  have opens := descending.opens_iff (widthOf line)
  rw [inside, indentation_filled filled, ← descending.kept_eq_filter]
  dsimp only
  by_cases member : widthOf line ∈ 0 :: levels
  · rw [if_neg (fun wider => opens.mp wider member), if_pos member]
  · rw [if_pos (opens.mpr member), if_neg member]

theorem steps_eq (descending : Descending levels) (filled : line ≠ []) :
    steps levels line = List.replicate (levels.countP (widthOf line < ·)) .dedent ++
      if widthOf line ∈ 0 :: levels then [] else [.indent] := by
  have opens := descending.opens_iff (widthOf line)
  have closed : ((closings (widthOf line) levels).map fun left =>
      (⟨.dedent, .start, 0 :: left.reverse⟩ : Entry)).map Entry.kind =
      List.replicate (levels.countP (widthOf line < ·)) .dedent := by
    rw [List.map_map, ← descending.length_closings]
    exact List.map_const
  rw [steps, indentation_filled filled]
  dsimp only
  by_cases member : widthOf line ∈ 0 :: levels
  · rw [if_neg (fun wider => opens.mp wider member), if_pos member, List.append_nil]
    exact closed
  · rw [if_pos (opens.mpr member), if_neg member, List.map_append, closed]
    rfl

theorem Descending.inside (descending : Descending levels) (line : List Char) :
    Descending (inside levels line) := by
  by_cases filled : line = []
  · rw [filled, inside_nil]
    exact descending
  · have rest := descending.filter (· ≤ widthOf line)
    rw [inside_eq descending filled]
    split
    · exact rest
    · next other =>
        refine descending_cons.mpr ⟨?_, rest⟩
        intro lower member
        rcases List.mem_append.mp member with member | member
        · obtain ⟨member, narrow⟩ := List.mem_filter.mp member
          have different : lower ≠ widthOf line := by
            rintro rfl
            exact other (List.mem_cons_of_mem 0 member)
          have narrow := of_decide_eq_true narrow
          omega
        · obtain rfl := List.mem_singleton.mp member
          have different : widthOf line ≠ 0 := by
            intro same
            exact other (by simp [same])
          omega

theorem Descending.foldl_inside (descending : Descending levels) (above : List (List Char)) :
    Descending (above.foldl Outline.inside levels) := by
  induction above generalizing levels with
  | nil => exact descending
  | cons line above induction => exact induction (descending.inside line)

theorem mem_inside (descending : Descending levels) (filled : line ≠ []) :
    level ∈ 0 :: inside levels line ↔
      level = widthOf line ∨ level ∈ 0 :: levels ∧ level ≤ widthOf line := by
  rw [inside_eq descending filled]
  split
  · next member =>
      simp only [List.mem_cons, List.mem_filter, decide_eq_true_eq]
      constructor
      · rintro (rfl | ⟨member, narrow⟩)
        · exact .inr ⟨.inl rfl, Nat.zero_le _⟩
        · exact .inr ⟨.inr member, narrow⟩
      · rintro (rfl | ⟨rfl | member, narrow⟩)
        · exact (List.mem_cons.mp member).imp_right fun member => ⟨member, Nat.le_refl _⟩
        · exact .inl rfl
        · exact .inr ⟨member, narrow⟩
  · simp only [List.mem_cons, List.mem_filter, decide_eq_true_eq]
    constructor
    · rintro (rfl | same | ⟨member, narrow⟩)
      · exact .inr ⟨.inl rfl, Nat.zero_le _⟩
      · exact .inl same
      · exact .inr ⟨.inr member, narrow⟩
    · rintro (same | ⟨rfl | member, narrow⟩)
      · exact .inr (.inl same)
      · exact .inl rfl
      · exact .inr (.inr ⟨member, narrow⟩)

/-! ## Two lines in a row -/

/-- A line that does nothing that the line behind it, which may be empty, would not do first.
The levels are those in force before it, the bottom included. -/
inductive Redundant (levels : List Nat) (line next : List Char) : Prop
  | empty : line = [] → Redundant levels line next
  | again : next ≠ [] → widthOf next = widthOf line → Redundant levels line next
  /-- No level is opened, and the levels that are closed would be closed by the next line. -/
  | covered : widthOf line ∈ levels →
      (∀ level ∈ levels, widthOf line < level → next ≠ [] ∧ widthOf next < level) →
      Redundant levels line next

/-- A line and the next one lead by the same steps to where the next one leads alone. -/
structure Merges (levels : List Nat) (line next : List Char) : Prop where
  left : inside (inside levels line) next = inside levels next
  told : steps levels line ++ steps (inside levels line) next = steps levels next

theorem Merges.empty (levels : List Nat) (next : List Char) : Merges levels [] next := ⟨rfl, rfl⟩

theorem Merges.again (descending : Descending levels) (filled : line ≠ [])
    (filledNext : next ≠ []) (same : widthOf next = widthOf line) : Merges levels line next := by
  have member : widthOf next ∈ 0 :: inside levels line :=
    (mem_inside descending filled).mpr (.inl same)
  have narrow : ∀ level ∈ inside levels line, level ≤ widthOf next := by
    intro level inner
    rw [same]
    rcases (mem_inside descending filled).mp (List.mem_cons_of_mem 0 inner) with same | kept
    · exact Nat.le_of_eq same
    · exact kept.2
  have closed : (inside levels line).countP (widthOf next < ·) = 0 := by
    simpa [List.countP_eq_zero] using narrow
  constructor
  · rw [inside_eq (descending.inside line) filledNext, if_pos member,
      List.filter_eq_self.mpr (by simpa using narrow), inside_eq descending filled,
      inside_eq descending filledNext, same]
  · rw [steps_eq (descending.inside line) filledNext, if_pos member, closed,
      steps_eq descending filled, steps_eq descending filledNext, same]
    simp

theorem Merges.covered (descending : Descending levels) (filled : line ≠ [])
    (member : widthOf line ∈ 0 :: levels)
    (narrower : ∀ level ∈ 0 :: levels, widthOf line < level →
      next ≠ [] ∧ widthOf next < level) : Merges levels line next := by
  have left := inside_eq descending filled
  have closed := steps_eq descending filled
  rw [if_pos member] at left closed
  rw [List.append_nil] at closed
  by_cases filledNext : next = []
  · -- No level is wider than the line, which does nothing at all.
    subst filledNext
    have narrow : ∀ level ∈ levels, level ≤ widthOf line := by
      intro level inner
      by_contra wider
      exact (narrower level (List.mem_cons_of_mem 0 inner) (Nat.not_le.mp wider)).1 rfl
    have none : levels.countP (widthOf line < ·) = 0 := by
      simpa [List.countP_eq_zero] using narrow
    rw [List.filter_eq_self.mpr (by simpa using narrow)] at left
    constructor
    · rw [inside_nil, inside_nil, left]
    · rw [closed, none]
      rfl
  · have narrowed : ∀ level ∈ levels, widthOf line < level → widthOf next < level :=
      fun level inner wider => (narrower level (List.mem_cons_of_mem 0 inner) wider).2
    have opens : widthOf next ∈ 0 :: inside levels line ↔ widthOf next ∈ 0 :: levels := by
      rw [mem_inside descending filled]
      constructor
      · rintro (same | kept)
        · rwa [same]
        · exact kept.1
      · intro inner
        refine .inr ⟨inner, ?_⟩
        by_contra wider
        have below := (narrower _ inner (Nat.not_le.mp wider)).2
        omega
    have kept : (inside levels line).filter (· ≤ widthOf next) =
        levels.filter (· ≤ widthOf next) := by
      rw [left, List.filter_filter]
      refine List.filter_congr fun level inner => ?_
      have below := narrowed level inner
      simp only [← Bool.decide_and, decide_eq_decide]
      omega
    have counted : levels.countP (widthOf line < ·) +
        (inside levels line).countP (widthOf next < ·) =
          levels.countP (widthOf next < ·) := by
      have parts := List.countP_eq_countP_filter_add levels (widthOf next < ·)
        (· ≤ widthOf line)
      have wider : (levels.filter fun level => !decide (level ≤ widthOf line)).countP
          (widthOf next < ·) = levels.countP (widthOf line < ·) := by
        rw [List.countP_filter]
        refine List.countP_congr fun level inner => ?_
        have below := narrowed level inner
        simp only [Bool.and_eq_true, Bool.not_eq_true', decide_eq_true_eq,
          decide_eq_false_iff_not]
        omega
      rw [left]
      omega
    constructor
    · rw [inside_eq (descending.inside line) filledNext, inside_eq descending filledNext, kept]
      simp only [opens]
    · rw [closed, steps_eq (descending.inside line) filledNext,
        steps_eq descending filledNext, ← List.append_assoc, ← List.replicate_add, counted]
      simp only [opens]

theorem Redundant.merges (descending : Descending levels)
    (redundant : Redundant (0 :: levels.reverse) line next) : Merges levels line next := by
  by_cases filled : line = []
  · rw [filled]
    exact .empty levels next
  · cases redundant with
    | empty empty => exact absurd empty filled
    | again filledNext same => exact .again descending filled filledNext same
    | covered member narrower =>
        simp only [List.mem_cons, List.mem_reverse] at member narrower
        exact .covered descending filled (List.mem_cons.mpr member)
          (by simpa only [List.mem_cons] using narrower)

theorem count_dedent_steps (descending : Descending levels) (filled : line ≠ []) :
    (steps levels line).count .dedent = levels.countP (widthOf line < ·) := by
  rw [steps_eq descending filled, List.count_append, List.count_replicate_self]
  split <;> rfl

theorem count_indent_steps (descending : Descending levels) (filled : line ≠ []) :
    (steps levels line).count .indent = if widthOf line ∈ 0 :: levels then 0 else 1 := by
  rw [steps_eq descending filled, List.count_append, List.count_replicate, if_neg (by decide)]
  split <;> rfl

/-- With a level that is wider than the line but not than the next one, the line closes more
levels than the next line does. -/
theorem countP_lt_countP {levels : List Nat} {narrow broad : Nat} (member : level ∈ levels)
    (wider : narrow < level) (inner : level ≤ broad) :
    levels.countP (broad < ·) < levels.countP (narrow < ·) := by
  have parts := List.countP_eq_countP_filter_add levels (narrow < ·) (broad < ·)
  have above : (levels.filter (broad < ·)).countP (narrow < ·) =
      levels.countP (broad < ·) := by
    rw [List.countP_filter]
    refine List.countP_congr fun other _ => ?_
    simp only [Bool.and_eq_true, decide_eq_true_eq]
    omega
  have between : 0 < (levels.filter fun other => !decide (broad < other)).countP
      (narrow < ·) := by
    refine List.countP_pos_iff.mpr ⟨level, List.mem_filter.mpr ⟨member, ?_⟩, ?_⟩
    · simpa using inner
    · simpa using wider
  omega

/-- Only the numbers of the steps are compared: of levels that are closed and of levels that
are opened. -/
theorem Merges.redundant (descending : Descending levels) (merges : Merges levels line next) :
    Redundant (0 :: levels.reverse) line next := by
  by_cases filled : line = []
  · exact .empty filled
  have closed := congrArg (List.count .dedent) merges.told
  have opened := congrArg (List.count .indent) merges.told
  rw [List.count_append, count_dedent_steps descending filled] at closed
  rw [List.count_append, count_indent_steps descending filled] at opened
  by_cases member : widthOf line ∈ 0 :: levels
  · refine .covered (by simpa using member) fun level inner wider => ?_
    have inner : level ∈ levels := by
      rcases List.mem_cons.mp inner with rfl | inner
      · omega
      · exact List.mem_reverse.mp inner
    by_cases filledNext : next = []
    · -- The next line closes nothing.
      have positive : 0 < levels.countP (widthOf line < ·) :=
        List.countP_pos_iff.mpr ⟨level, inner, by simpa using wider⟩
      rw [filledNext, steps_nil, steps_nil, List.count_nil] at closed
      omega
    · refine ⟨filledNext, ?_⟩
      by_contra broad
      have fewer := countP_lt_countP inner wider (Nat.not_lt.mp broad)
      rw [count_dedent_steps descending filledNext] at closed
      omega
  · rw [if_neg member] at opened
    by_cases filledNext : next = []
    · rw [filledNext, steps_nil, steps_nil, List.count_nil] at opened
      omega
    · -- The next line opens a level too, and it is the level of the line.
      rw [count_indent_steps (descending.inside line) filledNext,
        count_indent_steps descending filledNext] at opened
      refine .again filledNext ?_
      by_contra other
      by_cases known : widthOf next ∈ 0 :: levels
      · rw [if_pos known] at opened
        omega
      · have closed : widthOf next ∉ 0 :: inside levels line := by
          rw [mem_inside descending filled]
          exact fun left => left.elim other fun left => known left.1
        rw [if_neg known, if_neg closed] at opened
        omega

end PugTokens.Outline
