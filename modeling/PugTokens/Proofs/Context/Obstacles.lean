import PugTokens.Proofs.Context.Prefixes

namespace PugTokens.Context

/-! # What keeps a context from being stored

Storing fails at the first thing that does not fit: the whole before its stacks, the stacks
from the levels to the ternaries, and of each stack the number of its entries before the
entries themselves, from the lowest up.  Where nothing is in the way, the bytes are the
sizes and the entries as they are (`encode_obstacle`).
-/

variable {context : Context} {name : StackName} {reason : EncodeError} {bytes : List UInt8}

/-! ## One stack -/

theorem stackSize_eq (context : Context) (name : StackName) :
    context.stackSize name = (context.codes name).length + 1 := by
  cases name with
  | indent => exact size_eq_length_entries context.levels
  | bracket =>
      rw [codes, List.length_map]
      exact size_eq_length_entries context.enclosures
  | ternary => exact size_eq_length_entries context.ternaries

theorem storable_iff : context.Storable ↔ ∀ name, context.StackFits name := by
  apply forall_congr'
  intro name
  rw [StackFits, stackSize_eq, Nat.succ_le_iff]

theorem encodeEntries_of_find? {entries : List Nat} {value : Nat}
    (found : entries.find? (255 < ·) = some value) :
    encodeEntries name entries = .error (.tooWide name value) := by
  induction entries with
  | nil => contradiction
  | cons first rest induction =>
      by_cases wide : 255 < first
      · rw [List.find?_cons_of_pos (by simpa using wide)] at found
        cases found
        rw [encodeEntries, if_pos wide]
      · rw [List.find?_cons_of_neg (by simpa using wide)] at found
        rw [encodeEntries, if_neg wide, induction found]
        rfl

theorem encodeBlock_of_misfit (misfit : context.Misfit name reason) :
    encodeBlock name (context.codes name) = .error reason := by
  cases misfit with
  | deep many =>
      rw [stackSize_eq] at many ⊢
      rw [encodeBlock, if_pos many]
  | wide few found =>
      rw [stackSize_eq] at few
      rw [encodeBlock, if_neg (Nat.not_lt.mpr few), encodeEntries_of_find? found]
      rfl

theorem encodeBlock_of_fits (fits : context.StackFits name) :
    ∃ bytes, encodeBlock name (context.codes name) = .ok bytes := by
  rw [StackFits, stackSize_eq, Nat.succ_le_iff] at fits
  exact ⟨_, encodeBlock_of_le fits.1 fits.2⟩

/-- Either a stack fits, or the first thing that does not is found. -/
theorem fits_or_misfit (context : Context) (name : StackName) :
    context.StackFits name ∨ ∃ reason, context.Misfit name reason := by
  by_cases many : 255 < context.stackSize name
  · exact .inr ⟨_, .deep many⟩
  · have few : context.stackSize name ≤ 255 := Nat.not_lt.mp many
    cases found : (context.codes name).find? (255 < ·) with
    | some value => exact .inr ⟨_, .wide few found⟩
    | none =>
        refine .inl ⟨few, fun value member => ?_⟩
        have narrow := List.find?_eq_none.mp found value member
        simpa using narrow

/-! ## The whole -/

theorem wholeSize_eq (context : Context) : context.wholeSize = context.encodedSize := rfl

theorem encode_of_obstacle (obstacle : context.Obstacle reason) :
    context.encode = .error reason := by
  cases obstacle with
  | whole long =>
      rw [wholeSize_eq] at long ⊢
      rw [encode, byteLimit, if_pos long]
      rfl
  | @stack name _ short earlier misfit =>
      have failed := encodeBlock_of_misfit misfit
      rw [wholeSize_eq] at short
      rw [encode, byteLimit, if_neg (Nat.not_lt.mpr short)]
      cases name with
      | indent =>
          change encodeBlock .indent context.levels.entries = _ at failed
          rw [failed]
          rfl
      | bracket =>
          obtain ⟨levels, first⟩ := encodeBlock_of_fits (earlier .indent (by decide))
          change encodeBlock .indent context.levels.entries = _ at first
          change encodeBlock .bracket (context.enclosures.entries.map Char.toNat) = _ at failed
          rw [first, failed]
          rfl
      | ternary =>
          obtain ⟨levels, first⟩ := encodeBlock_of_fits (earlier .indent (by decide))
          obtain ⟨enclosures, second⟩ := encodeBlock_of_fits (earlier .bracket (by decide))
          change encodeBlock .indent context.levels.entries = _ at first
          change encodeBlock .bracket (context.enclosures.entries.map Char.toNat) = _ at second
          change encodeBlock .ternary context.ternaries.entries = _ at failed
          rw [first, second, failed]
          rfl

/-- Either everything fits, or there is a first thing in the way. -/
theorem fits_or_obstacle (context : Context) :
    (∀ name, context.StackFits name) ∨ ∃ reason, context.Obstacle reason := by
  by_cases long : 1024 < context.wholeSize
  · exact .inr ⟨_, .whole long⟩
  have short : context.wholeSize ≤ 1024 := Nat.not_lt.mp long
  rcases fits_or_misfit context .indent with levels | ⟨reason, misfit⟩
  · rcases fits_or_misfit context .bracket with enclosures | ⟨reason, misfit⟩
    · rcases fits_or_misfit context .ternary with ternaries | ⟨reason, misfit⟩
      · apply Or.inl
        intro name
        cases name with
        | indent => exact levels
        | bracket => exact enclosures
        | ternary => exact ternaries
      · have earlier : ∀ earlier ∈ StackName.before .ternary, context.StackFits earlier :=
          List.forall_mem_cons.mpr ⟨levels, List.forall_mem_singleton.mpr enclosures⟩
        exact .inr ⟨reason, .stack short earlier misfit⟩
    · have earlier : ∀ earlier ∈ StackName.before .bracket, context.StackFits earlier :=
        List.forall_mem_singleton.mpr levels
      exact .inr ⟨reason, .stack short earlier misfit⟩
  · exact .inr ⟨reason, .stack short (List.forall_mem_nil _) misfit⟩

theorem encode_eq_error_iff : context.encode = .error reason ↔ context.Obstacle reason := by
  constructor
  · intro failed
    rcases fits_or_obstacle context with fits | ⟨other, obstacle⟩
    · rw [encode_of_storable (storable_iff.mpr fits)] at failed
      contradiction
    · rw [encode_of_obstacle obstacle, Except.error.injEq] at failed
      exact failed ▸ obstacle
  · exact encode_of_obstacle

/-- A value that is complained about is an entry of the stack that is named. -/
theorem encode_eq_tooWide {value : Nat}
    (failed : context.encode = .error (.tooWide name value)) :
    value ∈ context.codes name ∧ 255 < value := by
  have obstacle := encode_eq_error_iff.mp failed
  cases obstacle with
  | stack _ _ misfit =>
      cases misfit with
      | wide _ found =>
          have wide : 255 < value := by simpa using List.find?_some found
          exact ⟨List.mem_of_find?_eq_some found, wide⟩

/-! ## The bytes as numbers -/

theorem toNat_block {entries : List Nat} (few : entries.length < 255)
    (narrow : ∀ value ∈ entries, value ≤ 255) :
    (Stored.block (entries.map UInt8.ofNat)).map UInt8.toNat =
      (entries.length + 1) :: entries := by
  have size := @Stored.toNat_size (entries.map UInt8.ofNat)
  rw [List.length_map] at size
  rw [Stored.block, List.map_cons, List.length_map, size few, toNat_ofNat_map narrow]

theorem numbers_eq (context : Context) :
    context.numbers =
      (context.stackSize .indent :: context.codes .indent) ++
        (context.stackSize .bracket :: context.codes .bracket) ++
          (context.stackSize .ternary :: context.codes .ternary) ++ [context.pending.toNat] := by
  simp [numbers, StackName.all]

theorem toNat_bytes_stored (storable : context.Storable) :
    context.stored.bytes.map UInt8.toNat = context.numbers := by
  have block (name : StackName) :
      (Stored.block ((context.codes name).map UInt8.ofNat)).map UInt8.toNat =
        context.stackSize name :: context.codes name := by
    rw [stackSize_eq]
    exact toNat_block (storable name).1 (storable name).2
  have flag : [context.stored.flag].map UInt8.toNat = [context.pending.toNat] := by
    rw [stored]
    cases context.pending <;> rfl
  rw [numbers_eq, ← block .indent, ← block .bracket, ← block .ternary, ← flag]
  simp only [Stored.bytes, stored, List.map_append]

theorem storable_of_numbers (narrow : ∀ value ∈ context.numbers, value ≤ 255) :
    context.Storable := by
  apply storable_iff.mpr
  intro name
  have within : ∀ value ∈ context.stackSize name :: context.codes name, value ≤ 255 := by
    intro value member
    apply narrow
    rw [numbers_eq]
    cases name <;> simp only [List.mem_append, member, true_or, or_true]
  exact ⟨within _ List.mem_cons_self, fun value member =>
    within value (List.mem_cons_of_mem _ member)⟩

theorem encode_eq_ok_iff :
    context.encode = .ok bytes ↔ bytes.map UInt8.toNat = context.numbers := by
  constructor
  · intro written
    obtain ⟨storable, rfl⟩ := encode_eq_ok written
    exact toNat_bytes_stored storable
  · intro same
    have storable : context.Storable := by
      apply storable_of_numbers
      rw [← same]
      exact toNat_map_le bytes
    rw [← toNat_bytes_stored storable] at same
    have equal := congrArg (List.map UInt8.ofNat) same
    rw [ofNat_toNat_map, ofNat_toNat_map] at equal
    rw [equal]
    exact encode_of_storable storable

/-- A context is stored exactly if each stack has at most 255 entries, its bottom included,
and none of them is above 255; the limit of the whole is then far.  Otherwise it is not, and
the first thing in the way is named.  Whatever is stored is the sizes and the entries, each
in a byte of its own. -/
theorem encode_obstacle (context : Context) :
    ((∃ bytes, context.encode = .ok bytes) ↔ ∀ name, context.StackFits name) ∧
      ((∀ name, context.StackFits name) → context.wholeSize ≤ 1024) ∧
      (∀ reason, context.encode = .error reason ↔ context.Obstacle reason) ∧
      ∀ bytes, context.encode = .ok bytes ↔ bytes.map UInt8.toNat = context.numbers := by
  refine ⟨exists_encode_iff.trans storable_iff, fun fits => ?_, fun _ => encode_eq_error_iff,
    fun _ => encode_eq_ok_iff⟩
  have size := encodedSize_le (storable_iff.mpr fits)
  rw [← wholeSize_eq] at size
  omega

/-- Of two levels that are too wide and too many brackets the lower level is named, unless
the brackets alone are too many for the whole, and levels up to 255 are stored as they are. -/
theorem encode_obstacle_levels :
    let context : Context :=
      { levels := ⟨[300, 256, 2]⟩, enclosures := ⟨List.replicate 300 '('⟩ }
    let long : Context := { levels := ⟨[300]⟩, enclosures := ⟨List.replicate 1020 '('⟩ }
    let narrow : Context := { levels := ⟨[255, 2]⟩, pending := true }
    context.encode = .error (.tooWide .indent 256) ∧ (¬ ∀ name, context.StackFits name) ∧
      long.encode = .error (.tooLong 1025) ∧
      narrow.encode = .ok [3, 2, 255, 1, 1, 1] ∧ (∀ name, narrow.StackFits name) ∧
      narrow.wholeSize ≤ 1024 := by
  intro context long narrow
  obtain ⟨fits, _, fails, _⟩ := encode_obstacle context
  obtain ⟨_, _, failsLong, _⟩ := encode_obstacle long
  obtain ⟨fitsNarrow, short, _, numbers⟩ := encode_obstacle narrow
  have misfit : context.Misfit .indent (.tooWide .indent 256) := .wide (by decide) (by decide)
  have within : context.wholeSize ≤ 1024 := by decide +kernel
  have failed := (fails _).mpr (.stack within (List.forall_mem_nil _) misfit)
  have size : long.wholeSize = 1025 := by decide +kernel
  have tooLong : long.Obstacle (.tooLong 1025) := by
    rw [← size]
    exact .whole (by omega)
  have written := (numbers [3, 2, 255, 1, 1, 1]).mpr (by decide)
  refine ⟨failed, fun all => ?_, (failsLong _).mpr tooLong, written,
    fitsNarrow.mp ⟨_, written⟩, ?_⟩
  · obtain ⟨bytes, stored⟩ := fits.mpr all
    cases failed.symm.trans stored
  · exact short (fitsNarrow.mp ⟨_, written⟩)

end PugTokens.Context
