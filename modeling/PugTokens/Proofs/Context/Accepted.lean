import PugTokens.Proofs.Context.Prefixes

namespace PugTokens.Context

/-! # Which byte strings can be loaded

The sizes in a byte string say where its blocks begin, so what is wrong with one is
found where it is met: a size of 0 at the place of a stack, or an end in front of what is
still to come.  A byte string with neither begins with a stored context, and storing that
again gives back what was read, with the flag as it is written (`load_format`).
-/

variable {bytes : List UInt8} {stored : Stored}

/-! ## One block after the other -/

/-- At the beginning of some bytes is a block, or a size of 0, or too little. -/
theorem decodeBlock_cases (total : Nat) (name : StackName) (bytes : List UInt8) :
    (∃ entries rest, entries.length < 255 ∧ bytes = Stored.block entries ++ rest) ∨
      (∃ rest, bytes = 0 :: rest) ∨
      decodeBlock total name bytes = .error (.truncated total) := by
  cases bytes with
  | nil => exact .inr (.inr rfl)
  | cons size present =>
      by_cases zero : size = 0
      · exact .inr (.inl ⟨present, by rw [zero]⟩)
      · by_cases short : present.length < size.toNat - 1
        · refine .inr (.inr ?_)
          rw [decodeBlock, if_neg zero, if_pos short]
        · have small := size.toNat_lt
          have positive : size.toNat ≠ 0 := fun none => zero (UInt8.toNat_inj.mp none)
          have length : (present.take (size.toNat - 1)).length + 1 = size.toNat := by
            rw [List.length_take]
            omega
          refine .inl ⟨present.take (size.toNat - 1), present.drop (size.toNat - 1), ?_, ?_⟩
          · omega
          · rw [Stored.block, length, UInt8.ofNat_toNat, List.cons_append,
              List.take_append_drop]

theorem decodeBlock_zero (total : Nat) (name : StackName) (rest : List UInt8) :
    decodeBlock total name (0 :: rest) = .error (.emptyStack name) := rfl

theorem isEmpty_block_append (entries rest : List UInt8) :
    (Stored.block entries ++ rest).isEmpty = false := rfl

/-! ## Whole byte strings -/

/-- Behind the blocks of a stored context there is a flag or nothing; what goes wrong
before is said where it is met. -/
theorem decode_cases (bytes : List UInt8) :
    bytes = [] ∨ (∃ stored : Stored, stored.Begins bytes) ∨
      (∃ name, Bottomless name bytes) ∨ decode bytes = .error (.truncated bytes.length) := by
  by_cases empty : bytes = []
  · exact .inl empty
  have filled : bytes.isEmpty = false := by simpa using empty
  generalize total : bytes.length = length
  rcases decodeBlock_cases length .indent bytes with
    ⟨levels, rest, levelsFit, rfl⟩ | ⟨rest, rfl⟩ | short
  · rcases decodeBlock_cases length .bracket rest with
      ⟨enclosures, rest, enclosuresFit, rfl⟩ | ⟨rest, rfl⟩ | short
    · rcases decodeBlock_cases length .ternary rest with
        ⟨ternaries, rest, ternariesFit, rfl⟩ | ⟨rest, rfl⟩ | short
      · cases rest with
        | nil =>
            refine .inr (.inr (.inr ?_))
            simp only [decode, filled, total, Stored.decodeBlock_block _ _ levelsFit,
              Stored.decodeBlock_block _ _ enclosuresFit,
              Stored.decodeBlock_block _ _ ternariesFit, decodePending, bind, Except.bind,
              Bool.false_eq_true, if_false]
        | cons flag rest =>
            refine .inr (.inl ⟨⟨levels, enclosures, ternaries, flag⟩, ?_, rest, ?_⟩)
            · exact ⟨levelsFit, enclosuresFit, ternariesFit⟩
            · simp only [Stored.bytes, List.append_assoc, List.singleton_append]
      · exact .inr (.inr (.inl ⟨.ternary, .ternary rest levelsFit enclosuresFit⟩))
      · refine .inr (.inr (.inr ?_))
        simp only [decode, filled, total, Stored.decodeBlock_block _ _ levelsFit,
          Stored.decodeBlock_block _ _ enclosuresFit, short, bind, Except.bind,
          Bool.false_eq_true, if_false]
    · exact .inr (.inr (.inl ⟨.bracket, .bracket rest levelsFit⟩))
    · refine .inr (.inr (.inr ?_))
      simp only [decode, filled, total, Stored.decodeBlock_block _ _ levelsFit, short, bind,
        Except.bind, Bool.false_eq_true, if_false]
  · exact .inr (.inr (.inl ⟨.indent, .indent rest⟩))
  · refine .inr (.inr (.inr ?_))
    simp only [decode, filled, total, short, bind, Except.bind, Bool.false_eq_true, if_false]

theorem decode_bottomless {name : StackName} (bottomless : Bottomless name bytes) :
    decode bytes = .error (.emptyStack name) := by
  cases bottomless with
  | indent rest => rfl
  | bracket rest levels =>
      simp only [decode, isEmpty_block_append, Stored.decodeBlock_block _ _ levels,
        decodeBlock_zero, bind, Except.bind, Bool.false_eq_true, if_false]
  | ternary rest levels enclosures =>
      simp only [decode, isEmpty_block_append, Stored.decodeBlock_block _ _ levels,
        Stored.decodeBlock_block _ _ enclosures, decodeBlock_zero, bind, Except.bind,
        Bool.false_eq_true, if_false]

theorem decode_begins (begins : stored.Begins bytes) : decode bytes = .ok stored.context := by
  obtain ⟨fits, rest, rfl⟩ := begins
  exact Stored.decode_bytes fits rest

theorem exists_decode_iff :
    (∃ context, decode bytes = .ok context) ↔
      bytes = [] ∨ ∃ stored : Stored, stored.Begins bytes := by
  constructor
  · rintro ⟨context, read⟩
    rcases decode_cases bytes with empty | begins | ⟨name, bottomless⟩ | short
    · exact .inl empty
    · exact .inr begins
    · rw [decode_bottomless bottomless] at read
      contradiction
    · rw [short] at read
      contradiction
  · rintro (rfl | ⟨stored, begins⟩)
    · exact ⟨.initial, rfl⟩
    · exact ⟨stored.context, decode_begins begins⟩

/-- Whatever is loaded comes from a byte string that fits. -/
theorem decode_eq_ok {context : Context} (read : decode bytes = .ok context) :
    context = .initial ∨ ∃ stored : Stored, stored.Fits ∧ context = stored.context := by
  rcases exists_decode_iff.mp ⟨context, read⟩ with rfl | ⟨stored, begins⟩
  · exact .inl (Except.ok.inj read).symm
  · rw [decode_begins begins, Except.ok.injEq] at read
    exact .inr ⟨stored, begins.1, read.symm⟩

theorem decode_eq_emptyStack_iff {name : StackName} :
    decode bytes = .error (.emptyStack name) ↔ Bottomless name bytes := by
  refine ⟨fun failed => ?_, decode_bottomless⟩
  rcases decode_cases bytes with rfl | ⟨stored, begins⟩ | ⟨other, bottomless⟩ | short
  · contradiction
  · rw [decode_begins begins] at failed
    contradiction
  · rw [decode_bottomless bottomless, Except.error.injEq, DecodeError.emptyStack.injEq] at failed
    exact failed ▸ bottomless
  · rw [short, Except.error.injEq] at failed
    contradiction

theorem decode_eq_truncated_iff {offset : Nat} :
    decode bytes = .error (.truncated offset) ↔
      offset = bytes.length ∧ bytes ≠ [] ∧ (∀ stored : Stored, ¬ stored.Begins bytes) ∧
        ∀ name, ¬ Bottomless name bytes := by
  constructor
  · intro failed
    refine ⟨?_, ?_, fun stored begins => ?_, fun name bottomless => ?_⟩
    · rcases decode_cases bytes with rfl | ⟨stored, begins⟩ | ⟨name, bottomless⟩ | short
      · contradiction
      · rw [decode_begins begins] at failed
        contradiction
      · rw [decode_bottomless bottomless, Except.error.injEq] at failed
        contradiction
      · rw [short, Except.error.injEq, DecodeError.truncated.injEq] at failed
        exact failed.symm
    · rintro rfl
      contradiction
    · rw [decode_begins begins] at failed
      contradiction
    · rw [decode_bottomless bottomless, Except.error.injEq] at failed
      contradiction
  · rintro ⟨rfl, filled, unstored, bottoms⟩
    rcases decode_cases bytes with empty | ⟨stored, begins⟩ | ⟨name, bottomless⟩ | short
    · exact absurd empty filled
    · exact absurd begins (unstored stored)
    · exact absurd bottomless (bottoms name)
    · exact short

theorem load_eq_ok_iff {previous : Context} :
    (previous.load bytes).1 = .ok () ↔ ∃ context, decode bytes = .ok context := by
  unfold load
  cases decode bytes <;> simp

theorem load_eq_error_iff {previous : Context} {reason : DecodeError} :
    (previous.load bytes).1 = .error reason ↔ decode bytes = .error reason := by
  unfold load
  cases decode bytes <;> simp

/-! ## Storing again -/

theorem codes_context (stored : Stored) :
    stored.context.codes .indent = stored.levels.map UInt8.toNat ∧
      stored.context.codes .bracket = stored.enclosures.map UInt8.toNat ∧
      stored.context.codes .ternary = stored.ternaries.map UInt8.toNat := by
  simp [codes, Stored.context, toNat_ofNat_byte]

theorem storable_context (fits : stored.Fits) : stored.context.Storable := by
  obtain ⟨indent, bracket, ternary⟩ := codes_context stored
  intro name
  cases name with
  | indent =>
      rw [indent, List.length_map]
      exact ⟨fits.1, toNat_map_le stored.levels⟩
  | bracket =>
      rw [bracket, List.length_map]
      exact ⟨fits.2.1, toNat_map_le stored.enclosures⟩
  | ternary =>
      rw [ternary, List.length_map]
      exact ⟨fits.2.2, toNat_map_le stored.ternaries⟩

/-- What is stored of a context that was read is what was read, but for the flag. -/
theorem stored_context (stored : Stored) : stored.context.stored = stored.canonical := by
  obtain ⟨indent, bracket, ternary⟩ := codes_context stored
  have flag : (if stored.context.pending then (1 : UInt8) else 0) =
      if stored.flag = 0 then 0 else 1 := by
    by_cases zero : stored.flag = 0 <;> simp [Stored.context, zero]
  unfold Context.stored Stored.canonical
  rw [indent, bracket, ternary, flag, ofNat_toNat_map, ofNat_toNat_map, ofNat_toNat_map]

theorem encode_context (fits : stored.Fits) :
    stored.context.encode = .ok stored.canonical.bytes := by
  rw [encode_of_storable (storable_context fits), stored_context]

/-- Bytes are loaded exactly if there are none, which stands for the initial context, or
if a stored context comes first; that one can be stored again, in the same bytes but for
the flag.  Where a size of 0 is met the empty stack is named, and in all other cases the
bytes end too early.  A context in whose place nothing is loaded stays as it is. -/
theorem load_format (previous : Context) (bytes : List UInt8) :
    ((previous.load bytes).1 = .ok () ↔ bytes = [] ∨ ∃ stored : Stored, stored.Begins bytes) ∧
      (bytes = [] → (previous.load bytes).2 = .initial) ∧
      (∀ stored : Stored, stored.Begins bytes →
        (previous.load bytes).2 = stored.context ∧
          stored.context.encode = .ok stored.canonical.bytes) ∧
      (∀ name, (previous.load bytes).1 = .error (.emptyStack name) ↔ Bottomless name bytes) ∧
      (∀ offset, (previous.load bytes).1 = .error (.truncated offset) ↔
        offset = bytes.length ∧ bytes ≠ [] ∧ (∀ stored : Stored, ¬ stored.Begins bytes) ∧
          ∀ name, ¬ Bottomless name bytes) ∧
      ∀ reason, (previous.load bytes).1 = .error reason → (previous.load bytes).2 = previous := by
  refine ⟨load_eq_ok_iff.trans exists_decode_iff, ?_, fun stored begins => ?_, fun name => ?_,
    fun offset => ?_, fun reason failed => ?_⟩
  · rintro rfl
    rfl
  · rw [load_of_decode previous (decode_begins begins)]
    exact ⟨rfl, encode_context begins.1⟩
  · exact load_eq_error_iff.trans decode_eq_emptyStack_iff
  · exact load_eq_error_iff.trans decode_eq_truncated_iff
  · rw [load_of_error previous (load_eq_error_iff.mp failed)]

/-- Two levels, a bracket and a flag that is not 1 are loaded in front of a surplus byte
and stored with the flag 1, while a size of 0 at the place of the ternaries, or a flag that
is missing, leaves what was there. -/
theorem load_format_surplus :
    let stored : Context.Stored := ⟨[2, 4], [40], [], 7⟩
    let previous : Context := { levels := ⟨[3]⟩ }
    stored.Begins [3, 2, 4, 2, 40, 1, 7, 9] ∧
      (previous.load [3, 2, 4, 2, 40, 1, 7, 9]).2 = stored.context ∧
      stored.context.encode = .ok [3, 2, 4, 2, 40, 1, 1] ∧
      (previous.load [3, 2, 4, 2, 40, 0, 7]).1 = .error (.emptyStack .ternary) ∧
      (previous.load [3, 2, 4, 2, 40, 1]).1 = .error (.truncated 6) ∧
      (previous.load [3, 2, 4, 2, 40, 1]).2 = previous := by
  intro stored previous
  have begins : stored.Begins [3, 2, 4, 2, 40, 1, 7, 9] :=
    ⟨⟨by decide, by decide, by decide⟩, [9], rfl⟩
  obtain ⟨_, _, loads, _⟩ := load_format previous [3, 2, 4, 2, 40, 1, 7, 9]
  obtain ⟨_, _, _, empties, _⟩ := load_format previous [3, 2, 4, 2, 40, 0, 7]
  obtain ⟨_, _, _, _, _, keeps⟩ := load_format previous [3, 2, 4, 2, 40, 1]
  have bottomless : Bottomless .ternary [3, 2, 4, 2, 40, 0, 7] :=
    @Bottomless.ternary [2, 4] [40] [7] (by decide) (by decide)
  have short : (previous.load [3, 2, 4, 2, 40, 1]).1 = .error (.truncated 6) := rfl
  exact ⟨begins, (loads stored begins).1, (loads stored begins).2,
    (empties .ternary).mpr bottomless, short, keeps _ short⟩

end PugTokens.Context
