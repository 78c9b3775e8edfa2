import PugTokens.Proofs.Context.RoundTrip

namespace PugTokens.Context

/-! # Stored contexts form a prefix code

A stored context says itself where it ends.  Bytes that follow are not looked
at, and bytes that are missing are missed: whatever the cut, a block, an entry or
the flag is found to be incomplete at the end of what is there
(`load_encoded`).
-/

variable {context : Context} {stored : Stored} {bytes front back tail : List UInt8}

/-- Of a block that was cut off somewhere the reader finds either all entries, or
that there are too few. -/
theorem decodeBlock_part (total : Nat) (name : StackName) {entries : List UInt8}
    (fits : entries.length < 255) (split : front ++ back = Stored.block entries ++ tail) :
    decodeBlock total name front = .error (.truncated total) ∨
      ∃ left, decodeBlock total name front = .ok (entries, left) ∧ left ++ back = tail := by
  cases front with
  | nil => exact .inl rfl
  | cons size present =>
      simp only [Stored.block, List.cons_append, List.cons.injEq] at split
      obtain ⟨rfl, split⟩ := split
      simp only [decodeBlock, if_neg (Stored.size_ne_zero fits), Stored.toNat_size fits,
        Nat.add_sub_cancel]
      by_cases short : present.length < entries.length
      · exact .inl (if_pos short)
      · have enough : entries.length ≤ present.length := by omega
        have taken := congrArg (List.take entries.length) split
        have dropped := congrArg (List.drop entries.length) split
        rw [List.take_append_of_le_length enough, List.take_left] at taken
        rw [List.drop_append_of_le_length enough, List.drop_left] at dropped
        exact .inr ⟨_, by rw [if_neg short, taken], dropped⟩

/-- Where bytes are missing at the end, the end is what is complained about. -/
theorem decode_part (fits : stored.Fits) (split : stored.bytes = front ++ back)
    (begun : front ≠ []) (cut : back ≠ []) :
    decode front = .error (.truncated front.length) := by
  obtain ⟨levels, enclosures, ternaries⟩ := fits
  have filled : front.isEmpty = false := by simpa using begun
  simp only [Stored.bytes, List.append_assoc] at split
  unfold decode
  rw [filled]
  rcases decodeBlock_part front.length .indent levels split.symm with
    missed | ⟨first, read, splitFirst⟩
  · simp [missed, bind, Except.bind]
  rcases decodeBlock_part front.length .bracket enclosures splitFirst with
    missed | ⟨second, readSecond, splitSecond⟩
  · simp [read, missed, bind, Except.bind]
  rcases decodeBlock_part front.length .ternary ternaries splitSecond with
    missed | ⟨third, readThird, splitThird⟩
  · simp [read, readSecond, missed, bind, Except.bind]
  cases third with
  | nil => simp [read, readSecond, readThird, decodePending, bind, Except.bind]
  | cons flag beyond =>
      have length := congrArg List.length splitThird
      have missing := List.length_pos_iff.mpr cut
      simp only [List.cons_append, List.length_cons, List.length_append, List.length_nil] at length
      omega

theorem length_bytes (stored : Stored) :
    stored.bytes.length = stored.levels.length + stored.enclosures.length +
      stored.ternaries.length + 4 := by
  simp only [Stored.bytes, Stored.block, List.length_append, List.length_cons, List.length_nil]
  omega

theorem size_eq_length_entries {α : Type} {bottom : α} (stack : Stack bottom) :
    stack.size = stack.entries.length + 1 := by
  simp [Stack.size, Stack.entries]

theorem length_stored (context : Context) :
    context.stored.bytes.length = context.encodedSize := by
  rw [length_bytes]
  simp only [Context.stored, codes, List.length_map, encodedSize, size_eq_length_entries]
  omega

theorem load_of_decode (previous : Context) (read : decode bytes = .ok context) :
    previous.load bytes = (.ok (), context) := by
  rw [load, read]

theorem load_of_error {reason : DecodeError} (previous : Context)
    (failed : decode bytes = .error reason) :
    previous.load bytes = (.error reason, previous) := by
  rw [load, failed]

/-- A context that can be stored takes as many bytes as foretold, at most 766.  In
place of any other context it is loaded from them again, whatever follows, while
no part from their beginning loads anything: all that can be told of it is where it
ends. -/
theorem load_encoded (written : context.encode = .ok bytes) :
    bytes.length = context.encodedSize ∧ bytes.length ≤ 766 ∧
      (∀ (previous : Context) (rest : List UInt8),
        previous.load (bytes ++ rest) = (.ok (), context)) ∧
      ∀ (previous : Context) (front back : List UInt8),
        bytes = front ++ back → front ≠ [] → back ≠ [] →
          previous.load front = (.error (.truncated front.length), previous) := by
  obtain ⟨storable, same⟩ := encode_eq_ok written
  have fits := fits_stored storable
  refine ⟨?_, ?_, ?_, ?_⟩
  · rw [same, length_stored]
  · obtain ⟨levels, enclosures, ternaries⟩ := fits
    rw [same, length_bytes]
    omega
  · intro previous rest
    exact load_of_decode previous (decode_encode written rest)
  · intro previous front back split begun cut
    rw [same] at split
    exact load_of_error previous (decode_part fits split begun cut)

/-- Two levels, an open bracket in which a quote is open, and an operand that is
awaited: cut in the middle of the second block nothing is loaded. -/
theorem load_encoded_brackets :
    let context : Context :=
      { levels := ⟨[4, 2]⟩, enclosures := ⟨['\x27', '(']⟩, ternaries := ⟨[1]⟩, pending := true }
    let bytes : List UInt8 := [3, 2, 4, 3, 40, 39, 2, 1, 1]
    context.encode = .ok bytes ∧ bytes.length = context.encodedSize ∧
      Context.initial.load (bytes ++ [7]) = (.ok (), context) ∧
      Context.initial.load [3, 2, 4, 3, 40] = (.error (.truncated 5), .initial) := by
  intro context bytes
  have written : context.encode = .ok bytes := rfl
  obtain ⟨length, _, whole, part⟩ := load_encoded written
  exact ⟨written, length, whole .initial [7],
    part .initial [3, 2, 4, 3, 40] [39, 2, 1, 1] rfl (by decide) (by decide)⟩

end PugTokens.Context
