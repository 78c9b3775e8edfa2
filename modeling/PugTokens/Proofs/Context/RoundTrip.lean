import PugTokens.Context.Format

namespace PugTokens.Context

/-! # Stored contexts are read back

Writing succeeds only if every size and every entry fits in a byte, and then it
writes what the format says: nothing is cut off, and so nothing is lost when the
bytes are read.
-/

variable {context : Context} {bytes : List UInt8}

/-- What a context is stored as, if everything fits. -/
def stored (context : Context) : Stored where
  levels := (context.codes .indent).map UInt8.ofNat
  enclosures := (context.codes .bracket).map UInt8.ofNat
  ternaries := (context.codes .ternary).map UInt8.ofNat
  flag := if context.pending then 1 else 0

theorem encodeEntries_eq_ok {stack : StackName} {entries : List Nat}
    (written : encodeEntries stack entries = .ok bytes) :
    (∀ value ∈ entries, value ≤ 255) ∧ bytes = entries.map UInt8.ofNat := by
  induction entries generalizing bytes with
  | nil =>
      simp only [encodeEntries, Except.ok.injEq] at written
      exact ⟨by simp, written.symm⟩
  | cons value rest induction =>
      simp only [encodeEntries] at written
      split at written
      · contradiction
      · next narrow =>
          cases remaining : encodeEntries stack rest with
          | error reason => simp [remaining, Except.map] at written
          | ok tail =>
              simp only [remaining, Except.map, Except.ok.injEq] at written
              obtain ⟨bounded, same⟩ := induction remaining
              subst same
              refine ⟨?_, written.symm⟩
              intro other member
              rcases List.mem_cons.mp member with rfl | later
              · exact Nat.le_of_not_lt narrow
              · exact bounded other later

theorem encodeBlock_eq_ok {stack : StackName} {entries : List Nat}
    (written : encodeBlock stack entries = .ok bytes) :
    (entries.length < 255 ∧ ∀ value ∈ entries, value ≤ 255) ∧
      bytes = Stored.block (entries.map UInt8.ofNat) := by
  unfold encodeBlock at written
  split at written
  · contradiction
  · next shallow =>
      cases inside : encodeEntries stack entries with
      | error reason => simp [inside, Except.map] at written
      | ok tail =>
          simp only [inside, Except.map, Except.ok.injEq] at written
          obtain ⟨bounded, same⟩ := encodeEntries_eq_ok inside
          refine ⟨⟨by omega, bounded⟩, ?_⟩
          rw [← written, same, Stored.block, List.length_map]

theorem encode_eq_ok (written : context.encode = .ok bytes) :
    context.Storable ∧ bytes = context.stored.bytes := by
  by_cases long : byteLimit < context.encodedSize
  · simp [encode, long, throw, throwThe, MonadExceptOf.throw, bind, Except.bind] at written
  · simp only [encode, if_neg long, bind, Except.bind] at written
    cases first : encodeBlock .indent context.levels.entries with
    | error reason => simp [first] at written
    | ok levels =>
        cases second : encodeBlock .bracket (context.enclosures.entries.map Char.toNat) with
        | error reason => simp [first, second] at written
        | ok enclosures =>
            cases third : encodeBlock .ternary context.ternaries.entries with
            | error reason => simp [first, second, third] at written
            | ok ternaries =>
                simp only [first, second, third, pure, Except.pure, Except.ok.injEq] at written
                obtain ⟨levelsFit, sameLevels⟩ := encodeBlock_eq_ok first
                obtain ⟨enclosuresFit, sameEnclosures⟩ := encodeBlock_eq_ok second
                obtain ⟨ternariesFit, sameTernaries⟩ := encodeBlock_eq_ok third
                refine ⟨?_, ?_⟩
                · intro name
                  cases name with
                  | indent => exact levelsFit
                  | bracket => exact enclosuresFit
                  | ternary => exact ternariesFit
                · rw [← written, sameLevels, sameEnclosures, sameTernaries]
                  rfl

theorem encodeEntries_of_le {stack : StackName} {entries : List Nat}
    (bounded : ∀ value ∈ entries, value ≤ 255) :
    encodeEntries stack entries = .ok (entries.map UInt8.ofNat) := by
  induction entries with
  | nil => rfl
  | cons value rest induction =>
      have narrow : ¬ 255 < value := Nat.not_lt.mpr (bounded value List.mem_cons_self)
      have later := induction fun other member => bounded other (List.mem_cons_of_mem value member)
      simp only [encodeEntries, if_neg narrow, later, Except.map, List.map_cons]

theorem encodeBlock_of_le {stack : StackName} {entries : List Nat}
    (shallow : entries.length < 255) (bounded : ∀ value ∈ entries, value ≤ 255) :
    encodeBlock stack entries = .ok (Stored.block (entries.map UInt8.ofNat)) := by
  have fits : ¬ 255 < entries.length + 1 := by omega
  simp only [encodeBlock, if_neg fits, encodeEntries_of_le bounded, Except.map, Stored.block,
    List.length_map]

/-- Where every size and every entry fits in a byte, the whole is never too long. -/
theorem encodedSize_le (storable : context.Storable) : context.encodedSize ≤ 766 := by
  have levels := (storable .indent).1
  have enclosures := (storable .bracket).1
  have ternaries := (storable .ternary).1
  simp only [codes, Stack.entries, List.length_map, List.length_reverse] at levels enclosures ternaries
  simp only [encodedSize, Stack.size]
  omega

theorem encode_of_storable (storable : context.Storable) :
    context.encode = .ok context.stored.bytes := by
  have size := encodedSize_le storable
  have short : ¬ byteLimit < context.encodedSize := by
    unfold byteLimit
    omega
  have levels : encodeBlock .indent context.levels.entries = _ :=
    encodeBlock_of_le (storable .indent).1 (storable .indent).2
  have enclosures : encodeBlock .bracket (context.enclosures.entries.map Char.toNat) = _ :=
    encodeBlock_of_le (storable .bracket).1 (storable .bracket).2
  have ternaries : encodeBlock .ternary context.ternaries.entries = _ :=
    encodeBlock_of_le (storable .ternary).1 (storable .ternary).2
  simp only [encode, if_neg short, levels, enclosures, ternaries, bind, Except.bind]
  rfl

/-- A context can be stored exactly if every size and every entry fits. -/
theorem exists_encode_iff : (∃ bytes, context.encode = .ok bytes) ↔ context.Storable :=
  ⟨fun ⟨_, written⟩ => (encode_eq_ok written).1, fun storable => ⟨_, encode_of_storable storable⟩⟩

theorem fits_stored (storable : context.Storable) : context.stored.Fits := by
  simp only [Stored.Fits, stored, List.length_map]
  exact ⟨(storable .indent).1, (storable .bracket).1, (storable .ternary).1⟩

theorem toNat_ofNat_map {values : List Nat} (bounded : ∀ value ∈ values, value ≤ 255) :
    (values.map UInt8.ofNat).map UInt8.toNat = values := by
  rw [List.map_map]
  refine (List.map_congr_left ?_).trans (List.map_id values)
  intro value member
  have small := bounded value member
  simp only [Function.comp_apply, UInt8.toNat_ofNat', id_eq]
  omega

theorem toNat_map_le (entries : List UInt8) : ∀ value ∈ entries.map UInt8.toNat, value ≤ 255 := by
  intro value member
  obtain ⟨byte, _, rfl⟩ := List.mem_map.mp member
  have small := byte.toNat_lt
  omega

theorem ofNat_toNat_map (entries : List UInt8) :
    (entries.map UInt8.toNat).map UInt8.ofNat = entries := by
  rw [List.map_map]
  exact (List.map_congr_left fun byte _ => UInt8.ofNat_toNat).trans (List.map_id entries)

theorem context_stored (storable : context.Storable) : context.stored.context = context := by
  have enclosures : (context.stored.enclosures.map fun byte => Char.ofNat byte.toNat) =
      context.enclosures.entries := by
    have numbers := toNat_ofNat_map (storable .bracket).2
    have through : (context.stored.enclosures.map fun byte => Char.ofNat byte.toNat) =
        (context.stored.enclosures.map UInt8.toNat).map Char.ofNat := by
      rw [List.map_map]
      rfl
    rw [through]
    refine (congrArg (List.map Char.ofNat) numbers).trans ?_
    simp only [codes, List.map_map]
    exact (List.map_congr_left fun c _ => Char.ofNat_toNat c).trans (List.map_id _)
  have levels : context.stored.levels.map UInt8.toNat = context.levels.entries :=
    toNat_ofNat_map (storable .indent).2
  have ternaries : context.stored.ternaries.map UInt8.toNat = context.ternaries.entries :=
    toNat_ofNat_map (storable .ternary).2
  have flag : (context.stored.flag != 0) = context.pending := by
    unfold stored
    cases context.pending <;> rfl
  unfold Stored.context
  rw [levels, enclosures, ternaries, flag]
  simp only [Stack.ofEntries_entries]

/-- What was written is read back, whatever bytes follow. -/
theorem decode_encode (written : context.encode = .ok bytes) (rest : List UInt8) :
    decode (bytes ++ rest) = .ok context := by
  obtain ⟨storable, same⟩ := encode_eq_ok written
  rw [same, Stored.decode_bytes (fits_stored storable), context_stored storable]

end PugTokens.Context
