namespace PugTokens

/-! # Byte offsets into a text

A text is a list of characters, and a place in it is counted in the bytes of
its UTF-8 form.  Not every number is such a place: it may lie inside a
character or past the end.  `dropBytes` and `takeBytes` cut a text at an offset
and refuse those; `dropBytes_eq_ok_iff` says that they accept exactly the
lengths of what can come before.
-/

/-- Why a part of a text cannot be given. -/
inductive TextError
  /-- The offset lies inside a character or past the end. -/
  | notAPlace (offset : Nat)
  /-- The part would end before it starts. -/
  | reversed (start stop : Nat)
  deriving DecidableEq, Repr

namespace Text

def byteSize : List Char → Nat
  | [] => 0
  | c :: rest => c.utf8Size + byteSize rest

/-- What follows the first `offset` bytes. -/
def dropBytes (offset : Nat) : List Char → Except TextError (List Char)
  | [] => if offset = 0 then .ok [] else .error (.notAPlace offset)
  | c :: rest =>
      if offset = 0 then .ok (c :: rest)
      else if offset < c.utf8Size then .error (.notAPlace offset)
      else dropBytes (offset - c.utf8Size) rest

/-- The first `offset` bytes. -/
def takeBytes (offset : Nat) : List Char → Except TextError (List Char)
  | [] => if offset = 0 then .ok [] else .error (.notAPlace offset)
  | c :: rest =>
      if offset = 0 then .ok []
      else if offset < c.utf8Size then .error (.notAPlace offset)
      else (takeBytes (offset - c.utf8Size) rest).map (c :: ·)

def slice (text : List Char) (start stop : Nat) : Except TextError (List Char) :=
  if stop < start then .error (.reversed start stop)
  else do takeBytes (stop - start) (← dropBytes start text)

@[simp] theorem byteSize_nil : byteSize [] = 0 := rfl

@[simp] theorem byteSize_cons (c : Char) (rest : List Char) :
    byteSize (c :: rest) = c.utf8Size + byteSize rest := rfl

@[simp] theorem byteSize_append (left right : List Char) :
    byteSize (left ++ right) = byteSize left + byteSize right := by
  induction left with
  | nil => simp
  | cons c left induction => simp [induction, Nat.add_assoc]

theorem length_le_byteSize (text : List Char) : text.length ≤ byteSize text := by
  induction text with
  | nil => exact Nat.le_refl 0
  | cons c text induction =>
      have positive := c.utf8Size_pos
      rw [List.length_cons, byteSize_cons]
      omega

@[simp] theorem dropBytes_zero (text : List Char) : dropBytes 0 text = .ok text := by
  cases text <;> rfl

@[simp] theorem takeBytes_zero (text : List Char) : takeBytes 0 text = .ok [] := by
  cases text <;> rfl

theorem dropBytes_append (before rest : List Char) :
    dropBytes (byteSize before) (before ++ rest) = .ok rest := by
  induction before with
  | nil => simp
  | cons c before induction =>
      have positive := c.utf8Size_pos
      have nonzero : ¬ c.utf8Size + byteSize before = 0 := by omega
      have whole : ¬ c.utf8Size + byteSize before < c.utf8Size := by omega
      simp only [byteSize_cons, List.cons_append, dropBytes, if_neg nonzero,
        if_neg whole, Nat.add_sub_cancel_left, induction]

theorem takeBytes_append (before rest : List Char) :
    takeBytes (byteSize before) (before ++ rest) = .ok before := by
  induction before with
  | nil => simp
  | cons c before induction =>
      have positive := c.utf8Size_pos
      have nonzero : ¬ c.utf8Size + byteSize before = 0 := by omega
      have whole : ¬ c.utf8Size + byteSize before < c.utf8Size := by omega
      simp only [byteSize_cons, List.cons_append, takeBytes, if_neg nonzero,
        if_neg whole, Nat.add_sub_cancel_left, induction, Except.map]

theorem slice_append (before middle rest : List Char) :
    slice (before ++ middle ++ rest) (byteSize before) (byteSize (before ++ middle)) =
      .ok middle := by
  have forward : ¬ byteSize before + byteSize middle < byteSize before := by omega
  have width : byteSize before + byteSize middle - byteSize before = byteSize middle := by
    omega
  simp only [slice, byteSize_append, if_neg forward, width, List.append_assoc,
    dropBytes_append]
  exact takeBytes_append middle rest

/-- An offset is accepted exactly if it is the length of what comes before. -/
theorem dropBytes_eq_ok_iff {offset : Nat} {text rest : List Char} :
    dropBytes offset text = .ok rest ↔
      ∃ before, text = before ++ rest ∧ offset = byteSize before := by
  refine ⟨fun dropped => ?_, fun ⟨before, split, length⟩ => ?_⟩
  · induction text generalizing offset with
    | nil =>
        simp only [dropBytes] at dropped
        split at dropped
        · exact ⟨[], by simpa using dropped, by simpa⟩
        · contradiction
    | cons c text induction =>
        simp only [dropBytes] at dropped
        split at dropped
        · exact ⟨[], by simpa using dropped, by simpa⟩
        · split at dropped
          · contradiction
          · obtain ⟨before, split, length⟩ := induction dropped
            refine ⟨c :: before, by simp [split], ?_⟩
            rw [byteSize_cons]
            omega
  · rw [split, length]
    exact dropBytes_append before rest

end Text

end PugTokens
