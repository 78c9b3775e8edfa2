import PugTokens.Text.Quoted

namespace PugTokens.Text

/-! # Quoted text stays within its field

Tabs and line breaks are escaped in a quoted text, and no escape has one of its own.
-/

/-- Characters of which none ends a field or a line. -/
def Inline (text : List Char) : Prop := ∀ c ∈ text, c ≠ '\t' ∧ c ≠ '\n'

instance (text : List Char) : Decidable (Inline text) :=
  List.decidableBAll (fun c => c ≠ '\t' ∧ c ≠ '\n') text

theorem inline_append {left right : List Char} :
    Inline (left ++ right) ↔ Inline left ∧ Inline right :=
  List.forall_mem_append

theorem inline_hexDigit : ∀ n < 16, Inline [hexDigit n] := by
  decide

theorem inline_hex (n : Nat) : Inline (hex n) := by
  induction n using hex.induct with
  | case1 n small =>
      rw [hex, if_pos small]
      exact inline_hexDigit n small
  | case2 n large induction =>
      rw [hex, if_neg large]
      exact inline_append.mpr ⟨induction, inline_hexDigit (n % 16) (Nat.mod_lt n (by decide))⟩

theorem inline_escapeCode (c : Char) : Inline (escapeCode c) := by
  unfold escapeCode
  rw [inline_append, inline_append]
  exact ⟨⟨by decide, inline_hex c.toNat⟩, by decide⟩

theorem inline_escape (c : Char) : Inline (escape c) := by
  unfold escape
  split
  · decide
  · decide
  · decide
  · decide
  · decide
  · decide
  · next noTab _ noBreak _ _ =>
      split
      · exact inline_escapeCode c
      · exact List.forall_mem_singleton.mpr ⟨noTab, noBreak⟩

theorem inline_quote (text : List Char) : Inline (quote text) := by
  have body : Inline (text.flatMap escape) := by
    intro c member
    obtain ⟨d, _, inside⟩ := List.mem_flatMap.mp member
    exact inline_escape d c inside
  unfold quote
  rw [← List.singleton_append, inline_append, inline_append]
  exact ⟨⟨by decide, body⟩, by decide⟩

end PugTokens.Text
