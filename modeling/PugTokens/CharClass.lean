namespace PugTokens

/-! # Character classes

Attribute values are made of ASCII characters: words are runs of ASCII letters
and digits, and everything else has to be a quote, a bracket, an operator or a
blank to belong to a value.  The classes are disjoint, so a character has
exactly one, and a character outside all of them is `other`.
-/

/-- What a character can do in an attribute value. -/
inductive CharClass
  | word
  | quote
  | opener
  | closer
  /-- An operator that also counts outside every bracket. -/
  | operator
  /-- The comma, an operator only inside brackets. -/
  | comma
  | blank
  | other
  deriving DecidableEq, Repr

namespace CharClass

def quotes : List Char := ['\x22', '\x27', '\x60']

/-- The quote of template literals, which are never plain strings. -/
def templateQuote : Char := '\x60'

/-- Openers with the closers they pair with. -/
def pairs : List (Char × Char) := [('(', ')'), ('[', ']'), ('\x7b', '\x7d')]

def openers : List Char := pairs.map Prod.fst

def closers : List Char := pairs.map Prod.snd

/-- Operators that may stand outside every bracket. -/
def operators : List Char :=
  ['$', '&', '*', '+', '-', '.', '/', ':', ';', '<', '=', '>', '?', '^', '|']

def blanks : List Char := [' ', '\t']

def ofChar (c : Char) : CharClass :=
  if c.isAlphanum then .word
  else if c ∈ quotes then .quote
  else if c ∈ openers then .opener
  else if c ∈ closers then .closer
  else if c ∈ operators then .operator
  else if c = ',' then .comma
  else if c ∈ blanks then .blank
  else .other

theorem ofChar_eq_word_iff {c : Char} : ofChar c = .word ↔ c.isAlphanum = true := by
  simp only [ofChar]
  repeat' split
  all_goals simp_all

theorem ofChar_eq_quote_iff {c : Char} : ofChar c = .quote ↔ c ∈ quotes := by
  refine ⟨fun same => ?_, fun listed => ?_⟩
  · simp only [ofChar] at same
    repeat' split at same
    all_goals simp_all
  · simp only [quotes, List.mem_cons, List.not_mem_nil, or_false] at listed
    rcases listed with rfl | rfl | rfl <;> decide

theorem ofChar_eq_opener_iff {c : Char} : ofChar c = .opener ↔ c ∈ openers := by
  refine ⟨fun same => ?_, fun listed => ?_⟩
  · simp only [ofChar] at same
    repeat' split at same
    all_goals simp_all
  · simp only [openers, pairs, List.map_cons, List.map_nil, List.mem_cons,
      List.not_mem_nil, or_false] at listed
    rcases listed with rfl | rfl | rfl <;> decide

theorem ofChar_eq_closer_iff {c : Char} : ofChar c = .closer ↔ c ∈ closers := by
  refine ⟨fun same => ?_, fun listed => ?_⟩
  · simp only [ofChar] at same
    repeat' split at same
    all_goals simp_all
  · simp only [closers, pairs, List.map_cons, List.map_nil, List.mem_cons,
      List.not_mem_nil, or_false] at listed
    rcases listed with rfl | rfl | rfl <;> decide

theorem ofChar_eq_operator_iff {c : Char} : ofChar c = .operator ↔ c ∈ operators := by
  refine ⟨fun same => ?_, fun listed => ?_⟩
  · simp only [ofChar] at same
    repeat' split at same
    all_goals simp_all
  · simp only [operators, List.mem_cons, List.not_mem_nil, or_false] at listed
    rcases listed with rfl | rfl | rfl | rfl | rfl | rfl | rfl | rfl | rfl | rfl | rfl |
      rfl | rfl | rfl | rfl <;> decide

theorem ofChar_eq_comma_iff {c : Char} : ofChar c = .comma ↔ c = ',' := by
  refine ⟨fun same => ?_, fun equal => ?_⟩
  · simp only [ofChar] at same
    repeat' split at same
    all_goals simp_all
  · subst equal
    decide

theorem ofChar_eq_blank_iff {c : Char} : ofChar c = .blank ↔ c ∈ blanks := by
  refine ⟨fun same => ?_, fun listed => ?_⟩
  · simp only [ofChar] at same
    repeat' split at same
    all_goals simp_all
  · simp only [blanks, List.mem_cons, List.not_mem_nil, or_false] at listed
    rcases listed with rfl | rfl <;> decide

end CharClass

/-! ## Questions about one character -/

def isWord (c : Char) : Bool := CharClass.ofChar c == .word

def isQuote (c : Char) : Bool := CharClass.ofChar c == .quote

def isTemplateQuote (c : Char) : Bool := c == CharClass.templateQuote

def isOpener (c : Char) : Bool := CharClass.ofChar c == .opener

def isCloser (c : Char) : Bool := CharClass.ofChar c == .closer

/-- An operator of the root of a value, outside every bracket. -/
def isRootOperator (c : Char) : Bool := CharClass.ofChar c == .operator

/-- An operator inside brackets: a root operator or the comma. -/
def isOperator (c : Char) : Bool :=
  isRootOperator c || CharClass.ofChar c == .comma

def isBlank (c : Char) : Bool := CharClass.ofChar c == .blank

def openerOf? (c : Char) : Option Char :=
  (CharClass.pairs.find? (·.2 == c)).map Prod.fst

/-- What a blank adds to the width of an indentation: a tab counts for eight
    spaces. -/
def indentWidth? : Char → Option Nat
  | ' ' => some 1
  | '\t' => some 8
  | _ => none

theorem isBlank_iff {c : Char} : isBlank c = true ↔ c = ' ' ∨ c = '\t' := by
  simp [isBlank, CharClass.ofChar_eq_blank_iff, CharClass.blanks]

/-- The blanks are the characters that an indentation is made of. -/
theorem isSome_indentWidth? (c : Char) : (indentWidth? c).isSome = isBlank c := by
  rw [Bool.eq_iff_iff, isBlank_iff]
  unfold indentWidth?
  split <;> simp_all

end PugTokens
