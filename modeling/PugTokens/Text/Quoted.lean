import PugTokens.Text.Unprintable

namespace PugTokens.Text

/-! # Quoted text

A text on one line between double quotes.  The quote and the backslash, NUL and
the common control characters have short escapes; other characters that are
not printed as they are appear as their code point.
-/

def hexDigit (n : Nat) : Char :=
  if n < 10 then Char.ofNat ('0'.toNat + n) else Char.ofNat ('a'.toNat + (n - 10))

/-- The digits of a number in base sixteen, without leading zeros. -/
def hex (n : Nat) : List Char :=
  if n < 16 then [hexDigit n] else hex (n / 16) ++ [hexDigit (n % 16)]

def escapeCode (c : Char) : List Char :=
  ['\x5c', 'u', '\x7b'] ++ hex c.toNat ++ ['\x7d']

/-- A character as it appears in a quoted text. -/
def escape (c : Char) : List Char :=
  match c with
  | '\x00' => ['\x5c', '0']
  | '\t' => ['\x5c', 't']
  | '\r' => ['\x5c', 'r']
  | '\n' => ['\x5c', 'n']
  | '\x22' => ['\x5c', '\x22']
  | '\x5c' => ['\x5c', '\x5c']
  | c => if isUnprintable c then escapeCode c else [c]

def quote (text : List Char) : List Char :=
  '\x22' :: text.flatMap escape ++ ['\x22']

end PugTokens.Text
