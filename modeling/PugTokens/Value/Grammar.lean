import PugTokens.CharClass

namespace PugTokens.Value

/-! # The grammar of complete values

What a caller may write as one attribute value, said without a scan: literals
between quotes, groups between brackets, operands made of words, literals and
groups, and expressions made of operands with operators between them.
-/

/-- The inside of a literal: plain characters, escapes, and literals in other
    quotes. -/
inductive LiteralBody : Char → List Char → Prop
  | nil {quote : Char} : LiteralBody quote []
  | plain {quote c : Char} {rest : List Char} :
      isQuote c = false → c ≠ '\x5c' → LiteralBody quote rest →
      LiteralBody quote (c :: rest)
  | escape {quote c : Char} {rest : List Char} :
      LiteralBody quote rest → LiteralBody quote ('\x5c' :: c :: rest)
  | literal {quote inner : Char} {body rest : List Char} :
      isQuote inner = true → inner ≠ quote → LiteralBody inner body →
      LiteralBody quote rest → LiteralBody quote (inner :: (body ++ inner :: rest))

/-- A quoted run that is closed by the quote that opens it. -/
inductive Literal : List Char → Prop
  | between {quote : Char} {body : List Char} :
      isQuote quote = true → LiteralBody quote body → Literal (quote :: (body ++ [quote]))

/-- The inside of a group: words, blanks, operators, literals and groups. -/
inductive GroupBody : List Char → Prop
  | nil : GroupBody []
  | plain {c : Char} {rest : List Char} :
      (isWord c || isBlank c || isOperator c) = true → GroupBody rest →
      GroupBody (c :: rest)
  | literal {text rest : List Char} :
      Literal text → GroupBody rest → GroupBody (text ++ rest)
  | group {opener closer : Char} {body rest : List Char} :
      (opener, closer) ∈ CharClass.pairs → GroupBody body → GroupBody rest →
      GroupBody (opener :: (body ++ closer :: rest))

/-- A pair of brackets and what stands between them. -/
inductive Group : List Char → Prop
  | between {opener closer : Char} {body : List Char} :
      (opener, closer) ∈ CharClass.pairs → GroupBody body →
      Group (opener :: (body ++ [closer]))

inductive Part : List Char → Prop
  | word {c : Char} : isWord c = true → Part [c]
  | literal {text : List Char} : Literal text → Part text
  | group {text : List Char} : Group text → Part text

/-- One or more parts without blanks between them. -/
inductive Operand : List Char → Prop
  | part {text : List Char} : Part text → Operand text
  | append {text rest : List Char} : Part text → Operand rest → Operand (text ++ rest)

/-- What joins two operands: operators and blanks, with at least one operator. -/
structure Connector (text : List Char) : Prop where
  only : ∀ c ∈ text, (isRootOperator c || isBlank c) = true
  operator : ∃ c ∈ text, isRootOperator c = true

/-- Operands joined by connectors, and the `?` and `:` of the connectors in their
    order. -/
inductive Joined : List Char → List Char → Prop
  | operand {text : List Char} : Operand text → Joined text []
  | join {text link rest marks : List Char} :
      Operand text → Connector link → Joined rest marks →
      Joined (text ++ (link ++ rest)) (link.filter (· ∈ ['?', ':']) ++ marks)

/-- Every `:` answers an earlier `?`, and no `?` is left; `asked` of them are
    waiting. -/
def Balanced (asked : Nat) : List Char → Bool
  | [] => asked == 0
  | '?' :: rest => Balanced (asked + 1) rest
  | ':' :: rest => asked != 0 && Balanced (asked - 1) rest
  | _ :: rest => Balanced asked rest

def Expression (text : List Char) : Prop :=
  ∃ marks, Joined text marks ∧ Balanced 0 marks = true

/-- Nothing but quotes and escapes. -/
def hollow : List Char → Bool
  | [] => true
  | [c] => isQuote c
  | c :: d :: rest => if c = '\x5c' then hollow rest else isQuote c && hollow (d :: rest)

/-- An expression whose last operand, behind a connector, is made of literals that
    hold nothing but escapes and such literals. -/
def EndsHollow (text : List Char) : Prop :=
  ∃ front link last marks, text = front ++ (link ++ last) ∧
    Joined front marks ∧ Connector link ∧ Operand last ∧
    Balanced 0 (marks ++ link.filter (· ∈ ['?', ':'])) = true ∧ hollow last = true

theorem hollow_escape (c : Char) (rest : List Char) :
    hollow ('\x5c' :: c :: rest) = hollow rest := rfl

theorem hollow_cons {c : Char} (plain : c ≠ '\x5c') (rest : List Char) :
    hollow (c :: rest) = (isQuote c && hollow rest) := by
  cases rest with
  | nil => simp [hollow]
  | cons d rest => simp [hollow, plain]

theorem ne_escape_of_isQuote {c : Char} (quotation : isQuote c = true) : c ≠ '\x5c' :=
  fun same => absurd (same ▸ quotation) (by decide)

/-- The inside of a literal does not end within an escape. -/
theorem LiteralBody.hollow_append {quote : Char} {body : List Char}
    (literal : LiteralBody quote body) (rest : List Char) :
    hollow (body ++ rest) = (hollow body && hollow rest) := by
  induction literal generalizing rest with
  | nil => rfl
  | plain plain unescaped _ _ =>
      simp only [List.cons_append, hollow_cons unescaped, plain, Bool.false_and]
  | escape _ induction =>
      simp only [List.cons_append, hollow_escape, induction]
  | literal inside _ _ _ bodyIH laterIH =>
      have unescaped := ne_escape_of_isQuote inside
      simp only [List.cons_append, List.append_assoc, hollow_cons unescaped, inside, bodyIH,
        laterIH, Bool.true_and, Bool.and_assoc]

theorem LiteralBody.hollow_between {quote : Char} {body : List Char}
    (literal : LiteralBody quote body) (quotation : isQuote quote = true) (rest : List Char) :
    hollow (quote :: (body ++ quote :: rest)) = (hollow body && hollow rest) := by
  have unescaped := ne_escape_of_isQuote quotation
  rw [hollow_cons unescaped, literal.hollow_append, hollow_cons unescaped, quotation,
    Bool.true_and, Bool.true_and]

/-- A literal is an operand, and an operand is an expression. -/
theorem Literal.operand {text : List Char} (literal : Literal text) : Operand text :=
  .part (.literal literal)

end PugTokens.Value
