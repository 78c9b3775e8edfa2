import Mathlib.Data.List.Forall2
import PugTokens.Command.Report
import PugTokens.Proofs.Context.RoundTrip
import PugTokens.Proofs.Text.Quoted

namespace PugTokens.Command

open Text (Inline)

/-! # The rows of a report

A report has a row of fields for each token, up to the first behind which the context
cannot be stored (`Prints`).  No field holds a tab or a line break, so that lines and
fields can be told apart.
-/

/-- The line has a tab between any two of its fields and none within them. -/
structure Row (fields : List String) (line : String) : Prop where
  joined : line = "\t".intercalate fields
  inline : ∀ field ∈ fields, Inline field.toList

def tokenFields (token : Token) (text : List Char) : List String :=
  [s!"{token.span.start.line}:{token.span.start.column}", token.kind.name,
    String.ofList (Text.quote text)]

def PlainRow (source : List Char) (answer : Token × Context) (line : String) : Prop :=
  ∃ text, answer.1.span.text source = .ok text ∧ Row (tokenFields answer.1 text) line

/-- The last field holds the bytes from which the context behind the token is loaded. -/
def StoredRow (source : List Char) (answer : Token × Context) (line : String) : Prop :=
  ∃ text bytes, answer.1.span.text source = .ok text ∧ answer.2.encode = .ok bytes ∧
    Context.decode bytes = .ok answer.2 ∧
    Row (tokenFields answer.1 text ++ [bytesText bytes]) line

def unlines (lines : List String) : String :=
  lines.foldr (fun line later => line ++ "\n" ++ later) ""

/-- What is printed about tokens, each given with the context behind it, if the contexts
are not asked for or if they are. -/
inductive Prints (source : List Char) : List (Token × Context) → Bool → Report → Prop
  | plain {answers : List (Token × Context)} {lines : List String} :
      List.Forall₂ (PlainRow source) answers lines →
      Prints source answers false { stdout := unlines lines }
  | stored {answers : List (Token × Context)} {lines : List String} :
      List.Forall₂ (StoredRow source) answers lines →
      Prints source answers true { stdout := unlines lines }
  /-- Nothing is printed from the first token on behind which the context cannot be
  stored. -/
  | stopped {front later : List (Token × Context)} {lines : List String} {token : Token}
      {context : Context} {reason : Context.EncodeError} :
      List.Forall₂ (StoredRow source) front lines → context.encode = .error reason →
      Prints source (front ++ (token, context) :: later) true
        { status := 1
          stdout := unlines lines
          stderr := s!"Error serializing scanner state: {reason.message}\n" }

/-! ## Fields -/

theorem inline_toString (n : Nat) : Inline (toString n).toList := by
  change Inline n.repr.toList
  rw [Nat.toList_repr]
  intro c member
  have digit : c.isDigit = true := Nat.isDigit_of_mem_toDigits (by decide) (by decide) member
  constructor
  all_goals
    rintro rfl
    contradiction

theorem inline_name (kind : Kind) : Inline kind.name.toList := by
  cases kind <;> decide

theorem inline_intercalate {between : String} {fields : List String}
    (separator : Inline between.toList) (inline : ∀ field ∈ fields, Inline field.toList) :
    Inline (between.intercalate fields).toList := by
  induction fields with
  | nil => exact nofun
  | cons field later induction =>
      obtain ⟨own, rest⟩ := List.forall_mem_cons.mp inline
      cases later with
      | nil => rwa [String.intercalate_singleton]
      | cons next later =>
          rw [String.intercalate_cons_cons, String.toList_append, String.toList_append,
            Text.inline_append, Text.inline_append]
          exact ⟨⟨own, separator⟩, induction rest⟩

theorem inline_bytesText (bytes : List UInt8) : Inline (bytesText bytes).toList := by
  have numbers : Inline (", ".intercalate (bytes.map fun byte => toString byte.toNat)).toList := by
    apply inline_intercalate (by decide)
    intro field member
    obtain ⟨byte, _, rfl⟩ := List.mem_map.mp member
    exact inline_toString byte.toNat
  unfold bytesText
  rw [String.toList_append, String.toList_append, Text.inline_append, Text.inline_append]
  exact ⟨⟨by decide, numbers⟩, by decide⟩

theorem inline_tokenFields (token : Token) (text : List Char) :
    ∀ field ∈ tokenFields token text, Inline field.toList := by
  have place : Inline (s!"{token.span.start.line}:{token.span.start.column}").toList := by
    rw [String.toList_append, String.toList_append, Text.inline_append, Text.inline_append]
    exact ⟨⟨inline_toString _, by decide⟩, inline_toString _⟩
  have quoted : Inline (String.ofList (Text.quote text)).toList := by
    rw [String.toList_ofList]
    exact Text.inline_quote text
  simp only [tokenFields, List.forall_mem_cons]
  exact ⟨place, inline_name token.kind, quoted, nofun⟩

/-! ## Rows -/

theorem row_tokenLine (token : Token) (text : List Char) :
    Row (tokenFields token text) (tokenLine token text) where
  joined := by
    simp only [tokenLine, tokenFields, String.append_assoc, String.intercalate_cons_cons,
      String.intercalate_singleton]
    rfl
  inline := inline_tokenFields token text

theorem Row.stored {token : Token} {text : List Char} {line : String}
    (row : Row (tokenFields token text) line) (bytes : List UInt8) :
    Row (tokenFields token text ++ [bytesText bytes]) (line ++ "\t" ++ bytesText bytes) where
  joined := by
    have filled : tokenFields token text ≠ [] := List.cons_ne_nil _ _
    rw [row.joined, String.intercalate_append_of_ne_nil filled (List.cons_ne_nil _ _),
      String.intercalate_singleton]
  inline := by
    rw [List.forall_mem_append]
    exact ⟨row.inline, List.forall_mem_singleton.mpr (inline_bytesText bytes)⟩

/-! ## One row after the other -/

variable {source : List Char} {answers : List (Token × Context)} {answer : Token × Context}
variable {line : String} {report : Report}

theorem Prints.plainRow (row : PlainRow source answer line)
    (later : Prints source answers false report) :
    Prints source (answer :: answers) false (report.withLine line) := by
  cases later with
  | plain rows => exact .plain (.cons row rows)

theorem Prints.storedRow (row : StoredRow source answer line)
    (later : Prints source answers true report) :
    Prints source (answer :: answers) true (report.withLine line) := by
  cases later with
  | stored rows => exact .stored (.cons row rows)
  | stopped rows failed => exact .stopped (.cons row rows) failed

theorem Prints.failure {token : Token} {context : Context} {reason : Context.EncodeError}
    (failed : context.encode = .error reason) :
    Prints source ((token, context) :: answers) true
      (.failure s!"Error serializing scanner state: {reason.message}") := by
  have stopped : Prints source ((token, context) :: answers) true _ := .stopped .nil failed
  simp only [Report.failure, String.append_assoc]
  exact stopped

/-- All tokens that are parts of the text are printed, up to one whose context cannot be. -/
theorem exists_reportTokens (answers : List (Token × Context)) (showContext : Bool)
    (readable : ∀ answer ∈ answers, ∃ text, answer.1.span.text source = .ok text) :
    ∃ report, reportTokens source showContext answers = .ok report ∧
      Prints source answers showContext report := by
  induction answers with
  | nil =>
      cases showContext with
      | false => exact ⟨_, rfl, .plain .nil⟩
      | true => exact ⟨_, rfl, .stored .nil⟩
  | cons answer rest induction =>
      obtain ⟨token, context⟩ := answer
      obtain ⟨⟨text, read⟩, others⟩ := List.forall_mem_cons.mp readable
      obtain ⟨later, reported, prints⟩ := induction others
      have row := row_tokenLine token text
      simp only [reportTokens, read, reported, bind, Except.bind]
      cases showContext with
      | false => exact ⟨_, rfl, prints.plainRow ⟨text, read, row⟩⟩
      | true =>
          cases encoded : context.encode with
          | error reason => exact ⟨_, rfl, .failure encoded⟩
          | ok bytes =>
              have decoded := Context.decode_encode encoded []
              rw [List.append_nil] at decoded
              exact ⟨_, rfl, prints.storedRow
                ⟨text, bytes, read, encoded, decoded, row.stored bytes⟩⟩

end PugTokens.Command
