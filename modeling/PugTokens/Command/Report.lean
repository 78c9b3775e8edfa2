import PugTokens.Command.Arguments
import PugTokens.Reading.Outline
import PugTokens.Reading.Values
import PugTokens.Text.Quoted

namespace PugTokens.Command

/-! # What the command prints

One line for each token: its line and column, its kind and its text in quotes,
and after them, if asked for, the bytes of the context behind it.  If a context
cannot be stored the report ends with the lines before it.
-/

inductive Document
  | missing
  | unreadable (reason : String)
  | contents (bytes : ByteArray)

/-- The status of a run and what it prints. -/
structure Report where
  status : Nat := 0
  stdout : String := ""
  stderr : String := ""
  deriving DecidableEq, Repr

namespace Report

def failure (message : String) : Report := { status := 1, stderr := message ++ "\n" }

def withLine (line : String) (report : Report) : Report :=
  { report with stdout := line ++ "\n" ++ report.stdout }

end Report

def bytesText (bytes : List UInt8) : String :=
  "[" ++ ", ".intercalate (bytes.map fun byte => toString byte.toNat) ++ "]"

def tokenLine (token : Token) (text : List Char) : String :=
  let place := token.span.start
  s!"{place.line}:{place.column}\t{token.kind.name}\t" ++ String.ofList (Text.quote text)

/-- The lines of tokens, each given with the context behind it. -/
def reportTokens (source : List Char) (showContext : Bool) :
    List (Token × Context) → Except TextError Report
  | [] => .ok {}
  | (token, context) :: rest => do
      let line := tokenLine token (← token.span.text source)
      if showContext then
        match context.encode with
        | .error reason =>
            return .failure s!"Error serializing scanner state: {reason.message}"
        | .ok bytes =>
            return (← reportTokens source showContext rest).withLine
              (line ++ "\t" ++ bytesText bytes)
      else
        return (← reportTokens source showContext rest).withLine line

def reportOutline (source : List Char) (showContext : Bool) :
    Except TextError Report := do
  let (tokens, _) ← Outline.all source
  reportTokens source showContext
    (tokens.map fun (token, after) => (token, after.reading.context))

def reportValues (source : List Char) (valid : KindSet) (showContext : Bool) :
    Except TextError Report := do
  let (tokens, _) ← Values.all source valid
  reportTokens source showContext
    (tokens.map fun (token, after) => (token, after.reading.context))

/-- The kinds that are accepted unless a flag says otherwise are the scripts. -/
def acceptedKinds (string noScript : Bool) : KindSet := { script := !noScript, string }

/-- Do what is requested; `document` is what the path of an outline leads to. -/
def Request.report (request : Request) (document : Document) :
    Except TextError Report :=
  match request.task with
  | .values text string noScript =>
      let valid := acceptedKinds string noScript
      if valid.isEmpty then
        .ok (.failure "Error: --no-js without --string leaves nothing to scan")
      else reportValues text.toList valid request.showContext
  | .outline path =>
      match document with
      | .missing => .ok (.failure s!"Error: file not found: {path}")
      | .unreadable reason => .ok (.failure s!"Error reading {path}: {reason}")
      | .contents bytes =>
          match String.fromUTF8? bytes with
          | none =>
              .ok (.failure
                s!"Error reading {path}: stream did not contain valid UTF-8")
          | some text => reportOutline text.toList request.showContext

/-- What is printed where nothing is requested, but for the texts in which a parser explains
    the arguments. -/
def Reply.report : Reply → Report
  | version => { stdout := "pug-scan 0.1.0\n" }
  | help => {}
  | misuse => { status := 2 }

/-- Run the command with some way to read the arguments; `document` is what the path of an
    outline leads to. -/
def runWith (parser : Parser) (arguments : List String) (document : Document) :
    Except TextError Report :=
  match parser arguments with
  | .error reply => .ok reply.report
  | .ok request => request.report document

/-- The path of the document that a command line asks for. -/
def path? (arguments : List String) : Option String :=
  match parse arguments with
  | .ok ⟨.outline path, _⟩ => some path
  | _ => none

def run (arguments : List String) (document : Document) : Except TextError Report :=
  runWith parse arguments document

end PugTokens.Command
