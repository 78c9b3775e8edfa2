import PugTokens.Kind

namespace PugTokens.Command

/-! # Arguments of the command line

`pug-scan [--state] outline [--state] <path>` prints the outline of a document,
and `pug-scan [--state] attr [--state] [--string] [--no-js] <expr>` the tokens of
a list of attribute values.  Flags and the one positional argument of a
subcommand may come in any order; after `--` nothing is a flag.  No flag is
given twice in the same place, but `--state` may stand both before and after
the subcommand.  Arguments are read in order, and the first one that asks for
the version or for help, or that is wrong, decides.
-/

inductive Task
  /-- The document at a path. -/
  | outline (path : String)
  /-- A list of attribute values, where strings are accepted and where scripts are not. -/
  | values (text : String) (string noScript : Bool)
  deriving DecidableEq, Repr

structure Request where
  task : Task
  /-- Print the stored context after every token. -/
  showContext : Bool := false
  deriving DecidableEq, Repr

/-- What a command line comes to that requests nothing. -/
inductive Reply
  | version
  | help
  /-- The arguments are wrong. -/
  | misuse
  deriving DecidableEq, Repr

/-- A way to read command lines. -/
abbrev Parser := List String → Except Reply Request

/-- Whether an argument asks for help; the letter may be the first of several. -/
def asksHelp (argument : String) : Bool :=
  argument == "--help" || argument.toList.take 2 == ['-', 'h']

def asksVersion (argument : String) : Bool :=
  argument == "--version" || argument.toList.take 2 == ['-', 'V']

/-- Whether an argument is written like a flag; a dash alone is not. -/
def looksLikeFlag (argument : String) : Bool :=
  argument.toList.head? == some '-' && argument != "-"

/-- The arguments of a subcommand that have been read. -/
structure Gathered where
  flags : List String := []
  positional : Option String := none
  deriving DecidableEq, Repr

namespace Gathered

/-- Add the positional argument, of which there is only one. -/
def place (gathered : Gathered) (argument : String) : Except Reply Gathered :=
  if gathered.positional.isSome then .error .misuse
  else .ok { gathered with positional := some argument }

def raise (gathered : Gathered) (flag : String) : Except Reply Gathered :=
  if flag ∈ gathered.flags then .error .misuse
  else .ok { gathered with flags := flag :: gathered.flags }

def has (gathered : Gathered) (flag : String) : Bool := gathered.flags.contains flag

def require (gathered : Gathered) : Except Reply String :=
  match gathered.positional with
  | some argument => .ok argument
  | none => .error .misuse

end Gathered

/-- Read the arguments of a subcommand that knows these flags. -/
def gather (known : List String) (gathered : Gathered) :
    List String → Except Reply Gathered
  | [] => .ok gathered
  | argument :: rest =>
      if argument = "--" then
        rest.foldlM Gathered.place gathered
      else if argument ∈ known then do
        gather known (← gathered.raise argument) rest
      else if asksHelp argument then
        .error .help
      else if looksLikeFlag argument then
        .error .misuse
      else do
        gather known (← gathered.place argument) rest

def parseOutline (state : Bool) (arguments : List String) : Except Reply Request := do
  let gathered ← gather ["--state"] {} arguments
  return ⟨.outline (← gathered.require), state || gathered.has "--state"⟩

def parseValues (state : Bool) (arguments : List String) : Except Reply Request := do
  let gathered ← gather ["--state", "--string", "--no-js"] {} arguments
  let text ← gathered.require
  return ⟨.values text (gathered.has "--string") (gathered.has "--no-js"),
    state || gathered.has "--state"⟩

/-- Read the arguments from the one that may be the subcommand on; `state` says
    that `--state` has been given. -/
def parseFrom (state : Bool) : Parser
  | [] => .error .misuse
  | argument :: rest =>
      if argument = "--state" then
        if state then .error .misuse else parseFrom true rest
      else if asksVersion argument then .error .version
      else if asksHelp argument then .error .help
      else if argument = "outline" then parseOutline state rest
      else if argument = "attr" then parseValues state rest
      else if argument = "help" ∧ rest ∈ [[], ["outline"], ["attr"], ["help"]] then
        .error .help
      else .error .misuse

def parse : Parser := parseFrom false

end PugTokens.Command
