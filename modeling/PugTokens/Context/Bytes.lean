import PugTokens.Context

namespace PugTokens.Context

/-! # Contexts as byte strings

A context is stored as three blocks, for the levels, the enclosures and the
ternaries, and a final byte that is 1 if an operand is awaited and 0 otherwise.
A block is the size of its stack, the bottom included, followed by the entries
above the bottom from the lowest to the highest.  Sizes and entries take one
byte each: what does not fit is an error and is never cut off.  Reading takes
any final byte but 0 for 1 and ignores what follows it, and it takes no bytes
at all for the initial context.
-/

/-- The longest byte string that a context may be stored in. -/
def byteLimit : Nat := 1024

inductive StackName
  | indent
  | bracket
  | ternary
  deriving DecidableEq, Repr

def StackName.text : StackName → String
  | indent => "indent"
  | bracket => "bracket"
  | ternary => "ternary"

inductive EncodeError
  /-- The whole would take more bytes than allowed. -/
  | tooLong (needed : Nat)
  /-- The size of a stack does not fit in a byte. -/
  | tooDeep (stack : StackName) (size : Nat)
  /-- An entry of a stack does not fit in a byte. -/
  | tooWide (stack : StackName) (value : Nat)
  deriving DecidableEq, Repr

def EncodeError.message : EncodeError → String
  | tooLong needed =>
      s!"serialized state needs {needed} bytes, buffer holds {byteLimit}"
  | tooDeep stack size =>
      s!"{stack.text} stack holds {size} entries, at most 255 can be serialized"
  | tooWide stack value =>
      s!"{stack.text} stack entry {value} does not fit in one byte"

inductive DecodeError
  /-- The bytes end at this offset, and more are needed. -/
  | truncated (offset : Nat)
  /-- A stack is said to have not even a bottom. -/
  | emptyStack (stack : StackName)
  deriving DecidableEq, Repr

def DecodeError.message : DecodeError → String
  | truncated offset => s!"serialized state ends early at byte {offset}"
  | emptyStack stack =>
      s!"serialized {stack.text} stack has length 0, expected at least the sentinel"

/-! ## Writing -/

def encodeEntries (stack : StackName) : List Nat → Except EncodeError (List UInt8)
  | [] => .ok []
  | value :: rest =>
      if 255 < value then .error (.tooWide stack value)
      else (encodeEntries stack rest).map (UInt8.ofNat value :: ·)

/-- The size of a stack and its entries above the bottom. -/
def encodeBlock (stack : StackName) (entries : List Nat) :
    Except EncodeError (List UInt8) :=
  if 255 < entries.length + 1 then .error (.tooDeep stack (entries.length + 1))
  else (encodeEntries stack entries).map (UInt8.ofNat (entries.length + 1) :: ·)

def encodedSize (context : Context) : Nat :=
  context.levels.size + context.enclosures.size + context.ternaries.size + 1

def encode (context : Context) : Except EncodeError (List UInt8) := do
  if byteLimit < context.encodedSize then
    throw (.tooLong context.encodedSize)
  let levels ← encodeBlock .indent context.levels.entries
  let enclosures ← encodeBlock .bracket (context.enclosures.entries.map Char.toNat)
  let ternaries ← encodeBlock .ternary context.ternaries.entries
  return levels ++ enclosures ++ ternaries ++ [if context.pending then 1 else 0]

/-! ## Reading -/

/-- The entries of one block and the bytes after it; `total` is the length of
    the whole byte string, the offset at which it ends if it ends too early. -/
def decodeBlock (total : Nat) (stack : StackName) :
    List UInt8 → Except DecodeError (List UInt8 × List UInt8)
  | [] => .error (.truncated total)
  | size :: rest =>
      if size = 0 then .error (.emptyStack stack)
      else if rest.length < size.toNat - 1 then .error (.truncated total)
      else .ok (rest.take (size.toNat - 1), rest.drop (size.toNat - 1))

/-- The final byte: anything but 0 says that an operand is awaited. -/
def decodePending (total : Nat) : List UInt8 → Except DecodeError Bool
  | [] => .error (.truncated total)
  | flag :: _ => .ok (flag != 0)

def decode (bytes : List UInt8) : Except DecodeError Context :=
  if bytes.isEmpty then .ok initial
  else do
    let (levels, rest) ← decodeBlock bytes.length .indent bytes
    let (enclosures, rest) ← decodeBlock bytes.length .bracket rest
    let (ternaries, rest) ← decodeBlock bytes.length .ternary rest
    let pending ← decodePending bytes.length rest
    return {
      levels := .ofEntries (levels.map UInt8.toNat)
      enclosures := .ofEntries (enclosures.map fun byte => Char.ofNat byte.toNat)
      ternaries := .ofEntries (ternaries.map UInt8.toNat)
      pending }

/-- Put what the bytes hold in place of a context; if they cannot be read it
    stays as it is. -/
def load (context : Context) (bytes : List UInt8) : Except DecodeError Unit × Context :=
  match decode bytes with
  | .ok loaded => (.ok (), loaded)
  | .error reason => (.error reason, context)

end PugTokens.Context
