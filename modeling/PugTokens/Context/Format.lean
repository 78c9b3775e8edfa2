import PugTokens.Context.Bytes

namespace PugTokens.Context

/-! # The format of stored contexts

The byte strings that stand for contexts, described by what they hold rather
than by how they are read, and the contexts that have one.
-/

/-- What a byte string holds, before its bytes are taken for entries. -/
structure Stored where
  levels : List UInt8
  enclosures : List UInt8
  ternaries : List UInt8
  /-- The final byte. -/
  flag : UInt8
  deriving DecidableEq, Repr

namespace Stored

/-- The size of a stack, its bottom included, and its entries. -/
def block (entries : List UInt8) : List UInt8 :=
  UInt8.ofNat (entries.length + 1) :: entries

def bytes (stored : Stored) : List UInt8 :=
  block stored.levels ++ block stored.enclosures ++ block stored.ternaries ++ [stored.flag]

/-- Every size fits in a byte. -/
def Fits (stored : Stored) : Prop :=
  stored.levels.length < 255 ∧ stored.enclosures.length < 255 ∧
    stored.ternaries.length < 255

def context (stored : Stored) : Context where
  levels := .ofEntries (stored.levels.map UInt8.toNat)
  enclosures := .ofEntries (stored.enclosures.map fun byte => Char.ofNat byte.toNat)
  ternaries := .ofEntries (stored.ternaries.map UInt8.toNat)
  pending := stored.flag != 0

theorem toNat_size {entries : List UInt8} (fits : entries.length < 255) :
    (UInt8.ofNat (entries.length + 1)).toNat = entries.length + 1 := by
  rw [UInt8.toNat_ofNat']
  omega

theorem size_ne_zero {entries : List UInt8} (fits : entries.length < 255) :
    UInt8.ofNat (entries.length + 1) ≠ 0 := by
  intro zero
  have size := toNat_size fits
  rw [zero] at size
  have impossible : 0 = entries.length + 1 := size
  omega

/-- A block is read back in front of any bytes. -/
theorem decodeBlock_block (total : Nat) (name : StackName) {entries : List UInt8}
    (fits : entries.length < 255) (rest : List UInt8) :
    decodeBlock total name (block entries ++ rest) = .ok (entries, rest) := by
  have enough : ¬ (entries ++ rest).length < entries.length := by simp
  simp only [block, List.cons_append, decodeBlock, if_neg (size_ne_zero fits),
    toNat_size fits, Nat.add_sub_cancel, if_neg enough, List.take_left, List.drop_left]

/-- What is stored is read back, whatever bytes follow. -/
theorem decode_bytes {stored : Stored} (fits : stored.Fits) (rest : List UInt8) :
    decode (stored.bytes ++ rest) = .ok stored.context := by
  obtain ⟨levels, enclosures, ternaries⟩ := fits
  have filled : (stored.bytes ++ rest).isEmpty = false := rfl
  unfold decode
  rw [filled]
  simp only [bytes, List.append_assoc, decodeBlock_block _ _ levels,
    decodeBlock_block _ _ enclosures, decodeBlock_block _ _ ternaries,
    Bool.false_eq_true, if_false, bind, Except.bind]
  rfl

/-- The same with the flag as it is written. -/
def canonical (stored : Stored) : Stored :=
  { stored with flag := if stored.flag = 0 then 0 else 1 }

/-- A byte string that begins with what is stored. -/
def Begins (stored : Stored) (bytes : List UInt8) : Prop :=
  stored.Fits ∧ ∃ rest, bytes = stored.bytes ++ rest

end Stored

/-- A byte string in which a stack is said to have not even a bottom, behind complete
blocks for the stacks before it. -/
inductive Bottomless : StackName → List UInt8 → Prop
  | indent (rest : List UInt8) : Bottomless .indent (0 :: rest)
  | bracket {levels : List UInt8} (rest : List UInt8) :
      levels.length < 255 → Bottomless .bracket (Stored.block levels ++ 0 :: rest)
  | ternary {levels enclosures : List UInt8} (rest : List UInt8) :
      levels.length < 255 → enclosures.length < 255 →
      Bottomless .ternary (Stored.block levels ++ (Stored.block enclosures ++ 0 :: rest))

theorem toNat_ofNat_byte (byte : UInt8) : (Char.ofNat byte.toNat).toNat = byte.toNat := by
  have small := byte.toNat_lt
  have scalar : byte.toNat.isValidChar := .inl (by omega)
  rw [Char.ofNat, dif_pos scalar]
  rfl

/-- The entries of a stack above its bottom, as numbers. -/
def codes (context : Context) : StackName → List Nat
  | .indent => context.levels.entries
  | .bracket => context.enclosures.entries.map Char.toNat
  | .ternary => context.ternaries.entries

/-- Every size and every entry fits in a byte. -/
def Storable (context : Context) : Prop :=
  ∀ name, (context.codes name).length < 255 ∧ ∀ value ∈ context.codes name, value ≤ 255

/-! ## What may be in the way -/

/-- The stacks in the order in which they are written. -/
def StackName.all : List StackName := [indent, bracket, ternary]

def StackName.before (name : StackName) : List StackName := all.takeWhile (· ≠ name)

/-- The number of entries of a stack, the bottom included. -/
def stackSize (context : Context) : StackName → Nat
  | .indent => context.levels.size
  | .bracket => context.enclosures.size
  | .ternary => context.ternaries.size

/-- The sizes of all stacks, and one more byte for the flag. -/
def wholeSize (context : Context) : Nat :=
  context.stackSize .indent + context.stackSize .bracket + context.stackSize .ternary + 1

def StackFits (context : Context) (name : StackName) : Prop :=
  context.stackSize name ≤ 255 ∧ ∀ value ∈ context.codes name, value ≤ 255

/-- What does not fit of a stack: the number of its entries, or else the lowest entry that
is too wide. -/
inductive Misfit (context : Context) (name : StackName) : EncodeError → Prop
  | deep : 255 < context.stackSize name →
      Misfit context name (.tooDeep name (context.stackSize name))
  | wide {value : Nat} :
      context.stackSize name ≤ 255 → (context.codes name).find? (255 < ·) = some value →
      Misfit context name (.tooWide name value)

/-- What does not fit of a context: the whole, or else the first stack that does not. -/
inductive Obstacle (context : Context) : EncodeError → Prop
  | whole : 1024 < context.wholeSize → Obstacle context (.tooLong context.wholeSize)
  | stack {name : StackName} {reason : EncodeError} :
      context.wholeSize ≤ 1024 → (∀ earlier ∈ name.before, context.StackFits earlier) →
      context.Misfit name reason → Obstacle context reason

/-- A context as numbers: the size and the entries of each stack, and whether an operand is
awaited. -/
def numbers (context : Context) : List Nat :=
  (StackName.all.flatMap fun name => context.stackSize name :: context.codes name) ++
    [context.pending.toNat]

end PugTokens.Context
