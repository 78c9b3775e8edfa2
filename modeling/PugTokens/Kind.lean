namespace PugTokens

/-! # Token kinds

Two families of tokens: the layout of a document (line breaks and steps of
indentation, all without text) and attribute values (script expressions and
plain strings).  A caller names the kinds it would accept as a `KindSet`.
-/

inductive Kind
  | newline
  | indent
  | dedent
  /-- A script expression: words, operators, brackets and quoted runs. -/
  | script
  /-- A quoted run alone. -/
  | string
  deriving DecidableEq, Repr

namespace Kind

def name : Kind → String
  | newline => "NEWLINE"
  | indent => "INDENT"
  | dedent => "DEDENT"
  | script => "JS_ATTR"
  | string => "STRING"

/-- All kinds, from the lowest bit to the highest. -/
def all : List Kind := [newline, indent, dedent, script, string]

/-- The place of a kind in the number that stands for a set of kinds. -/
def bit : Kind → Nat
  | newline => 1
  | indent => 2
  | dedent => 4
  | script => 8
  | string => 16

def layout : List Kind := [newline, indent, dedent]

def value : List Kind := [script, string]

end Kind

structure KindSet where
  newline : Bool := false
  indent : Bool := false
  dedent : Bool := false
  script : Bool := false
  string : Bool := false
  deriving DecidableEq, Repr

namespace KindSet

def allows (valid : KindSet) : Kind → Bool
  | .newline => valid.newline
  | .indent => valid.indent
  | .dedent => valid.dedent
  | .script => valid.script
  | .string => valid.string

instance : Membership Kind KindSet where
  mem valid kind := valid.allows kind = true

instance (kind : Kind) (valid : KindSet) : Decidable (kind ∈ valid) :=
  inferInstanceAs (Decidable (valid.allows kind = true))

def empty : KindSet := {}

def insert (valid : KindSet) : Kind → KindSet
  | .newline => { valid with newline := true }
  | .indent => { valid with indent := true }
  | .dedent => { valid with dedent := true }
  | .script => { valid with script := true }
  | .string => { valid with string := true }

def ofList (kinds : List Kind) : KindSet := kinds.foldl insert empty

/-- The members, from the lowest bit to the highest. -/
def toList (valid : KindSet) : List Kind := Kind.all.filter valid.allows

def isEmpty (valid : KindSet) : Bool := valid.toList.isEmpty

/-- The number that stands for the set: the sum of its members' bits. -/
def bits (valid : KindSet) : Nat :=
  valid.toList.foldr (fun kind total => kind.bit + total) 0

def meets (valid : KindSet) (kinds : List Kind) : Bool := kinds.any valid.allows

def includes (valid : KindSet) (kinds : List Kind) : Bool := kinds.all valid.allows

def layout : KindSet := ofList Kind.layout

def value : KindSet := ofList Kind.value

@[simp] theorem mem_iff {kind : Kind} {valid : KindSet} :
    kind ∈ valid ↔ valid.allows kind = true :=
  Iff.rfl

@[simp] theorem allows_empty (kind : Kind) : empty.allows kind = false := by
  cases kind <;> rfl

theorem allows_insert (valid : KindSet) (added kind : Kind) :
    (valid.insert added).allows kind = (kind == added || valid.allows kind) := by
  cases added <;> cases kind <;> rfl

theorem mem_ofList {kinds : List Kind} {kind : Kind} :
    kind ∈ ofList kinds ↔ kind ∈ kinds := by
  suffices general : ∀ valid : KindSet,
      (kinds.foldl insert valid).allows kind =
        (decide (kind ∈ kinds) || valid.allows kind) by
    simp [mem_iff, ofList, general]
  induction kinds with
  | nil =>
      intro valid
      simp
  | cons head tail induction =>
      intro valid
      simp only [List.foldl_cons, induction, allows_insert, List.mem_cons]
      by_cases same : kind = head
      · simp [same]
      · have different : (kind == head) = false := by simpa using same
        simp [same, different]

theorem mem_toList {valid : KindSet} {kind : Kind} :
    kind ∈ valid.toList ↔ kind ∈ valid := by
  cases kind <;> simp [toList, Kind.all]

end KindSet

end PugTokens
