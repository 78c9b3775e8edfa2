import PugTokens.Context.Bytes
import PugTokens.Scan

namespace PugTokens.Context

/-! # Contexts that come about

The contexts that scans can leave behind, starting from the initial one or from
stored bytes, and the order that the stacks of the former keep.
-/

/-- A context that comes about by scanning from the initial one, by closing
    levels, and by loading what was stored. -/
inductive Reachable : Context → Prop
  | initial : Reachable .initial
  | scan {context : Context} (valid : KindSet) (view : View) :
      Reachable context → Reachable (PugTokens.scan context valid view).context
  | dedent {context : Context} : Reachable context → Reachable context.dedent
  | reload {context loaded : Context} {bytes : List UInt8} :
      Reachable context → context.encode = .ok bytes → decode bytes = .ok loaded →
      Reachable loaded

/-- A context that comes about in the same ways from any bytes that can be
    loaded. -/
inductive Loaded : Context → Prop
  | decode {context : Context} {bytes : List UInt8} :
      decode bytes = .ok context → Loaded context
  | scan {context : Context} (valid : KindSet) (view : View) :
      Loaded context → Loaded (PugTokens.scan context valid view).context
  | dedent {context : Context} : Loaded context → Loaded context.dedent

def Alternating : List Char → Prop
  | first :: second :: rest => first ≠ second ∧ Alternating (second :: rest)
  | _ => True

/-- Brackets below, quotes above, and no quote directly inside the same quote. -/
def Nested (entries : List Char) : Prop :=
  ∃ brackets quotes, entries = brackets ++ quotes ∧
    (∀ c ∈ brackets, isOpener c = true) ∧ (∀ c ∈ quotes, isQuote c = true) ∧
    Alternating quotes

/-- The order that scanning from the initial context keeps. -/
structure WellFormed (context : Context) : Prop where
  increasing : context.levels.toList.Pairwise (· < ·)
  nested : Nested context.enclosures.entries
  /-- Every open `?` stands outside all enclosures. -/
  rooted : ∀ size ∈ context.ternaries.entries, size = 1

theorem wellFormed_initial : WellFormed .initial where
  increasing := by decide
  nested := ⟨[], [], rfl, by simp, by simp, trivial⟩
  rooted := by decide

end PugTokens.Context
