namespace PugTokens

/-! # Stacks over a fixed bottom

A stack that is never empty: under everything pushed lies one fixed entry that
cannot be removed.  The bottom belongs to the type, so no operation can lose or
replace it.  `toList` is the view through which the operations are described;
it lists a stack from the bottom up.
-/

/-- A stack whose lowest entry is `bottom`. -/
structure Stack {α : Type} (bottom : α) where
  /-- The entries above the bottom, the top first. -/
  above : List α := []
  deriving DecidableEq, Repr

namespace Stack

variable {α : Type} {bottom : α}

def bare : Stack bottom := {}

/-- The stack of the given entries over the bottom, the lowest first. -/
def ofEntries (entries : List α) : Stack bottom := ⟨entries.reverse⟩

/-- The entries above the bottom, the lowest first. -/
def entries (stack : Stack bottom) : List α := stack.above.reverse

/-- All entries from the bottom up. -/
def toList (stack : Stack bottom) : List α := bottom :: stack.entries

/-- The number of entries, the bottom included. -/
def size (stack : Stack bottom) : Nat := stack.above.length + 1

def top (stack : Stack bottom) : α := stack.above.headD bottom

def push (stack : Stack bottom) (entry : α) : Stack bottom := ⟨entry :: stack.above⟩

/-- Remove the top entry; the bottom stays. -/
def pop (stack : Stack bottom) : Stack bottom := ⟨stack.above.tail⟩

def isBare (stack : Stack bottom) : Bool := stack.above.isEmpty

@[simp] theorem entries_bare : (bare : Stack bottom).entries = [] := rfl

@[simp] theorem top_bare : (bare : Stack bottom).top = bottom := rfl

@[simp] theorem entries_ofEntries (entries : List α) :
    (ofEntries entries : Stack bottom).entries = entries := by
  simp [Stack.entries, ofEntries]

@[simp] theorem ofEntries_entries (stack : Stack bottom) :
    ofEntries stack.entries = stack := by
  simp [Stack.entries, ofEntries]

theorem entries_injective {left right : Stack bottom}
    (same : left.entries = right.entries) : left = right := by
  rw [← ofEntries_entries left, same, ofEntries_entries]

@[simp] theorem entries_push (stack : Stack bottom) (entry : α) :
    (stack.push entry).entries = stack.entries ++ [entry] := by
  simp [Stack.entries, push]

@[simp] theorem entries_pop (stack : Stack bottom) :
    stack.pop.entries = stack.entries.dropLast := by
  simp [Stack.entries, pop]

theorem toList_push (stack : Stack bottom) (entry : α) :
    (stack.push entry).toList = stack.toList ++ [entry] := by
  simp [toList]

@[simp] theorem top_push (stack : Stack bottom) (entry : α) :
    (stack.push entry).top = entry := rfl

@[simp] theorem pop_push (stack : Stack bottom) (entry : α) :
    (stack.push entry).pop = stack := rfl

@[simp] theorem pop_bare : (bare : Stack bottom).pop = bare := rfl

@[simp] theorem size_push (stack : Stack bottom) (entry : α) :
    (stack.push entry).size = stack.size + 1 := rfl

theorem length_toList (stack : Stack bottom) : stack.toList.length = stack.size := by
  simp [toList, entries, size]

theorem top_eq_getLast (stack : Stack bottom) :
    stack.toList.getLast? = some stack.top := by
  cases stack with
  | mk above =>
      cases above with
      | nil => rfl
      | cons head tail =>
          simp [toList, entries, top, List.getLast?_cons]

/-- A stack with something above its bottom is its top pushed on the rest. -/
theorem push_top_pop {stack : Stack bottom} (filled : stack.isBare = false) :
    stack.pop.push stack.top = stack := by
  cases stack with
  | mk above => cases above <;> simp_all [isBare, pop, push, top]

theorem isBare_of_top_ne {stack : Stack bottom} (different : stack.top ≠ bottom) :
    stack.isBare = false := by
  cases stack with
  | mk above => cases above <;> simp_all [isBare, top]

end Stack

end PugTokens
