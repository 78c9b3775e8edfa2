import PugTokens.Proofs.Context.Accepted
import PugTokens.Proofs.Context.Obstacles
import PugTokens.Proofs.Layout.Changes
import PugTokens.Proofs.Value.Changes
import PugTokens.Scan.Reachable

namespace PugTokens.Context

/-! # Contexts loaded from any bytes

Any bytes can be loaded that hold three stacks, whatever their entries are: levels that
do not grow, enclosures that no scan would open, and even the mark of the outside among
them.  Above such a mark a scan takes itself to be at the root, where a `?` is remembered
with the size of the enclosures.  That size still fits in a byte: scans never open the
mark of the outside, so each lies where it was loaded, among the first 255 entries
(`Context.Bounded`).
-/

variable {context : Context} {c : Char}

/-! ## Bounds -/

/-- The bounds that loading gives and scanning keeps. -/
structure Bounded (context : Context) : Prop where
  enclosures : ∀ code ∈ context.codes .bracket, code ≤ 255
  ternaries : ∀ size ∈ context.codes .ternary, size ≤ 255
  /-- Marks of the outside lie among the first entries only. -/
  marks : ∀ index, context.enclosures.toList[index]? = some outside → index < 255

/-- Where a scan takes itself to be at the root, the size of the enclosures fits in a
byte, however many there are elsewhere. -/
theorem Bounded.size_enclosures (bounded : context.Bounded) (atRoot : context.atRoot = true) :
    context.enclosures.size ≤ 255 := by
  have top : context.enclosures.top = outside := eq_of_beq atRoot
  have highest := context.enclosures.top_eq_getLast
  rw [List.getLast?_eq_getElem?, context.enclosures.length_toList, top] at highest
  have low := bounded.marks _ highest
  omega

theorem Bounded.enter (bounded : context.Bounded) (code : c.toNat ≤ 255) (inside : c ≠ outside) :
    (context.enter c).Bounded where
  enclosures := by
    intro other member
    simp only [codes, Context.enter, Stack.entries_push, List.map_append] at member
    rcases List.mem_append.mp member with below | same
    · exact bounded.enclosures other below
    · rw [List.mem_singleton.mp same]
      exact code
  ternaries := bounded.ternaries
  marks := by
    intro index marked
    simp only [Context.enter, Stack.toList_push] at marked
    by_cases below : index < context.enclosures.toList.length
    · rw [List.getElem?_append_left below] at marked
      exact bounded.marks index marked
    · rw [List.getElem?_append_right (by omega), List.getElem?_singleton] at marked
      split at marked
      · exact absurd (Option.some.inj marked) inside
      · contradiction

theorem Bounded.leave (bounded : context.Bounded) : context.leave.Bounded where
  enclosures := by
    intro code member
    simp only [codes, Context.leave, Stack.entries_pop] at member
    obtain ⟨other, kept, same⟩ := List.mem_map.mp member
    apply bounded.enclosures
    exact List.mem_map.mpr ⟨other, List.dropLast_subset _ kept, same⟩
  ternaries := bounded.ternaries
  marks := by
    intro index marked
    cases index with
    | zero => omega
    | succ index =>
        apply bounded.marks
        simp only [Context.leave, Stack.toList, Stack.entries_pop, List.getElem?_cons_succ,
          List.getElem?_dropLast] at marked ⊢
        split at marked
        · exact marked
        · contradiction

theorem Bounded.ask (bounded : context.Bounded) (atRoot : context.atRoot = true) :
    context.ask.Bounded where
  enclosures := bounded.enclosures
  ternaries := by
    intro size member
    simp only [codes, Context.ask, Stack.entries_push] at member
    rcases List.mem_append.mp member with below | same
    · exact bounded.ternaries size below
    · rw [List.mem_singleton.mp same]
      exact bounded.size_enclosures atRoot
  marks := bounded.marks

theorem Bounded.answer (bounded : context.Bounded) : context.answer.Bounded where
  enclosures := bounded.enclosures
  ternaries := by
    intro size member
    simp only [codes, Context.answer, Stack.entries_pop] at member
    exact bounded.ternaries size (List.dropLast_subset _ member)
  marks := bounded.marks

theorem Bounded.settle (bounded : context.Bounded) : context.settle.Bounded :=
  ⟨bounded.enclosures, bounded.ternaries, bounded.marks⟩

theorem Bounded.await (bounded : context.Bounded) : context.await.Bounded :=
  ⟨bounded.enclosures, bounded.ternaries, bounded.marks⟩

theorem code_of_isQuote (quote : isQuote c = true) : c.toNat ≤ 255 ∧ c ≠ outside := by
  have listed := CharClass.ofChar_eq_quote_iff.mp (eq_of_beq quote)
  simp only [CharClass.quotes, List.mem_cons, List.not_mem_nil, or_false] at listed
  rcases listed with rfl | rfl | rfl <;> decide

theorem code_of_isOpener (opener : isOpener c = true) : c.toNat ≤ 255 ∧ c ≠ outside := by
  have listed := CharClass.ofChar_eq_opener_iff.mp (eq_of_beq opener)
  simp only [CharClass.openers, CharClass.pairs, List.map_cons, List.map_nil, List.mem_cons,
    List.not_mem_nil, or_false] at listed
  rcases listed with rfl | rfl | rfl <;> decide

theorem Bounded.change {after : Context} (changed : Value.Change c context after)
    (bounded : context.Bounded) : after.Bounded := by
  cases changed with
  | keep => exact bounded
  | settle => exact bounded.settle
  | openQuote quote different =>
      obtain ⟨code, inside⟩ := code_of_isQuote quote
      exact bounded.enter code inside
  | closeQuote => exact bounded.leave
  | openBracket opener plain =>
      obtain ⟨code, inside⟩ := code_of_isOpener opener
      exact bounded.settle.enter code inside
  | closeBracket => exact bounded.settle.leave
  | operator => exact bounded.await
  | ask question atRoot => exact (bounded.ask atRoot).await
  | answer => exact bounded.answer.await

theorem Bounded.scan (bounded : context.Bounded) (valid : KindSet) (view : View) :
    (PugTokens.scan context valid view).context.Bounded := by
  unfold PugTokens.scan
  split
  · rw [Value.scan_eq_run]
    exact Value.run_keeps Bounded.change bounded view.unread
  · split
    · -- The layout touches the levels alone.
      rcases Layout.scan_cases context valid view with
        ⟨_, wide, _, same⟩ | ⟨_, wide, _, same⟩ | ⟨_, same⟩
      all_goals
        rw [same]
        exact ⟨bounded.enclosures, bounded.ternaries, bounded.marks⟩
    · exact bounded

/-! ## Loading -/

theorem bounded_stored {stored : Stored} (fits : stored.Fits) : stored.context.Bounded where
  enclosures := by
    intro code member
    simp only [codes, Stored.context, Stack.entries_ofEntries, List.map_map] at member
    obtain ⟨byte, _, same⟩ := List.mem_map.mp member
    have small := byte.toNat_lt
    rw [Function.comp_apply, toNat_ofNat_byte] at same
    omega
  ternaries := by
    intro size member
    simp only [codes, Stored.context, Stack.entries_ofEntries] at member
    obtain ⟨byte, _, same⟩ := List.mem_map.mp member
    have small := byte.toNat_lt
    omega
  marks := by
    intro index marked
    have present := (List.getElem?_eq_some_iff.mp marked).1
    simp only [Stored.context, Stack.toList, Stack.entries_ofEntries, List.length_cons,
      List.length_map] at present
    have shallow := fits.2.1
    omega

theorem bounded_initial : Bounded .initial := by
  have fits : Stored.Fits ⟨[], [], [], 0⟩ := ⟨by decide, by decide, by decide⟩
  exact bounded_stored fits

theorem Loaded.bounded (loaded : Loaded context) : context.Bounded := by
  induction loaded with
  | decode read =>
      rcases decode_eq_ok read with rfl | ⟨stored, fits, rfl⟩
      · exact bounded_initial
      · exact bounded_stored fits
  | scan valid view _ induction => exact induction.scan valid view
  | dedent _ induction => exact ⟨induction.enclosures, induction.ternaries, induction.marks⟩

theorem kind_ne_dedent_of_meets {valid : KindSet} (value : valid.meets Kind.value = true)
    (view : View) : (PugTokens.scan context valid view).kind ≠ some .dedent := by
  intro closed
  rw [PugTokens.scan, if_pos value, Value.scan_eq_run] at closed
  obtain ⟨shape, _, kind⟩ := Option.map_eq_some_iff.mp closed
  cases shape with
  | script => contradiction
  | literal =>
      simp only [Value.Shape.kind] at kind
      split at kind <;> contradiction

theorem levels_of_dedent {valid : KindSet} {view : View}
    (closed : (PugTokens.scan context valid view).kind = some .dedent) :
    context.levels = (PugTokens.scan context valid view).context.levels.push context.level := by
  cases value : valid.meets Kind.value with
  | true => exact absurd closed (kind_ne_dedent_of_meets value view)
  | false =>
      have effect := PugTokens.scan_effect value context view
      rw [closed] at effect
      generalize (PugTokens.scan context valid view).context = after at effect ⊢
      cases effect with
      | dedent _ _ levels =>
          have top := congrArg Stack.top levels
          rw [Context.level, top]
          exact levels

/-- Whatever bytes a context was loaded from and whatever was scanned since, its stacks
keep their bottoms, a scan that closes a level takes exactly one away, all enclosures
and ternaries fit in a byte, and so storing it never fails because one of them does not. -/
theorem loaded_safe (loaded : Loaded context) :
    (context.levels.toList.head? = some 0 ∧ context.enclosures.toList.head? = some outside ∧
        context.ternaries.toList.head? = some 0) ∧
      (∀ valid view, (PugTokens.scan context valid view).kind = some .dedent →
        ∃ level, context.levels =
          (PugTokens.scan context valid view).context.levels.push level) ∧
      ∀ name, name = .bracket ∨ name = .ternary →
        (∀ code ∈ context.codes name, code ≤ 255) ∧
          ∀ value, context.encode ≠ .error (.tooWide name value) := by
  have bounded := loaded.bounded
  refine ⟨⟨rfl, rfl, rfl⟩, fun valid view closed => ⟨_, levels_of_dedent closed⟩, ?_⟩
  intro name either
  have narrow : ∀ code ∈ context.codes name, code ≤ 255 := by
    rcases either with rfl | rfl
    · exact bounded.enclosures
    · exact bounded.ternaries
  refine ⟨narrow, fun value failed => ?_⟩
  obtain ⟨member, wide⟩ := encode_eq_tooWide failed
  have fits := narrow value member
  omega

/-- Two levels that do not grow, an enclosure that nothing opens and a mark of the
outside above it are loaded; the `?` that is then read is remembered with the size 3, and
a line without indentation closes one level. -/
theorem loaded_safe_mark :
    let context : Context :=
      { levels := ⟨[2, 5]⟩, enclosures := ⟨[outside, 'a']⟩, ternaries := ⟨[3, 7]⟩, pending := true }
    let line : View := ⟨['x'], true⟩
    Loaded context ∧ context.enclosures.toList.head? = some outside ∧
      (PugTokens.scan context .layout line).kind = some .dedent ∧
      (∃ level, context.levels = (PugTokens.scan context .layout line).context.levels.push level) ∧
      (∀ code ∈ context.codes .ternary, code ≤ 255) ∧
      ∀ value, context.encode ≠ .error (.tooWide .ternary value) := by
  intro context line
  have read : decode [3, 5, 2, 3, 97, 0, 2, 7, 9] = .ok
      { levels := ⟨[2, 5]⟩, enclosures := ⟨[outside, 'a']⟩, ternaries := ⟨[7]⟩, pending := true } :=
    rfl
  have loaded : Loaded context := .scan .value ⟨['?'], false⟩ (.decode read)
  have closed : (PugTokens.scan context .layout line).kind = some .dedent := by decide
  obtain ⟨bottoms, closes, fits⟩ := loaded_safe loaded
  obtain ⟨narrow, encodes⟩ := fits .ternary (.inr rfl)
  exact ⟨loaded, bottoms.2.1, closed, closes .layout line closed, narrow, encodes⟩

end PugTokens.Context
