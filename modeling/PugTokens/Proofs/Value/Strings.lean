import PugTokens.Proofs.Value.Shapes

namespace PugTokens

/-! # What a string holds outside of its quotes

A value that has begun as a literal stays one until a bracket, an operator or a template
quote comes.  So outside of its quoted runs a string holds blanks and words, and no word
stands in front of the first run, where it would begin a script.  A word behind a run
changes nothing, and there a string can hold one (`Value.scan_string_outside`).
-/

namespace Value

/-- Belongs to a quoted run, as one of its quotes or as what stands between them. -/
def inRun (read : Progress × Char) : Bool :=
  isQuote read.1.context.enclosures.top || isQuote read.2

variable {start : Progress} {c : Char} {ahead : Option Char} {text : List Char}

theorem takes_of_mem_trace {read : Progress × Char} (escapes : EscapesQuoted start)
    (member : read ∈ trace start text) :
    EscapesQuoted read.1 ∧ ∃ ahead, (step read.1 read.2 ahead).takes = true := by
  induction text generalizing start with
  | nil => exact absurd member List.not_mem_nil
  | cons c rest induction =>
      have after := escapesQuoted_step start c rest.head?
      have own : (step start c rest.head?).takes = true →
          EscapesQuoted start ∧ ∃ ahead, (step start c ahead).takes = true :=
        fun takes => ⟨escapes, _, takes⟩
      rw [trace] at member
      cases stepped : step start c rest.head? with
      | stop last =>
          rw [stepped] at member
          exact absurd member List.not_mem_nil
      | go next moves =>
          rw [stepped] at member after own
          rcases List.mem_cons.mp member with rfl | later
          · exact own rfl
          · exact induction after later
      | close last moves =>
          rw [stepped] at member own
          obtain rfl := List.mem_singleton.mp member
          exact own rfl

/-- What a value takes outside of quoted runs, without becoming a script by it, is a blank
or a word. -/
theorem isBlank_or_isWord_of_takes (escapes : EscapesQuoted start)
    (outside : inRun (start, c) = false) (takes : (step start c ahead).takes = true)
    (harmless : spoils (start, c) = false) : isBlank c = true ∨ isWord c = true := by
  rw [inRun, Bool.or_eq_false_iff] at outside
  obtain ⟨top, plain⟩ := outside
  have settled : start.phase ≠ .escape := by
    intro escaping
    rw [escapes escaping] at top
    contradiction
  have unquoted : start.context.quotes c = false := quotes_of_top top c
  have unmarked : isMark c = false := (spoils_eq_false_iff.mp harmless).2 unquoted
  rw [step_of_class settled unquoted, stepClass] at takes
  rw [isMark_eq_contains] at unmarked
  cases ofClass : CharClass.ofChar c with
  | word => exact .inr (beq_iff_eq.mpr ofClass)
  | blank => exact .inl (beq_iff_eq.mpr ofClass)
  | quote =>
      rw [isQuote, ofClass] at plain
      contradiction
  | other =>
      rw [ofClass] at takes
      contradiction
  | opener | closer | operator | comma =>
      rw [ofClass] at unmarked
      contradiction

theorem inRun_of_opensLiteral {read : Progress × Char} (opens : opensLiteral read = true) :
    inRun read = true := by
  simp only [opensLiteral, quoted, Context.quotes, Bool.or_eq_true, Bool.and_eq_true] at opens
  rw [inRun, Bool.or_eq_true]
  rcases opens with ⟨quotation, _⟩ | ⟨⟨top, _⟩, _⟩
  · exact .inr quotation
  · exact .inl top

/-- Where the first character that is more than a blank opens a literal, all others stand
behind a part of a quoted run. -/
theorem exists_inRun_before {front back : List (Progress × Char)}
    {first read : Progress × Char}
    (begins : (front ++ read :: back).find? tells = some first)
    (opens : opensLiteral first = true) (telling : tells read = true)
    (outside : inRun read = false) : ∃ earlier ∈ front, inRun earlier = true := by
  have inside := inRun_of_opensLiteral opens
  rw [List.find?_append, List.find?_cons_of_pos telling] at begins
  cases found : front.find? tells with
  | none =>
      rw [found, Option.none_or, Option.some.injEq] at begins
      rw [begins, inside] at outside
      contradiction
  | some earlier =>
      rw [found, Option.some_or, Option.some.injEq] at begins
      rw [← begins] at inside
      exact ⟨earlier, List.mem_of_find?_eq_some found, inside⟩

/-- Outside of its quoted runs a string holds nothing but blanks and, behind the first of
the runs, words. -/
theorem scan_string_outside {valid : KindSet} (strings : .string ∈ valid) (context : Context)
    (view : View) (string : (PugTokens.scan context valid view).kind = some .string) :
    let read := trace { context } view.unread
    (PugTokens.scan context valid view).consumed = read.map Prod.snd ∧
      ∀ front char back, read = front ++ char :: back → inRun char = false →
        isBlank char.2 = true ∨
          isWord char.2 = true ∧ ∃ earlier ∈ front, inRun earlier = true := by
  intro read
  let start : Progress := { context }
  have asked : valid.meets Kind.value = true :=
    List.any_eq_true.mpr ⟨.string, by decide, strings⟩
  rw [Reading.scan_value asked] at string ⊢
  refine ⟨(map_snd_trace start view.unread).symm, fun front char back split outside => ?_⟩
  have escapes : Escapes start := ⟨nofun, nofun⟩
  have literal : (run start view.unread).last.found = some .literal :=
    (map_kind_eq_string_iff.mp string).2
  obtain ⟨_, ⟨first, begins, opens⟩, harmless⟩ :=
    (found_eq_literal_iff escapes rfl view.unread).mp literal
  have member : char ∈ trace start view.unread := by
    change char ∈ read
    rw [split]
    exact List.mem_append_cons_self
  obtain ⟨escapesHere, ahead, takes⟩ := takes_of_mem_trace escapes.quoted member
  rcases isBlank_or_isWord_of_takes escapesHere outside takes (harmless char member) with
    blank | word
  · exact .inl blank
  · change read.find? tells = some first at begins
    rw [split] at begins
    have telling : tells char = true := by
      have ofClass : CharClass.ofChar char.2 = .word := eq_of_beq word
      simp [tells, isBlank, ofClass]
    exact .inr ⟨word, exists_inRun_before begins opens telling outside⟩

/-- In `'a'b` the `b` stands behind the run. -/
theorem scan_string_outside_word :
    let view : View := ⟨['\x27', 'a', '\x27', 'b'], false⟩
    let read := trace { context := .initial } view.unread
    Kind.string ∈ KindSet.value ∧ (PugTokens.scan .initial .value view).kind = some .string ∧
      read = read.take 3 ++ [({ context := .initial, found := some .literal }, 'b')] ∧
      inRun ({ context := .initial, found := some .literal }, 'b') = false ∧
      (isBlank 'b' = true ∨ isWord 'b' = true ∧ ∃ earlier ∈ read.take 3, inRun earlier = true) := by
  intro view read
  have strings : Kind.string ∈ KindSet.value := by decide
  have string : (PugTokens.scan .initial .value view).kind = some .string := by decide
  have split : read = read.take 3 ++ [({ context := .initial, found := some .literal }, 'b')] := by
    decide
  have outside : inRun ({ context := .initial, found := some .literal }, 'b') = false := by decide
  obtain ⟨_, holds⟩ := scan_string_outside strings .initial view string
  exact ⟨strings, string, split, outside, holds _ _ [] split outside⟩

/-- So `'a'b` is a string, with nothing open before it, that has more than blanks outside of
its quotes. -/
theorem scan_string_word :
    let view : View := ⟨['\x27', 'a', '\x27', 'b'], false⟩
    let read := trace { context := .initial } view.unread
    Context.initial.enclosures = .bare ∧
      (PugTokens.scan .initial .value view).kind = some .string ∧
      (PugTokens.scan .initial .value view).consumed = read.map Prod.snd ∧
      ¬ ∀ char ∈ read, inRun char = false → isBlank char.2 = true := by
  decide

end Value

end PugTokens
