import PugTokens.Proofs.Reading.Draining
import PugTokens.Proofs.Value.Absence
import PugTokens.Reading.Values

namespace PugTokens

/-! # The tokens of an attribute list cover its text

Where a scan finds no value, or one without text, the next character is passed over.
Both happen only in front of a character that may stand between two values, whatever
is open at that point.  So the tokens of a text are laid over it one after the other
(`Laid`), with nothing else between them (`Values.all_covers`).
-/

/-- Whether a character, with a text before it, lies inside a span. -/
def Span.covers (span : Span) (before : List Char) (c : Char) : Bool :=
  decide (span.start.offset ≤ Text.byteSize before) &&
    decide (Text.byteSize (before ++ [c]) ≤ span.stop.offset)

theorem Span.isEmpty_cons (before : List Char) (c : Char) (text : List Char) :
    Span.isEmpty ⟨.after before, .after (before ++ c :: text)⟩ = false := by
  have positive := c.utf8Size_pos
  simp only [isEmpty, Position.after, Text.byteSize_append, Text.byteSize_cons,
    beq_eq_false_iff_ne]
  omega

/-- A character that takes part in a value wherever it stands. -/
def isSignificant (c : Char) : Bool :=
  isWord c || isQuote c || isOpener c || (isRootOperator c && c != ':')

theorem isSignificant_of_separates {c : Char} (between : Value.separates c = true) :
    isSignificant c = false := by
  simp only [Value.separates, isBlank, isCloser, Bool.or_eq_true, beq_iff_eq] at between
  simp only [isSignificant, isWord, isQuote, isOpener, isRootOperator]
  rcases between with (((blank | closer) | comma) | colon) | other
  · simp [blank]
  · simp [closer]
  · subst comma
    decide
  · subst colon
    decide
  · simp [other]

/-! ## Spans laid over a text -/

/-- Spans that follow one another over the text behind `before`, with characters
between them that may stand between two values. -/
inductive Laid : List Char → List Char → List Span → Prop
  | done (before : List Char) : Laid before [] []
  | gap {before rest : List Char} {c : Char} {spans : List Span} :
      Value.separates c = true → Laid (before ++ [c]) rest spans →
      Laid before (c :: rest) spans
  | span {before text rest : List Char} {spans : List Span} :
      Laid (before ++ text) rest spans →
      Laid before (text ++ rest) (⟨.after before, .after (before ++ text)⟩ :: spans)

namespace Laid

variable {before rest : List Char} {spans : List Span}

theorem start_le (laid : Laid before rest spans) :
    ∀ span ∈ spans, Text.byteSize before ≤ span.start.offset := by
  induction laid with
  | done => nofun
  | gap _ _ induction =>
      intro span member
      have later := induction span member
      rw [Text.byteSize_append] at later
      omega
  | span _ induction =>
      intro span member
      rcases List.mem_cons.mp member with rfl | member
      · exact Nat.le_refl _
      · have later := induction span member
        rw [Text.byteSize_append] at later
        omega

theorem forward (laid : Laid before rest spans) :
    ∀ span ∈ spans, span.start.offset ≤ span.stop.offset := by
  induction laid with
  | done => nofun
  | gap _ _ induction => exact induction
  | @span before text _ _ _ induction =>
      refine List.forall_mem_cons.mpr ⟨?_, induction⟩
      change Text.byteSize before ≤ Text.byteSize (before ++ text)
      rw [Text.byteSize_append]
      omega

theorem pairwise (laid : Laid before rest spans) :
    spans.Pairwise fun earlier later => earlier.stop.offset ≤ later.start.offset := by
  induction laid with
  | done => exact .nil
  | gap _ _ induction => exact induction
  | span later induction => exact .cons later.start_le induction

theorem countP_covers_before {earlier : List Char} {c : Char}
    (laid : Laid before rest spans)
    (outside : Text.byteSize (earlier ++ [c]) ≤ Text.byteSize before) :
    spans.countP (·.covers earlier c) = 0 := by
  refine List.countP_eq_zero.mpr fun span member covered => ?_
  have start := laid.start_le span member
  have positive := c.utf8Size_pos
  simp only [Span.covers, Bool.and_eq_true, decide_eq_true_eq] at covered
  simp only [Text.byteSize_append, Text.byteSize_cons, Text.byteSize_nil] at outside
  omega

/-- A character of two joined texts lies in the second or in the first. -/
theorem cut_at {text rest front back : List Char} {c : Char}
    (split : text ++ rest = front ++ c :: back) :
    (∃ inner, front = text ++ inner ∧ rest = inner ++ c :: back) ∨
      ∃ inner, text = front ++ c :: inner := by
  rcases List.append_eq_append_iff.mp split with
    ⟨inner, behind, same⟩ | ⟨inner, within, same⟩
  · exact .inl ⟨inner, behind, same⟩
  · cases inner with
    | nil => exact .inl ⟨[], by rw [within]; simp, same.symm⟩
    | cons d inner =>
        obtain ⟨rfl, _⟩ := List.cons.inj same
        exact .inr ⟨inner, within⟩

/-- A character lies in one span, or in none if it may stand between two values.
The induction is on the spans, of which the first holds the character or ends before
it. -/
theorem countP_covers (laid : Laid before rest spans) {front back : List Char} {c : Char}
    (split : rest = front ++ c :: back) :
    spans.countP (·.covers (before ++ front) c) = 1 ∨
      spans.countP (·.covers (before ++ front) c) = 0 ∧ Value.separates c = true := by
  induction laid generalizing front with
  | done => simp at split
  | @gap before rest d spans between later induction =>
      cases front with
      | nil =>
          obtain ⟨rfl, rfl⟩ := List.cons.inj split
          rw [List.append_nil]
          exact .inr ⟨later.countP_covers_before (Nat.le_refl _), between⟩
      | cons e front =>
          obtain ⟨rfl, rfl⟩ := List.cons.inj split
          have same := induction rfl
          rwa [List.append_assoc, List.singleton_append] at same
  | @span before text rest spans later induction =>
      have positive := c.utf8Size_pos
      rcases cut_at split with ⟨inner, rfl, same⟩ | ⟨inner, rfl⟩
      · have counted := induction same
        rw [List.append_assoc] at counted
        have ended : Span.covers ⟨.after before, .after (before ++ text)⟩
            (before ++ (text ++ inner)) c = false := by
          simp only [Span.covers, Position.after, Text.byteSize_append, Text.byteSize_cons,
            Text.byteSize_nil, Bool.and_eq_false_iff, decide_eq_false_iff_not]
          omega
        rw [List.countP_cons_of_neg (by simp [ended])]
        exact counted
      · have inside : Span.covers ⟨.after before, .after (before ++ (front ++ c :: inner))⟩
            (before ++ front) c = true := by
          simp only [Span.covers, Position.after, Text.byteSize_append, Text.byteSize_cons,
            Text.byteSize_nil, Bool.and_eq_true, decide_eq_true_eq]
          omega
        have others : spans.countP (·.covers (before ++ front) c) = 0 := by
          apply later.countP_covers_before
          simp only [Text.byteSize_append, Text.byteSize_cons, Text.byteSize_nil]
          omega
        rw [List.countP_cons, others, if_pos inside]
        exact .inl rfl

end Laid

namespace Values

variable {reading : Reading} {before rest : List Char} {valid : KindSet} {c : Char}

/-! ## One token after the other -/

theorem next_end (stands : reading.Between before []) :
    next ⟨reading, valid⟩ = .ok (none, ⟨reading, valid⟩) := by
  unfold next
  rw [stands.unread]
  rfl

theorem next_pass (stands : reading.Between before (c :: rest))
    (missing : reading.tokenAt valid (c :: rest) = (none, reading)) :
    next ⟨reading, valid⟩ = next ⟨reading.pass [c], valid⟩ := by
  have passed : (reading.pass [c]).Between (before ++ [c]) rest := stands.pass
  unfold next
  simp only [stands.unread, passed.unread, bind, Except.bind]
  rw [search, missing]

theorem next_token {token : Token} {after : Reading}
    (stands : reading.Between before (c :: rest))
    (found : reading.tokenAt valid (c :: rest) = (some token, after))
    (filled : token.span.isEmpty = false) :
    next ⟨reading, valid⟩ = .ok (some token, ⟨after, valid⟩) := by
  unfold next
  simp only [stands.unread, bind, Except.bind]
  rw [search, found]
  simp only [filled]
  rfl

theorem next_bump {token : Token} {after passed : Reading} {d : Option Char}
    (stands : reading.Between before (c :: rest))
    (found : reading.tokenAt valid (c :: rest) = (some token, after))
    (empty : token.span.isEmpty = true) (bumped : after.bump = .ok (d, passed)) :
    next ⟨reading, valid⟩ = .ok (some token, ⟨passed, valid⟩) := by
  unfold next
  simp only [stands.unread, bind, Except.bind]
  rw [search, found]
  simp only [empty, if_true, bumped]
  rfl

theorem next_empty {token : Token} {after : Reading}
    (stands : reading.Between before (c :: rest))
    (found : reading.tokenAt valid (c :: rest) = (some token, after))
    (empty : token.span.isEmpty = true) (stays : after.Between before (c :: rest)) :
    next ⟨reading, valid⟩ = .ok (some token, ⟨after.pass [c], valid⟩) :=
  next_bump stands found empty stays.bump

/-- A value that has text is the next answer. -/
theorem next_filled (asked : valid.meets Kind.value = true) (stands : reading.Between before rest)
    {shape : Value.Shape} {text : List Char}
    (found : (Value.run { context := reading.context } rest).last.found = some shape)
    (covered : Move.textOf (Value.run { context := reading.context } rest).moves = text)
    (filled : text ≠ []) :
    next ⟨reading, valid⟩ =
      .ok (some ⟨shape.kind valid, ⟨.after before, .after (before ++ text)⟩⟩,
        ⟨⟨reading.source, .after (before ++ text),
          (Value.run { context := reading.context } rest).last.context⟩, valid⟩) := by
  have token := stands.tokenAt_value asked found
  dsimp only at token
  rw [covered] at token
  obtain ⟨d, behind, rfl⟩ := List.exists_cons_of_ne_nil filled
  cases rest with
  | nil => cases covered
  | cons c rest => exact next_token stands token (Span.isEmpty_cons before d behind)

/-- One without text is it too, and the next character is passed over with it. -/
theorem next_hollow (asked : valid.meets Kind.value = true)
    (stands : reading.Between before (c :: rest)) {shape : Value.Shape}
    (found : (Value.run { context := reading.context } (c :: rest)).last.found = some shape)
    (hollow : Move.textOf (Value.run { context := reading.context } (c :: rest)).moves = []) :
    next ⟨reading, valid⟩ =
      .ok (some ⟨shape.kind valid, .point (.after before)⟩,
        ⟨⟨reading.source, .after (before ++ [c]),
          (Value.run { context := reading.context } (c :: rest)).last.context⟩, valid⟩) := by
  have token := stands.tokenAt_value asked found
  dsimp only at token
  rw [hollow, List.append_nil] at token
  have stays : Reading.Between ⟨reading.source, .after before,
      (Value.run { context := reading.context } (c :: rest)).last.context⟩ before (c :: rest) :=
    ⟨stands.source, rfl⟩
  have passed : (Reading.pass _ [c]).Between (before ++ [c]) rest := stays.pass
  rw [next_empty stands token (beq_self_eq_true _) stays, ← passed.position]
  rfl

/-- From here on the tokens are laid over the text that is left, there are no more of
them than it has characters, and behind the last of them the text ends. -/
def Covers (values : Values) (before rest : List Char) : Prop :=
  ∃ answers last final,
    Reading.Yields next values answers last ∧
    next last = .ok (none, ⟨final, values.valid⟩) ∧ final.Between (before ++ rest) [] ∧
    Laid before rest (answers.map (·.1.span)) ∧ answers.length ≤ rest.length

theorem Covers.gap {values : Values} (later : Covers values (before ++ [c]) rest)
    (between : Value.separates c = true) (stands : reading.Between before (c :: rest))
    (missing : reading.tokenAt values.valid (c :: rest) = (none, reading))
    (passed : values.reading = reading.pass [c]) :
    Covers ⟨reading, values.valid⟩ before (c :: rest) := by
  obtain ⟨answers, last, final, run, finished, ends, laid, few⟩ := later
  have same := next_pass stands missing
  rw [← passed] at same
  obtain ⟨stop, run, finished⟩ := run.congr finished same
  rw [List.append_assoc] at ends
  exact ⟨answers, stop, final, run, finished, ends, .gap between laid, Nat.le_succ_of_le few⟩

theorem Covers.token {values after : Values} {kind : Kind} {text : List Char}
    (later : Covers after (before ++ text) rest)
    (found : next values =
      .ok (some ⟨kind, ⟨.after before, .after (before ++ text)⟩⟩, after))
    (same : after.valid = values.valid) (filled : text ≠ []) :
    Covers values before (text ++ rest) := by
  obtain ⟨answers, last, final, run, finished, ends, laid, few⟩ := later
  rw [same] at finished
  rw [List.append_assoc] at ends
  refine ⟨_, last, final, .cons found run, finished, ends, .span laid, ?_⟩
  have positive := List.length_pos_iff.mpr filled
  rw [List.length_cons, List.length_append]
  omega

theorem Covers.point {values after : Values} {kind : Kind}
    (later : Covers after (before ++ [c]) rest)
    (found : next values = .ok (some ⟨kind, .point (.after before)⟩, after))
    (same : after.valid = values.valid) (between : Value.separates c = true) :
    Covers values before (c :: rest) := by
  obtain ⟨answers, last, final, run, finished, ends, laid, few⟩ := later
  rw [same] at finished
  rw [List.append_assoc] at ends
  have point : Laid before ([] ++ c :: rest)
      (⟨.after before, .after (before ++ [])⟩ :: answers.map (·.1.span)) := by
    apply Laid.span
    rw [List.append_nil]
    exact .gap between laid
  rw [List.append_nil] at point
  exact ⟨_, last, final, .cons found run, finished, ends, point, Nat.succ_le_succ few⟩

/-- The induction is on the length of the text that is left, some of which every step
passes over. -/
theorem covers (asked : valid.meets Kind.value = true)
    (stands : reading.Between before rest) : Covers ⟨reading, valid⟩ before rest := by
  induction size : rest.length using Nat.strongRecOn generalizing reading before rest with
  | ind size induction =>
  subst size
  cases rest with
  | nil =>
      refine ⟨[], _, reading, .refl _, next_end stands, ?_, .done before, Nat.le_refl 0⟩
      rwa [List.append_nil]
  | cons c rest =>
      let extent := Value.run { context := reading.context } (c :: rest)
      cases found : extent.last.found with
      | none =>
          have missing := Reading.tokenAt_value_none asked found
          have between := Value.separates_of_idle (.inl found)
          have passed : (reading.pass [c]).Between (before ++ [c]) rest := stands.pass
          have later := induction rest.length (Nat.lt_succ_self _) passed rfl
          exact later.gap between stands missing rfl
      | some shape =>
          cases covered : Move.textOf extent.moves with
          | nil =>
              -- The token has no text: the scan stopped in front of the first character,
              -- which is passed over.
              have between := Value.separates_of_idle (.inr covered)
              have hollow := next_hollow asked stands found covered
              have passed : Reading.Between _ (before ++ [c]) rest :=
                Reading.Between.behind stands extent.last.context
              have later := induction rest.length (Nat.lt_succ_self _) passed rfl
              exact later.point hollow rfl between
          | cons d text =>
              have filled := next_filled asked stands found covered nofun
              obtain ⟨behind, split⟩ :=
                Value.exists_run_append { context := reading.context } (c :: rest)
              change c :: rest = Move.textOf extent.moves ++ behind at split
              rw [covered] at split
              have shorter : behind.length < (c :: rest).length := by
                rw [split, List.length_append, List.length_cons]
                omega
              rw [split] at stands ⊢
              have later :=
                induction behind.length shorter (stands.behind extent.last.context) rfl
              exact later.token filled rfl nofun

/-- All tokens of an attribute list come one behind the other, the last place is the
end of the text, and a character lies in one of them unless it may stand between two
values. -/
theorem all_covers (source : List Char) (asked : valid.meets Kind.value = true) :
    ∃ tokens last, all source valid = .ok (tokens, last) ∧ last.next = .ok (none, last) ∧
      last.reading.position = .after source ∧
      let spans := tokens.map (·.1.span)
      (∀ span ∈ spans, span.start.offset ≤ span.stop.offset) ∧
      spans.Pairwise (fun earlier later => earlier.stop.offset ≤ later.start.offset) ∧
      ∀ before c rest, source = before ++ c :: rest →
        let count := spans.countP (·.covers before c)
        count ≤ 1 ∧ (count = 0 → Value.separates c = true) ∧
          (isSignificant c = true → count = 1) := by
  have stands := Reading.between_ofText source
  obtain ⟨tokens, last, final, run, finished, ends, laid, few⟩ := covers asked stands
  have drained := run.drain finished (Nat.lt_succ_of_le few)
  refine ⟨tokens, ⟨final, valid⟩, drained, next_end ends, ends.position, laid.forward,
    laid.pairwise, fun before c rest split => ?_⟩
  intro count
  have counted : count = 1 ∨ count = 0 ∧ Value.separates c = true := laid.countP_covers split
  rcases counted with one | ⟨none, between⟩
  · omega
  · refine ⟨by omega, fun _ => between, fun significant => ?_⟩
    rw [isSignificant_of_separates between] at significant
    contradiction

/-- In `a?b,'é` the comma is between two tokens, and the quote that is never closed
begins one. -/
theorem all_covers_comma :
    KindSet.value.meets Kind.value = true ∧
      ∃ tokens last, all ['a', '?', 'b', ',', '\x27', 'é'] .value = .ok (tokens, last) ∧
        last.reading.position = ⟨7, 1, 6⟩ ∧
        (tokens.map (·.1.span)).countP (·.covers ['a', '?', 'b'] ',') ≤ 1 ∧
        (tokens.map (·.1.span)).countP (·.covers ['a', '?', 'b', ','] '\x27') = 1 := by
  have asked : KindSet.value.meets Kind.value = true := by decide
  obtain ⟨tokens, last, drained, _, ends, _, _, covered⟩ :=
    all_covers ['a', '?', 'b', ',', '\x27', 'é'] asked
  have comma := covered ['a', '?', 'b'] ',' ['\x27', 'é'] rfl
  have quote := covered ['a', '?', 'b', ','] '\x27' ['é'] rfl
  exact ⟨asked, tokens, last, drained, ends, comma.1, quote.2.2 (by decide)⟩

end Values

end PugTokens
