import PugTokens.Proofs.Context.Loaded
import PugTokens.Proofs.Context.RoundTrip
import PugTokens.Proofs.Outline.ByLine
import PugTokens.Proofs.Reading.Covering
import PugTokens.Proofs.Reader.Scanning
import PugTokens.Proofs.Value.Commas

namespace PugTokens

/-! # Behind which tokens a context can be stored

The outline of a document opens nothing but levels, and attribute values open no level.
So behind a token of an outline only the levels can be what does not fit, in number or
in width.  Behind a value only the number of the enclosures or of the ternaries can be
too large, since all that scanning leaves among them fits in a byte (`Context.Bounded`).
-/

namespace Context

variable {context : Context}

/-- The levels can be stored, of which the bottom is one. -/
def LevelsFit (context : Context) : Prop :=
  context.levels.size ≤ 255 ∧ ∀ level ∈ context.levels.toList, level ≤ 255

/-- There are no more enclosures or ternaries above the bottoms than can be stored. -/
def NestingFits (context : Context) : Prop :=
  context.enclosures.entries.length ≤ 254 ∧ context.ternaries.entries.length ≤ 254

/-- What an outline leaves. -/
structure OnlyLevels (context : Context) : Prop where
  enclosures : context.enclosures = .bare
  ternaries : context.ternaries = .bare

/-- What attribute values leave. -/
structure NoLevels (context : Context) : Prop where
  levels : context.levels = .bare
  bounded : context.Bounded

theorem OnlyLevels.scan (only : context.OnlyLevels) (view : View) :
    (PugTokens.scan context .layout view).context.OnlyLevels := by
  rw [Reading.scan_layout]
  rcases Layout.scan_cases context .layout view with
    ⟨_, wide, _, same⟩ | ⟨_, wide, _, same⟩ | ⟨_, same⟩
  all_goals
    rw [same]
    exact ⟨only.enclosures, only.ternaries⟩

theorem OnlyLevels.storable_iff (only : context.OnlyLevels) :
    context.Storable ↔ context.LevelsFit := by
  have count : context.levels.size = context.levels.entries.length + 1 :=
    context.levels.length_toList.symm
  constructor
  · intro storable
    obtain ⟨shallow, narrow⟩ := storable .indent
    change context.levels.entries.length < 255 at shallow
    exact ⟨by omega, List.forall_mem_cons.mpr ⟨Nat.zero_le 255, narrow⟩⟩
  · intro fits name
    cases name with
    | indent =>
        have shallow : context.levels.entries.length < 255 := by
          have size := fits.1
          omega
        exact ⟨shallow, (List.forall_mem_cons.mp fits.2).2⟩
    | bracket =>
        rw [codes, only.enclosures]
        exact ⟨by decide, List.forall_mem_nil _⟩
    | ternary =>
        rw [codes, only.ternaries]
        exact ⟨by decide, List.forall_mem_nil _⟩

theorem NoLevels.scan (flat : context.NoLevels) {valid : KindSet}
    (asked : valid.meets Kind.value = true) (view : View) :
    (PugTokens.scan context valid view).context.NoLevels where
  levels := by
    rw [Reading.scan_value asked]
    exact (Value.levels_run { context } view.unread).trans flat.levels
  bounded := flat.bounded.scan valid view

theorem NoLevels.storable_iff (flat : context.NoLevels) :
    context.Storable ↔ context.NestingFits := by
  constructor
  · intro storable
    have enclosures := (storable .bracket).1
    rw [codes, List.length_map] at enclosures
    exact ⟨Nat.le_of_lt_succ enclosures, Nat.le_of_lt_succ (storable .ternary).1⟩
  · intro fits name
    cases name with
    | indent =>
        rw [codes, flat.levels]
        exact ⟨by decide, List.forall_mem_nil _⟩
    | bracket =>
        refine ⟨?_, flat.bounded.enclosures⟩
        rw [codes, List.length_map]
        exact Nat.lt_succ_of_le fits.1
    | ternary => exact ⟨Nat.lt_succ_of_le fits.2, flat.bounded.ternaries⟩

end Context

/-! ## One answer -/

namespace Reading

variable {source before rest : List Char} {reading : Reading} {Kept : Context → Prop}

/-- The reading stands at a true place of the text, with a context of one sort. -/
structure Holds (source : List Char) (Kept : Context → Prop) (reading : Reading) : Prop where
  stands : Stands source reading
  kept : Kept reading.context

theorem Between.holds_tokenAt {valid : KindSet} (stands : reading.Between before rest)
    (scans : ∀ {context}, Kept context → ∀ view,
      Kept (PugTokens.scan context valid view).context)
    (kept : Kept reading.context) :
    (reading.tokenAt valid rest).2.Holds (before ++ rest) Kept := by
  refine ⟨stands.tokenAt valid, ?_⟩
  unfold Reading.tokenAt
  dsimp only
  split
  · exact kept
  · exact scans kept (reading.view rest)

theorem Between.holds_closeLevel (stands : reading.Between before rest)
    (dedents : Kept reading.context.dedent) (kept : Kept reading.context) :
    reading.closeLevel.2.Holds (before ++ rest) Kept := by
  unfold Reading.closeLevel
  split
  · exact ⟨stands.stands, kept⟩
  · exact ⟨⟨before, rest, ⟨stands.source, stands.position⟩, rfl⟩, dedents⟩

theorem Holds.bump (holds : reading.Holds source Kept) :
    ∃ c after, reading.bump = .ok (c, after) ∧ after.Holds source Kept := by
  obtain ⟨⟨before, rest, between, rfl⟩, kept⟩ := holds
  unfold Reading.bump
  rw [between.unread]
  cases rest with
  | nil => exact ⟨none, reading, rfl, between.stands, kept⟩
  | cons c rest =>
      have passed : Stands (before ++ c :: rest) (reading.pass [c]) := between.pass_stands
      exact ⟨some c, reading.pass [c], rfl, passed, kept⟩

end Reading

namespace Outline

open Reading (Holds)

variable {source before rest : List Char} {outline after : Outline} {reading : Reading}
variable {token : Token} {finished : Bool}

theorem close_holds (between : reading.Between before rest) (only : reading.context.OnlyLevels)
    (closed : close ⟨reading, finished⟩ = (some token, after)) :
    token.span.Sound (before ++ rest) ∧
      after.reading.Holds (before ++ rest) Context.OnlyLevels := by
  have behind := between.holds_closeLevel ⟨only.enclosures, only.ternaries⟩ only
  unfold close at closed
  cases found : reading.closeLevel with
  | mk answer left =>
      rw [found] at closed behind
      cases closed
      exact ⟨between.sound_closeLevel (congrArg Prod.fst found), behind⟩

/-- The rest of a line is what comes before the next line break. -/
theorem exists_line (rest : List Char) :
    ∃ line behind, rest = line ++ behind ∧ '\n' ∉ line ∧ EndsLine behind := by
  refine ⟨rest.takeWhile (· ≠ '\n'), rest.dropWhile (· ≠ '\n'),
    List.takeWhile_append_dropWhile.symm, ?_, ?_⟩
  · intro member
    simpa using List.all_eq_true.mp List.all_takeWhile _ member
  · intro c first
    have stopped := List.head?_dropWhile_not (· ≠ '\n') rest
    rw [first] at stopped
    simpa using stopped

/-- A token is found here or behind the rest of the line, or a level is closed there. -/
theorem next_holds (holds : outline.reading.Holds source Context.OnlyLevels)
    (answered : next outline = .ok (some token, after)) :
    token.span.Sound source ∧ after.reading.Holds source Context.OnlyLevels := by
  obtain ⟨reading, finished⟩ := outline
  obtain ⟨⟨before, rest, between, rfl⟩, only⟩ := holds
  cases finished with
  | true =>
      rw [next_of_finished, Except.ok.injEq] at answered
      exact close_holds between only answered
  | false =>
      have here := between.holds_tokenAt Context.OnlyLevels.scan only
      rcases between.spans_tokenAt .layout with settled | ⟨other, moved, found, _⟩
      · obtain ⟨line, behind, rfl, inner, ends⟩ := exists_line rest
        have passed := between.pass
        have there := passed.holds_tokenAt Context.OnlyLevels.scan only
        rw [next_of_settled between inner ends settled] at answered
        rw [← List.append_assoc]
        rcases found : (reading.pass line).tokenAt .layout behind with ⟨_ | other, moved⟩
        · rw [found, Except.ok.injEq] at answered
          exact close_holds passed only answered
        · rw [found] at answered there
          cases answered
          exact ⟨passed.sound_tokenAt (congrArg Prod.fst found), there⟩
      · rw [next_of_token between found] at answered
        cases answered
        rw [found] at here
        exact ⟨between.sound_tokenAt (congrArg Prod.fst found), here⟩

theorem next_of_bare (done : outline.finished = true)
    (bare : outline.reading.context.levels = .bare) : next outline = .ok (none, outline) := by
  obtain ⟨reading, finished⟩ := outline
  subst done
  have nothing : reading.context.levels.isBare = true := by
    rw [bare]
    rfl
  rw [next_of_finished, close, Reading.closeLevel, if_pos nothing]

/-- The outline of a text comes to an end.  Each of its tokens is a part of the text, and
nothing but levels is open behind it. -/
theorem exists_all (source : List Char) :
    ∃ tokens last, all source = .ok (tokens, last) ∧ last.next = .ok (none, last) ∧
      ∀ answer ∈ tokens,
        answer.1.span.Sound source ∧ answer.2.reading.context.OnlyLevels := by
  obtain ⟨tokens, last, final, run, finished, _, enough, done, bare⟩ := exists_run source
  have holds : (Reading.ofText source).Holds source Context.OnlyLevels :=
    ⟨(Reading.between_ofText source).stands, rfl, rfl⟩
  have kept := run.keeps next_holds holds
  exact ⟨tokens, final, run.drain finished enough, next_of_bare done bare,
    fun answer member => ⟨(kept answer member).1, (kept answer member).2.kept⟩⟩

end Outline

namespace Values

open Reading (Holds)

variable {source before rest : List Char} {reading : Reading} {values after : Values}
variable {valid : KindSet} {token : Token}

theorem search_holds (asked : valid.meets Kind.value = true)
    (between : reading.Between before rest) (flat : reading.context.NoLevels) :
    (search valid reading rest).2.Holds (before ++ rest) Context.NoLevels ∧
      ∀ token ∈ (search valid reading rest).1, token.span.Sound (before ++ rest) := by
  induction rest generalizing reading before with
  | nil => exact ⟨⟨between.stands, flat⟩, nofun⟩
  | cons c rest induction =>
      have here := between.holds_tokenAt (fun flat => flat.scan asked) flat
      rw [search]
      rcases between.spans_tokenAt valid with missing | ⟨token, moved, found, _⟩
      · have passed : (reading.pass [c]).Between (before ++ [c]) rest := between.pass
        have later := induction passed flat
        rw [missing]
        rwa [List.append_assoc] at later
      · rw [found] at here ⊢
        refine ⟨here, fun other same => ?_⟩
        cases same
        exact between.sound_tokenAt (congrArg Prod.fst found)

theorem next_holds (asked : valid.meets Kind.value = true)
    (holds : values.valid = valid ∧ values.reading.Holds source Context.NoLevels)
    (answered : next values = .ok (some token, after)) :
    token.span.Sound source ∧ after.valid = valid ∧
      after.reading.Holds source Context.NoLevels := by
  obtain ⟨reading, accepted⟩ := values
  obtain ⟨rfl, ⟨before, rest, between, rfl⟩, flat⟩ := holds
  obtain ⟨behind, sound⟩ := search_holds asked between flat
  rw [next, between.unread] at answered
  dsimp only [bind, Except.bind] at answered behind sound
  generalize search accepted reading rest = result at answered behind sound
  obtain ⟨_ | other, moved⟩ := result
  · cases answered
  · have found := sound other rfl
    dsimp only at answered behind
    split at answered
    · obtain ⟨c, passed, bumped, passedHolds⟩ := behind.bump
      rw [bumped] at answered
      cases answered
      exact ⟨found, rfl, passedHolds⟩
    · cases answered
      exact ⟨found, rfl, behind⟩

/-- The values of a text come to an end.  Each token is a part of the text, and no level is
open behind it. -/
theorem exists_all (source : List Char) (asked : valid.meets Kind.value = true) :
    ∃ tokens last, all source valid = .ok (tokens, last) ∧ last.next = .ok (none, last) ∧
      ∀ answer ∈ tokens,
        answer.1.span.Sound source ∧ answer.2.reading.context.NoLevels := by
  have stands := Reading.between_ofText source
  obtain ⟨tokens, last, final, run, finished, ends, _, few⟩ := covers asked stands
  have holds : (Reading.ofText source).Holds source Context.NoLevels :=
    ⟨stands.stands, rfl, Context.bounded_initial⟩
  have kept := run.keeps (next_holds asked) ⟨rfl, holds⟩
  exact ⟨tokens, ⟨final, valid⟩, run.drain finished (Nat.lt_succ_of_le few), next_end ends,
    fun answer member => ⟨(kept answer member).1, (kept answer member).2.2.kept⟩⟩

end Values

end PugTokens
