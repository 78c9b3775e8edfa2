import PugTokens.Lexer
import PugTokens.Proofs.Reader.Safety

namespace PugTokens

/-! # Tapes and cursors are lexers

A tape shows what is unread on it, and a cursor at a true place of its text what follows
that place.  Both scan as any lexer does that shows the same text.
-/

open Move (Along)

namespace Tape

variable {tape : Tape}

theorem unread_lexer_move (tape : Tape) (move : Move) :
    (lexer.move tape move).unread = tape.unread.drop (Move.steps [move]) := by
  cases move with
  | mark => rfl
  | take c => cases unread : tape.unread <;> simp [Lexer.move, lexer, step, unread]
  | skip c => cases unread : tape.unread <;> simp [Lexer.move, lexer, step, unread]

theorem shows (tape : Tape) : lexer.Shows tape tape.unread := by
  intro moves
  induction moves generalizing tape with
  | nil => exact List.head?_eq_getElem?
  | cons first moves induction =>
      have later := induction (lexer.move tape first)
      rw [unread_lexer_move, List.getElem?_drop] at later
      cases first with
      | mark => simpa [Lexer.play] using later
      | take c => simpa [Lexer.play, Nat.add_comm] using later
      | skip c => simpa [Lexer.play, Nat.add_comm] using later

theorem play_lexer {moves : List Move} (along : Along tape.unread moves) :
    lexer.play tape moves = tape.play moves := by
  generalize unread : tape.unread = text at along
  induction along generalizing tape with
  | nil => rfl
  | @take c text moves _ induction =>
      have moved : lexer.move tape (.take (some c)) = tape.step c := by
        simp [Lexer.move, lexer, unread]
      have next : (tape.step c).unread = text := by simp [step, unread]
      change lexer.play (lexer.move tape (.take (some c))) moves = (tape.step c).play moves
      rw [moved]
      exact induction next
  | @skip c text moves _ induction =>
      have moved : lexer.move tape (.skip c) = tape.step c := by
        simp [Lexer.move, lexer, unread]
      have next : (tape.step c).unread = text := by simp [step, unread]
      change lexer.play (lexer.move tape (.skip c)) moves = (tape.step c).play moves
      rw [moved]
      exact induction next
  | @past moves _ induction =>
      have moved : lexer.move tape (.take none) = tape := by
        simp [Lexer.move, lexer, unread]
      change lexer.play (lexer.move tape (.take none)) moves = tape.play moves
      rw [moved]
      exact induction unread
  | @mark text moves _ induction => exact induction unread

theorem scans (tape : Tape) (context : Context) (valid : KindSet) :
    lexer.Scans context valid { tape with marked := none } (tape.scan context valid).1
      (tape.scan context valid).2 := by
  refine ⟨tape.unread, shows { tape with marked := none }, rfl, ?_⟩
  have along : Along { tape with marked := none }.unread (tape.scan context valid).1.moves :=
    along_scan context valid tape.view
  exact (play_lexer along).symm

end Tape

namespace Cursor

variable {cursor : Cursor} {before rest : List Char}

theorem front_between (source : cursor.source = before ++ rest)
    (position : cursor.position = .after before) : cursor.front = rest.head? := by
  unfold front
  rw [peek_between source position]
  rfl

theorem exists_lexer_move (source : cursor.source = before ++ rest)
    (position : cursor.position = .after before) (move : Move) :
    ∃ passed, (lexer.move cursor move).source = passed ++ rest.drop (Move.steps [move]) ∧
      (lexer.move cursor move).position = .after passed := by
  have front := front_between source position
  cases rest with
  | nil =>
      have whole : cursor.source = before := by rw [source, List.append_nil]
      refine ⟨before, ?_⟩
      cases move with
      | mark => exact ⟨source, position⟩
      | take c => simpa [Lexer.move, lexer, front] using ⟨whole, position⟩
      | skip c => simpa [Lexer.move, lexer, front] using ⟨whole, position⟩
  | cons c rest =>
      have place : cursor.position.advance c = .after (before ++ [c]) := by
        rw [position, Position.advance_after]
      cases move with
      | mark => exact ⟨before, source, position⟩
      | take d =>
          refine ⟨before ++ [c], ?_⟩
          simpa [Lexer.move, lexer, front, take] using ⟨source, place⟩
      | skip d =>
          refine ⟨before ++ [c], ?_⟩
          simpa [Lexer.move, lexer, front, skip] using ⟨source, place⟩

theorem shows (source : cursor.source = before ++ rest)
    (position : cursor.position = .after before) : lexer.Shows cursor rest := by
  intro moves
  induction moves generalizing cursor before rest with
  | nil => exact (front_between source position).trans List.head?_eq_getElem?
  | cons first moves induction =>
      obtain ⟨passed, sourceNext, positionNext⟩ := exists_lexer_move source position first
      have later := induction sourceNext positionNext
      rw [List.getElem?_drop] at later
      cases first with
      | mark => simpa [Lexer.play] using later
      | take c => simpa [Lexer.play, Nat.add_comm] using later
      | skip c => simpa [Lexer.play, Nat.add_comm] using later

theorem play_lexer {moves : List Move} (along : Along rest moves)
    (source : cursor.source = before ++ rest) (position : cursor.position = .after before) :
    lexer.play cursor moves = cursor.play moves := by
  induction moves generalizing cursor before rest with
  | nil => rfl
  | cons first moves induction =>
      obtain ⟨_, passed, left, alongNext, sourceNext, positionNext⟩ :=
        moveNext_along along source position
      have front := front_between source position
      have moved : lexer.move cursor first = cursor.move first := by
        cases along <;> simp [Lexer.move, lexer, front, Cursor.move]
      change lexer.play (lexer.move cursor first) moves = (cursor.move first).play moves
      rw [moved]
      exact induction alongNext sourceNext positionNext

theorem scans {context : Context} {valid : KindSet} {outcome : Outcome} {after : Cursor}
    (source : cursor.source = before ++ rest) (position : cursor.position = .after before)
    (scanned : cursor.scan context valid = .ok (outcome, after)) :
    lexer.Scans context valid cursor outcome after := by
  have along := along_scan context valid ⟨rest, cursor.position.column = 0⟩
  refine ⟨rest, shows source position, ?_⟩
  unfold Cursor.scan at scanned
  split at scanned
  · next empty =>
      rw [Except.ok.injEq, Prod.mk.injEq] at scanned
      obtain ⟨rfl, rfl⟩ := scanned
      rw [scan_of_isEmpty empty]
      exact ⟨rfl, rfl⟩
  · have unread : cursor.unread = .ok rest := by
      unfold Cursor.unread
      rw [source, position]
      exact Text.dropBytes_append before rest
    simp only [Cursor.view, unread, bind, Except.bind, pure, Except.pure, Except.ok.injEq,
      Prod.mk.injEq] at scanned
    obtain ⟨rfl, rfl⟩ := scanned
    exact ⟨rfl, (play_lexer along source position).symm⟩

end Cursor

end PugTokens
