import PhpMembers.Proofs.Syntax.Guards

/-! # A file is read to its end

Every round of the loop over the statements of a file takes a token, also in the middle of damage, so the
loop ends when no token is left and not before.

* `Production.iterate_atEnd` : repeating a step that takes tokens leaves none.
* `Production.recover_shortens` : skipping damage takes at least one token.
* `Grammar.sourceFile_atEnd` : nothing is left after a file. -/

namespace PhpMembers

/-- Taking a token leaves the tokens after it. -/
@[simp] theorem Parsing.ahead_take (s : Parsing) (rename : Kind → Kind) :
    (s.take rename).ahead = s.ahead.tail := by
  cases ahead : s.ahead <;> simp [take, flush, ahead]

/-- Unless the end is reached, taking a token leaves fewer. -/
theorem Parsing.length_take_lt {s : Parsing} (more : s.ahead ≠ []) (rename : Kind → Kind) :
    (s.take rename).ahead.length < s.ahead.length := by
  have positive : 0 < s.ahead.length := List.length_pos_iff.mpr more
  rw [Parsing.ahead_take, List.length_tail]
  omega

/-- Only trivia is left when no token is ahead. -/
theorem Parsing.atEnd_eq_false {s : Parsing} (more : s.ahead ≠ []) : s.atEnd = false := by
  rw [atEnd, List.isEmpty_eq_false_iff]
  exact more

namespace Production

/-- Repeating a step that takes a token and goes on as long as there are tokens leaves none. -/
theorem iterate_atEnd {step : Parsing → Bool × Parsing}
    (advance : ∀ s, s.ahead ≠ [] → (step s).1 = true ∧ (step s).2.ahead.length < s.ahead.length)
    (finish : ∀ s, s.ahead = [] → (step s).2.ahead = []) (n : Nat) (s : Parsing)
    (enough : s.ahead.length ≤ n) : (iterate step n s).ahead = [] := by
  -- By the number of rounds left, which is never less than the number of tokens ahead.
  induction n generalizing s with
  | zero =>
      rw [iterate]
      exact List.length_eq_zero_iff.mp (Nat.le_zero.mp enough)
  | succ n ih =>
      rw [iterate]
      rcases found : step s with ⟨_ | _, t⟩
      · by_cases more : s.ahead = []
        · have done := finish s more
          rw [found] at done
          exact done
        · have goesOn := (advance s more).1
          rw [found] at goesOn
          cases goesOn
      · apply ih
        by_cases more : s.ahead = []
        · have done := finish s more
          rw [found] at done
          rw [done]
          exact Nat.zero_le n
        · have shorter := (advance s more).2
          rw [found] at shorter
          simp only at shorter
          omega

/-- **Skipping damage takes at least one token**, if there is one. -/
theorem recover_shortens (cause : Fault) (stops : List Kind) (depth : Nat) {s : Parsing}
    (more : s.ahead ≠ []) :
    ((recover cause stops : Grammar).run (Rule.follow depth) s).2.ahead.length < s.ahead.length := by
  let stopped : Grammar := either atEnd (nextAmong stops)
  let inside := (s.report cause).flush.fresh
  have unchanged : stopped.run (Rule.follow depth) inside = (stops.contains (s.kindAt 0), inside) := by
    have notEnd : inside.atEnd = false := Parsing.atEnd_eq_false more
    simp only [stopped, either, atEnd, nextAmong, ok, run, Lookahead.holds, notEnd]
    rfl
  have shorter := Parsing.length_take_lt (s := inside) more id
  change ((branch stopped bump (loop (branch stopped stop bump))).run _ inside).2.ahead.length < _
  rw [run, unchanged]
  cases atStop : stops.contains (s.kindAt 0) with
  | true => exact shorter
  | false =>
      -- The first round takes a token, and no later one gives it back.
      rw [atStop] at unchanged
      have guarded : (branch stopped stop bump).Guarded Rule.Ready fun _ => True := by simp [stopped]
      obtain ⟨_, moves⟩ := iterate_moves (Grammar.run_moves guarded depth) inside.ahead.length
        [] (inside.take id)
      change (iterate _ (inside.ahead.length + 1) inside).ahead.length < _
      rw [iterate, run, unchanged]
      exact Nat.lt_of_le_of_lt moves.length_ahead_le shorter

end Production

namespace Grammar

open Production

/-- Reporting a token that nothing could read takes it. -/
theorem ahead_takeStuck (depth : Nat) (s : Parsing) :
    ((either atEnd (byKind fun kind => andThen (fault (.stuck kind)) bump) : Grammar).run
      (Rule.follow depth) s).2.ahead = s.ahead.tail := by
  cases ahead : s.ahead with
  | nil => simp [either, atEnd, ok, run, Lookahead.holds, Parsing.atEnd, ahead]
  | cons next rest =>
      simp [either, atEnd, run, Lookahead.holds, Parsing.atEnd, Parsing.report, ahead]

/-- A round over statements takes at least one token, if there is one. -/
theorem statement_shortens (depth : Nat) {s : Parsing} (more : s.ahead ≠ []) :
    ((either (advances (also statement))
      (either atEnd (byKind fun kind => andThen (fault (.stuck kind)) bump)) : Grammar).run
        (Rule.follow depth) s).2.ahead.length < s.ahead.length := by
  have guarded : (also statement).Guarded Rule.Ready fun _ => True := by simp
  obtain ⟨_, move⟩ := run_moves guarded depth [] s
  have notLonger := move.length_ahead_le
  rw [either, run, run]
  -- Either the statement took a token, or the parser takes one in its place.
  cases advanced : ((also statement : Grammar).run (Rule.follow depth) s).1
      && ((also statement : Grammar).run (Rule.follow depth) s).2.ahead.length < s.ahead.length with
  | true => exact of_decide_eq_true (Bool.and_eq_true_iff.mp advanced).2
  | false =>
      have positive : 0 < s.ahead.length := List.length_pos_iff.mpr more
      change (run _ _ ((also statement : Grammar).run (Rule.follow depth) s).2).2.ahead.length < _
      rw [ahead_takeStuck, List.length_tail]
      omega

/-- **Nothing is left after a file.** -/
theorem sourceFile_atEnd (depth : Nat) (s : Parsing) :
    (sourceFile.run (Rule.follow depth) s).2.ahead = [] := by
  -- A round takes at least one token, so there are enough rounds for all tokens.
  apply iterate_atEnd (n := s.ahead.length + 1)
  · intro t more
    have notEnd : (atEnd : Grammar).run (Rule.follow depth) t = (false, t) := by
      rw [atEnd, run, Lookahead.holds, Parsing.atEnd_eq_false more]
    rw [run, notEnd]
    refine ⟨rfl, ?_⟩
    change (run _ (branch _ _ _) t).2.ahead.length < _
    have next : (next .rBrace : Grammar).run (Rule.follow depth) t = (t.kindAt 0 == .rBrace, t) := rfl
    rw [run, next]
    cases t.kindAt 0 == .rBrace with
    | true => exact recover_shortens _ _ depth more
    | false => exact statement_shortens depth more
  · intro t none
    have isEnd : (atEnd : Grammar).run (Rule.follow depth) t = (true, t) := by
      rw [atEnd, run, Lookahead.holds, Parsing.atEnd, none]
      rfl
    rw [run, isEnd]
    exact none
  · exact Nat.le_succ _

end Grammar

end PhpMembers
