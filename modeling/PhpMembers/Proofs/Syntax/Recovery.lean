import PhpMembers.Proofs.Syntax.Placement
import PhpMembers.Proofs.Syntax.Progress
import PhpMembers.Source.Declaration

/-! # After a closing brace that nothing opened

Between statements, a closing brace that nothing opened is reported and skipped without a token at which
reading would go on. So the error node that begins with it keeps the whole rest of the file, and no statement
behind it is read.

* `Production.skipOne`, `Production.recover_nil` : skipping without such tokens skips everything.
* `Parsing.Swallowed`, `Grammar.sourceFile_swallowed` : what the rounds over the statements of a file keep.
* `Parse.root_of_unmatchedBrace` : an error node among the parts of the root is the last of its nodes. -/

namespace PhpMembers

/-! ## (1) Skipping everything -/

namespace Parsing

/-- A token that is taken is put behind trivia. -/
theorem exists_built_take (s : Parsing) (rename : Kind → Kind) :
    ∃ more, (s.take rename).built = more ++ s.built ∧ ∀ part ∈ more, part.isLeaf = true := by
  have trivia : ∀ part ∈ (s.gap.map Token.leaf).reverse, part.isLeaf = true := by
    intro part mem
    obtain ⟨t, -, rfl⟩ := List.mem_map.mp (List.mem_reverse.mp mem)
    rfl
  cases ahead : s.ahead with
  | nil => exact ⟨(s.gap.map Token.leaf).reverse, by simp [take, flush, ahead], trivia⟩
  | cons next rest =>
      refine ⟨.leaf (rename next.token.kind) next.token.text :: (s.gap.map Token.leaf).reverse,
        by simp [take, flush, ahead], ?_⟩
      exact List.forall_mem_cons.mpr ⟨rfl, trivia⟩

end Parsing

namespace Production

/-- A round of skipping damage without a token to stop at. -/
def skipOne : Grammar := branch (either atEnd (nextAmong [])) stop bump

/-- As long as a token is ahead, it is taken. -/
theorem run_skipOne {follow : Rule → Parsing → Bool × Parsing} {s : Parsing} (more : s.ahead ≠ []) :
    skipOne.run follow s = (true, s.take id) := by
  have notEnd : s.atEnd = false := Parsing.atEnd_eq_false more
  simp [skipOne, either, atEnd, nextAmong, ok, stop, run, Lookahead.holds, notEnd]

/-- At the end nothing is done. -/
theorem run_skipOne_atEnd {follow : Rule → Parsing → Bool × Parsing} {s : Parsing} (none : s.ahead = []) :
    skipOne.run follow s = (false, s) := by
  have isEnd : s.atEnd = true := by rw [Parsing.atEnd, none, List.isEmpty_nil]
  simp [skipOne, either, atEnd, ok, stop, run, Lookahead.holds, isEnd]

/-- All rounds together take what is left, and put leaves behind what has been built. -/
theorem iterate_skipOne {follow : Rule → Parsing → Bool × Parsing} (n : Nat) {s : Parsing}
    (enough : s.ahead.length ≤ n) :
    ∃ more, (iterate (skipOne.run follow) n s).built = more ++ s.built ∧
      (∀ part ∈ more, part.isLeaf = true) ∧ (iterate (skipOne.run follow) n s).ahead = [] := by
  induction n generalizing s with
  | zero => exact ⟨[], rfl, List.forall_mem_nil _, List.length_eq_zero_iff.mp (Nat.le_zero.mp enough)⟩
  | succ n ih =>
      rw [iterate]
      by_cases none : s.ahead = []
      · rw [run_skipOne_atEnd none]
        exact ⟨[], rfl, List.forall_mem_nil _, none⟩
      · rw [run_skipOne none]
        have shorter := Parsing.length_take_lt none id
        obtain ⟨behind, built, leaves, finished⟩ := ih (s := s.take id) (by omega)
        obtain ⟨taken, first, leaf⟩ := s.exists_built_take id
        refine ⟨behind ++ taken, ?_, List.forall_mem_append.mpr ⟨leaves, leaf⟩, finished⟩
        rw [List.append_assoc, ← first]
        exact built

/-- **Skipping damage without a token to stop at takes everything**: the next token comes first in the error
node, and no token is left. -/
theorem recover_nil (cause : Fault) (depth : Nat) {s : Parsing} {next : Lexeme} {rest : List Lexeme}
    (ahead : s.ahead = next :: rest) :
    ∃ more, ((recover cause [] : Grammar).run (Rule.follow depth) s).2.built =
        .node .error (.leaf next.token.kind next.token.text :: more) :: s.flush.built ∧
      (∀ part ∈ more, part.isLeaf = true) ∧
      ((recover cause [] : Grammar).run (Rule.follow depth) s).2.ahead = [] := by
  let inside := (s.report cause).flush.fresh
  let first := inside.take id
  let last := iterate (skipOne.run (Rule.follow depth)) inside.ahead.length first
  have notEnd : inside.ahead ≠ [] := by
    change s.ahead ≠ []
    rw [ahead]
    exact List.cons_ne_nil _ _
  have begins : first.built = [.leaf next.token.kind next.token.text] := by
    simp [first, inside, Parsing.take, Parsing.flush, Parsing.fresh, Parsing.report, ahead]
  -- The first round takes the next token; each later one puts a leaf behind it.
  obtain ⟨more, built, leaves, finished⟩ : ∃ more, last.built = more ++ first.built ∧
      (∀ part ∈ more, part.isLeaf = true) ∧ last.ahead = [] :=
    iterate_skipOne inside.ahead.length (Parsing.length_take_lt notEnd id).le
  have unchanged : (either atEnd (nextAmong []) : Grammar).run (Rule.follow depth) inside = (false, inside) := by
    have notEnd : inside.atEnd = false := Parsing.atEnd_eq_false notEnd
    simp [either, atEnd, nextAmong, ok, run, Lookahead.holds, notEnd]
  have read : ((branch (either atEnd (nextAmong [])) bump (loop skipOne) : Grammar).run
      (Rule.follow depth) inside).2 = last := by
    rw [run, unchanged]
    change iterate (skipOne.run (Rule.follow depth)) (inside.ahead.length + 1) inside = last
    rw [iterate, run_skipOne notEnd]
  have whole : ((recover cause [] : Grammar).run (Rule.follow depth) s).2 =
      { last with built := .node .error last.built.reverse :: s.flush.built } := by
    rw [← read]
    rfl
  refine ⟨more.reverse, ?_, fun part mem => leaves part (List.mem_reverse.mp mem), ?_⟩
  · rw [whole, built, begins, List.reverse_append]
    rfl
  · rw [whole]
    exact finished

end Production

/-! ## (2) Between the statements of a file -/

/-- Either no closing brace was met between the statements so far, or the first one is in front of a single
error node of tokens, and nothing is left behind it. -/
def Parsing.Swallowed (s : Parsing) : Prop :=
  s.nodes .error = 0 ∨
    s.ahead = [] ∧ ∃ text inside before, s.built = .node .error (.leaf .rBrace text :: inside) :: before ∧
      (∀ part ∈ inside, part.isLeaf = true) ∧ nodeCount .error before = 0

namespace Grammar

open Production

set_option maxRecDepth 4000 in
/-- What is read in place of a statement leaves no error node between the statements. -/
theorem statement_noError (depth : Nat) {s : Parsing} (none : s.nodes .error = 0) :
    ((either (advances (also statement))
      (either atEnd (byKind fun kind => andThen (fault (.stuck kind)) bump)) : Grammar).run
        (Rule.follow depth) s).2.nodes .error = 0 := by
  have placed : Kind.error ∈ Kind.placed := by decide
  have adds : (either (advances (also statement))
      (either atEnd (byKind fun kind => andThen (fault (.stuck kind)) bump)) : Grammar).most Rule.leaves
        .error = 0 := by decide
  have least := nodes_run_le (fun rule s => Rule.nodes_follow_le depth rule s placed)
    (either (advances (also statement))
      (either atEnd (byKind fun kind => andThen (fault (.stuck kind)) bump)) : Grammar) s
  rw [none, adds, add_zero] at least
  exact nonpos_iff_eq_zero.mp least

/-- **What the rounds over the statements of a file keep**: an error node between them swallows the rest. -/
theorem sourceFile_swallowed (depth : Nat) {s : Parsing} (start : s.Swallowed) :
    (sourceFile.run (Rule.follow depth) s).2.Swallowed := by
  refine iterate_induction (P := Parsing.Swallowed) (fun t kept => ?_) _ start
  have round (isEnd : Bool) (ends : t.atEnd = isEnd) :
      (atEnd : Grammar).run (Rule.follow depth) t = (isEnd, t) := by
    rw [atEnd, run, Lookahead.holds, ends]
  by_cases none : t.ahead = []
  · rw [run, round true (by rw [Parsing.atEnd, none, List.isEmpty_nil])]
    exact kept
  · rw [run, round false (Parsing.atEnd_eq_false none)]
    -- As long as there are tokens, nothing has been swallowed.
    have noError : t.nodes .error = 0 := kept.resolve_right fun swallowed => none swallowed.1
    change (run _ (branch _ _ _) t).2.Swallowed
    have next : (next .rBrace : Grammar).run (Rule.follow depth) t = (t.kindAt 0 == .rBrace, t) := rfl
    rw [run, next]
    cases brace : t.kindAt 0 == .rBrace with
    | false => exact .inl (statement_noError depth noError)
    | true =>
        obtain ⟨lexeme, rest, ahead⟩ := List.exists_cons_of_ne_nil none
        obtain ⟨inside, built, leaves, finished⟩ := recover_nil .unmatchedBrace depth ahead
        have isBrace : lexeme.token.kind = .rBrace := by
          rw [Parsing.kindAt, ahead] at brace
          exact beq_iff_eq.mp brace
        rw [isBrace] at built
        rw [← t.nodes_flush, Parsing.nodes] at noError
        exact .inr ⟨finished, _, inside, _, built, leaves, noError⟩

end Grammar

/-! ## (3) The root -/

/-- **An error node between the statements of a file swallows the rest of the file**: it begins with the
closing brace that nothing opened, has only tokens in it, and only trivia stand behind it. So no class, no
function and no other statement that the text has behind the brace is in the tree. -/
theorem Parse.root_of_unmatchedBrace {tokens : List Token}
    (unmatched : ∃ part ∈ (Parse.ofTokens tokens).tree.children, part.isNode .error = true) :
    ∃ before text inside trivia, (Parse.ofTokens tokens).tree =
        .node .sourceFile (before ++ .node .error (.leaf .rBrace text :: inside) :: trivia) ∧
      (∀ part ∈ before, part.isNode .error = false) ∧ (∀ part ∈ inside, part.isLeaf = true) ∧
      ∀ part ∈ trivia, part.isLeaf = true := by
  let start := Parsing.ofTokens tokens
  let done := (Grammar.sourceFile.run (Rule.follow (ruleDepth start.ahead.length)) start).2
  have tree : (Parse.ofTokens tokens).tree = .node .sourceFile done.flush.built.reverse := rfl
  have kept : done.Swallowed := Grammar.sourceFile_swallowed _ (.inl (nodeCount_nil .error))
  rcases kept with none | ⟨-, text, inside, before, built, leaves, none⟩
  · -- Without an error node between the statements there is nothing to show.
    obtain ⟨part, mem, isError⟩ := unmatched
    rw [tree] at mem
    rw [← done.nodes_flush, Parsing.nodes, ← nodeCount_reverse] at none
    have positive := List.countP_pos_iff.mpr ⟨part, mem, isError⟩
    exact absurd (Nat.cast_eq_zero.mp none) positive.ne'
  · refine ⟨before.reverse, text, inside, done.gap.map Token.leaf, ?_, fun part mem => ?_, leaves,
      fun part mem => ?_⟩
    · rw [tree, Parsing.flush, built]
      simp
    · have clear := List.countP_eq_zero.mp (Nat.cast_eq_zero.mp none) part (List.mem_reverse.mp mem)
      exact Bool.eq_false_iff.mpr clear
    · obtain ⟨t, -, rfl⟩ := List.mem_map.mp mem
      rfl

/-- Two classes with a closing brace between them that nothing opened. -/
def twoClasses : List Token := tokenize "<?php class A \x7b\x7d\x7d class B \x7b\x7d".toList

/-- The brace swallows the second class. -/
theorem Parse.root_of_unmatchedBrace_twoClasses :
    (∃ part ∈ (Parse.ofTokens twoClasses).tree.children, part.isNode .error = true) ∧
      ∃ before text inside trivia, (Parse.ofTokens twoClasses).tree =
          .node .sourceFile (before ++ .node .error (.leaf .rBrace text :: inside) :: trivia) ∧
        (∀ part ∈ before, part.isNode .error = false) ∧ (∀ part ∈ inside, part.isLeaf = true) ∧
        ∀ part ∈ trivia, part.isLeaf = true := by
  have unmatched : ∃ part ∈ (Parse.ofTokens twoClasses).tree.children, part.isNode .error = true :=
    List.any_eq_true.mp (by decide +kernel)
  exact ⟨unmatched, Parse.root_of_unmatchedBrace unmatched⟩

/-- The tokens in front of the brace and those behind it are files without errors, and the latter declare a
class that the whole file does not. -/
theorem Parse.hidden_behind_unmatchedBrace :
    (∃ brace ∈ twoClasses[8]?, brace.kind = .rBrace) ∧
      (∃ last ∈ (twoClasses.take 8).getLast?, last.kind = .rBrace) ∧
      (Parse.ofTokens (twoClasses.take 8)).isClean = true ∧
      (Parse.ofTokens (twoClasses.drop 9)).isClean = true ∧
      (Cursor.root (Parse.ofTokens (twoClasses.drop 9)).tree).classLikes.map Cursor.text =
        ["class B \x7b\x7d".toList] ∧
      (Cursor.root (Parse.ofTokens twoClasses).tree).classLikes.map Cursor.text =
        ["class A \x7b\x7d".toList] := by
  decide +kernel

end PhpMembers
