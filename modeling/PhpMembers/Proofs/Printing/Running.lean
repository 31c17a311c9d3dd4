import PhpMembers.Proofs.Printing.Pieces
import PhpMembers.Proofs.Syntax.Braces

/-! # How productions read pieces

Productions are executed on pieces. A rule for each kind of step says what the step does when its outcome is
known; lists are read by induction.

* `Parsing.facing` : a parse with pieces ahead.
* `Repeats` : what a loop does, whatever its bound on the number of rounds.
* `Reading` : a production reads pieces as a tree.
* `repeats_items` : reading one after the other. -/

namespace PhpMembers

open Production

/-! ## (1) Running productions -/

section

variable {ρ : Type} {follow : ρ → Parsing → Bool × Parsing} {p q c : Production ρ} {s t u : Parsing}
  {ok : Bool}

/-- A rule is followed. -/
theorem run_call {depth : Nat} (rule : Rule) :
    (call rule).run (Rule.follow (depth + 1)) s = rule.production.run (Rule.follow depth) s := rfl

/-- One after the other. -/
theorem run_andThen (first : p.run follow s = (ok, t)) : (p.andThen q).run follow s = q.run follow t := by
  rw [run, first]

/-- A condition that holds. -/
theorem run_branch_true (holds : c.run follow s = (true, t)) :
    (c.branch p q).run follow s = p.run follow t := by
  rw [run, holds]

/-- A condition that does not hold. -/
theorem run_branch_false (fails : c.run follow s = (false, t)) :
    (c.branch p q).run follow s = q.run follow t := by
  rw [run, fails]

/-- The kind of the next token decides. -/
theorem run_byKind {cases : Kind → Production ρ} {kind : Kind} (first : s.kindAt 0 = kind) :
    (byKind cases).run follow s = (cases kind).run follow s := by
  rw [run, first]

/-- A node around what is read. -/
theorem run_node (kind : Kind) (body : p.run follow s.flush.fresh = (ok, t)) :
    (p.node kind).run follow s = (ok, { t with built := .node kind t.built.reverse :: s.flush.built }) := by
  rw [run, body]

/-- A group of parts. -/
theorem run_group (body : p.run follow s.flush.fresh = (ok, t)) :
    p.group.run follow s = (ok, { t with built := t.built ++ s.flush.built }) := by
  rw [run, body]

/-- A node around the parts of a group. -/
theorem run_wrap (kind : Kind) (body : p.run follow s = (ok, t)) :
    (p.wrap kind).run follow s = (ok, { t with built := [.node kind t.built.reverse] }) := by
  rw [run, body]

/-- A token of another kind is left alone. -/
theorem run_eat_of_ne {kind : Kind} (ne : s.kindAt 0 ≠ kind) : (eat kind).run follow s = (false, s) := by
  have other : (s.kindAt 0 == kind) = false := beq_eq_false_iff_ne.mpr ne
  rw [eat, next, nthIs, run, run, Lookahead.holds, other]
  rfl

/-- A name of a member is taken as an identifier. -/
theorem run_memberName {missing : Fault} (named : (s.kindAt 0).isMemberName = true) :
    (memberName missing).run follow s = (true, s.take fun _ => .ident) := by
  rw [memberName, run, run, Lookahead.holds, named]
  rfl

/-- What takes a token needs no alternative. -/
theorem run_advances (body : p.run follow s = (ok, t)) (fewer : t.ahead.length < s.ahead.length) :
    (also (either (advances (also p)) q)).run follow s = (true, t) := by
  have advances : (advances p.also).run follow s = (true, t) := by
    rw [run, also, run, body]
    exact congrArg (·, t) (decide_eq_true fewer)
  rw [also, run, either, run, advances]
  rfl

/-- `Repeats step s t`: repeated from `s` until it answers `false`, the step ends in `t`. -/
def Repeats (step : Parsing → Bool × Parsing) (s t : Parsing) : Prop :=
  ∀ n, s.ahead.length < n → iterate step n s = t

/-- A step that answers `false` is the last one. -/
theorem Repeats.last {step : Parsing → Bool × Parsing} (stops : step s = (false, t)) : Repeats step s t := by
  intro n bound
  cases n with
  | zero => cases bound
  | succ n => rw [iterate, stops]

/-- A step that answers `true` and takes tokens is followed by others. -/
theorem Repeats.next {step : Parsing → Bool × Parsing} (goesOn : step s = (true, t))
    (fewer : t.ahead.length < s.ahead.length) (others : Repeats step t u) : Repeats step s u := by
  intro n bound
  cases n with
  | zero => cases bound
  | succ n =>
      rw [iterate, goesOn]
      exact others n (by omega)

/-- A loop repeats its body. -/
theorem run_loop (repeats : Repeats (p.run follow) s t) : p.loop.run follow s = (true, t) := by
  rw [run, repeats _ (Nat.lt_succ_self _)]

end

/-! ## (2) Parses with pieces ahead -/

/-- A parse with pieces ahead, where nothing has been found wrong. -/
def Parsing.facing (gap : List Token) (built : List Tree) (ps : List Piece) : Parsing :=
  ⟨gap, ps.map Piece.lexeme, 0, built, []⟩

/-- The parts of the open construct with the trivia behind them. -/
def behind (gap : List Token) (built : List Tree) : List Tree := (gap.map Token.leaf).reverse ++ built

/-- The leaf of a piece. -/
def Piece.leaf (p : Piece) : Tree := .leaf p.kind p.text

/-- The leaf of a blank. -/
def blankLeaf : Tree := blank.leaf

/-- A word as the name of a declaration. -/
def Word.leaf (w : Word) : Tree := .leaf .ident w.text

variable {gap : List Token} {built : List Tree} {rest : List Piece} {depth : Nat}

/-- Fewer pieces are ahead when some have been read. -/
theorem length_facing_lt {gap' : List Token} {built' : List Tree} {ps : List Piece} (some : ps ≠ []) :
    (Parsing.facing gap built rest).ahead.length < (Parsing.facing gap' built' (ps ++ rest)).ahead.length := by
  have positive := List.length_pos_iff.mpr some
  simp only [Parsing.facing, List.length_map, List.length_append]
  omega

/-- A piece with a blank behind it is taken. -/
theorem take_facing {p : Piece} (spaced : p.spaced = true) (rename : Kind → Kind) :
    (Parsing.facing gap built (p :: rest)).take rename =
      .facing [blank] (.leaf (rename p.kind) p.text :: behind gap built) rest := by
  simp [Parsing.facing, Parsing.take, Parsing.flush, Piece.lexeme, behind, spaced]

/-- `rest.Lacks kind`: the next token is of another kind. -/
def Lacks (rest : List Piece) (kind : Kind) : Prop := ∀ p ∈ rest.head?, p.kind ≠ kind

/-- The next token is of another kind. -/
theorem kindAt_facing {kind : Kind} (lacks : Lacks rest kind) (ne : kind ≠ .error) :
    (Parsing.facing gap built rest).kindAt 0 ≠ kind := by
  cases rest with
  | nil => exact fun error => ne error.symm
  | cons p ps => exact lacks p rfl

/-- Another piece comes next. -/
theorem lacks_cons {p : Piece} {kind : Kind} (ne : p.kind ≠ kind) : Lacks (p :: rest) kind := by
  rintro q ⟨⟩
  exact ne

/-! ## (3) One after the other -/

/-- `Reading follow p item`: the production reads the pieces as the tree, whatever stands around them. -/
structure Reading (follow : Rule → Parsing → Bool × Parsing) (p : Grammar) (item : List Piece × Tree) :
    Prop where
  /-- The first piece closes nothing. -/
  starts : ∃ q qs, item.1 = q :: qs ∧ q.kind ≠ .rBrace
  /-- The pieces are read. -/
  run : ∀ gap built rest, p.run follow (.facing gap built (item.1 ++ rest)) =
    (true, .facing [blank] (item.2 :: behind gap built) rest)

section

variable {follow : Rule → Parsing → Bool × Parsing} {p : Grammar} {item : List Piece × Tree}

/-- There are pieces to be read. -/
theorem Reading.ne_nil (reads : Reading follow p item) : item.1 ≠ [] := by
  obtain ⟨q, qs, pieces, -⟩ := reads.starts
  exact pieces ▸ List.cons_ne_nil q qs

/-- What is read is never in the way. -/
theorem Reading.unstuck (reads : Reading follow p item) : Reading follow (unstuck .rBrace p) item where
  starts := reads.starts
  run gap built rest := run_advances (reads.run gap built rest) (length_facing_lt reads.ne_nil)

/-- Neither the end nor a closing brace is ahead of what is to be read. -/
theorem Reading.inBraces (reads : Reading follow p item) :
    Reading follow (branch (either atEnd (next .rBrace)) stop p) item where
  starts := reads.starts
  run gap built rest := by
    obtain ⟨q, qs, pieces, ne⟩ := reads.starts
    refine (run_branch_false ?_).trans (reads.run gap built rest)
    rw [pieces]
    exact congrArg (·, _) (beq_eq_false_iff_ne.mpr ne)

/-- At the top level, what is read as a statement is read. -/
theorem Reading.atTop (reads : Reading follow p item) {unmatched stuck : Grammar} :
    Reading follow (branch atEnd stop (also (branch (next .rBrace) unmatched
      (either (advances (also p)) stuck)))) item where
  starts := reads.starts
  run gap built rest := by
    obtain ⟨q, qs, pieces, ne⟩ := reads.starts
    have more : atEnd.run follow (.facing gap built (item.1 ++ rest)) =
        (false, .facing gap built (item.1 ++ rest)) := by
      rw [pieces]
      rfl
    have notClosing : (next .rBrace).run follow (.facing gap built (item.1 ++ rest)) =
        (false, .facing gap built (item.1 ++ rest)) := by
      rw [pieces]
      exact congrArg (·, _) (beq_eq_false_iff_ne.mpr ne)
    refine (run_branch_false more).trans ?_
    rw [also, Production.run, run_branch_false notClosing]
    exact run_advances (reads.run gap built rest) (length_facing_lt reads.ne_nil)

/-- **Reading one after the other.** -/
theorem repeats_items {items : List (List Piece × Tree)} (each : ∀ i ∈ items, Reading follow p i)
    (last : ∀ gap built, p.run follow (.facing gap built rest) = (false, .facing gap built rest))
    (gap : List Token) (built : List Tree) :
    ∃ gap' built', Repeats (p.run follow) (.facing gap built (items.flatMap Prod.fst ++ rest))
        (.facing gap' built' rest) ∧
      behind gap' built' = (items.flatMap fun i => [i.2, blankLeaf]).reverse ++ behind gap built := by
  induction items generalizing gap built with
  | nil => exact ⟨gap, built, .last (last gap built), rfl⟩
  | cons i items ih =>
      have reads := each i List.mem_cons_self
      obtain ⟨gap', built', others, trees⟩ :=
        ih (fun j mem => each j (List.mem_cons_of_mem i mem)) [blank] (i.2 :: behind gap built)
      refine ⟨gap', built', ?_, ?_⟩
      · rw [List.flatMap_cons, List.append_assoc]
        exact .next (reads.run gap built _) (length_facing_lt reads.ne_nil) others
      · rw [trees]
        simp [behind, blankLeaf, blank, Token.leaf]

end

end PhpMembers
