import PhpMembers.Proofs.Syntax.Applied
import PhpMembers.Proofs.Syntax.Callees
import PhpMembers.Proofs.Syntax.Descent

/-! # Nodes without trivia at their ends

Trivia becomes part of the tree only in front of something: of a token that is taken or of a construct that is
opened. So no node begins with trivia, in damaged text either. It ends with trivia only if a construct was opened
there and nothing was read, and without errors that happens nowhere at the end of a node: what can be last in an open
construct is read off its steps.

* `Headed`, `Parsing.Begun` : no trivia in front.
* `Production.begun_run` : a parse keeps it so.
* `Edge`, `Margin` : what is known of the last leaf on the way through a production.
* `Production.trims`, `Production.trims_run` : what can be read off a production holds of every parse without errors.
* `nodes_trimmed` : the nodes of a file. -/

namespace PhpMembers

/-! ## (1) In front -/

/-- The first leaf, if there is one, is not trivia. -/
def Headed (leaves : List (Kind × Text)) : Prop := ∀ first ∈ leaves.head?, first.1.isTrivia = false

theorem headed_nil : Headed [] := by
  intro first mem
  cases mem

namespace Parsing

/-- An open construct begins without trivia, now and after the next token. -/
structure Begun (s : Parsing) : Prop where
  /-- Its first leaf is not trivia. -/
  headed : Headed s.leaves
  /-- While it has no leaf there is no trivia to come. -/
  bare : s.leaves = [] → s.gap = []

variable {s t : Parsing}

/-- Where a construct is opened the trivia stays outside. -/
theorem begun_fresh (s : Parsing) : s.flush.fresh.Begun where
  headed := headed_nil
  bare := fun _ => rfl

/-- Trivia as leaves. -/
theorem leavesOfAll_gap (gap : List Token) :
    Tree.leavesOfAll (gap.map Token.leaf) = gap.map fun t => (t.kind, t.text) := by
  induction gap with
  | nil => exact Tree.leavesOfAll_nil
  | cons t gap ih =>
      rw [List.map_cons, Tree.leavesOfAll_cons, ih, Token.leaf, Tree.leaves_leaf, List.singleton_append, List.map_cons]

/-- The leaves of a construct to which parts are added behind the trivia in front of the next token. -/
theorem leaves_put (s t : Parsing) (parts : List Tree) :
    ({ t with built := parts ++ s.flush.built } : Parsing).leaves =
      s.leaves ++ ((s.gap.map fun t => (t.kind, t.text)) ++ Tree.leavesOfAll parts.reverse) := by
  simp [leaves, flush, leavesOfAll_gap]

/-- A token that is taken becomes the last leaf, and it is not trivia. -/
theorem exists_leaves_take (tidy : s.Tidy) (more : s.ahead ≠ []) (rename : Kind → Kind)
    (plain : rename (s.kindAt 0) = s.kindAt 0 ∨ (rename (s.kindAt 0)).isTrivia = false) :
    ∃ last : Kind × Text, last.1.isTrivia = false ∧
      (s.take rename).leaves = s.leaves ++ ((s.gap.map fun t => (t.kind, t.text)) ++ [last]) := by
  obtain ⟨next, rest, ahead⟩ := List.exists_cons_of_ne_nil more
  have first : s.kindAt 0 = next.token.kind := by simp [kindAt, ahead]
  have significant : (rename next.token.kind).isTrivia = false := by
    rw [first] at plain
    refine plain.elim (fun own => ?_) id
    rw [own]
    exact (tidy.2 next (by rw [ahead]; exact List.mem_cons_self)).1
  refine ⟨(rename next.token.kind, next.token.text), significant, ?_⟩
  simp [take, flush, leaves, leavesOfAll_gap, ahead]

namespace Begun

/-- Leaves are added that begin without trivia. -/
theorem add (begun : s.Begun) {more : List (Kind × Text)}
    (leaves : t.leaves = s.leaves ++ ((s.gap.map fun t => (t.kind, t.text)) ++ more)) (headed : Headed more)
    (bare : more = [] → t.gap = []) : t.Begun := by
  cases before : s.leaves with
  | nil =>
      rw [before, begun.bare before] at leaves
      exact ⟨by rwa [leaves], fun empty => bare (leaves.symm.trans empty)⟩
  | cons first rest =>
      have front := begun.headed
      rw [before] at leaves front
      refine ⟨by rwa [leaves], fun empty => ?_⟩
      rw [leaves] at empty
      cases empty

/-- A construct that is closed begins as it did inside. -/
theorem close (begun : s.Begun) (inside : t.Begun) {parts : List Tree}
    (same : Tree.leavesOfAll parts.reverse = t.leaves) :
    ({ t with built := parts ++ s.flush.built } : Parsing).Begun := by
  refine begun.add (s.leaves_put t parts) ?_ ?_
  · rw [same]
    exact inside.headed
  · rw [same]
    exact inside.bare

/-- A token that is not trivia is taken. -/
theorem take (begun : s.Begun) (tidy : s.Tidy) (rename : Kind → Kind)
    (plain : rename (s.kindAt 0) = s.kindAt 0 ∨ (rename (s.kindAt 0)).isTrivia = false) : (s.take rename).Begun := by
  by_cases more : s.ahead = []
  · -- At the end only the trivia is left to take.
    have flushed : s.take rename = s.flush := by simp [Parsing.take, flush, more]
    rw [flushed]
    exact begun.add (s.leaves_put s.flush []) headed_nil fun _ => rfl
  · obtain ⟨last, significant, leaves⟩ := exists_leaves_take tidy more rename plain
    refine begun.add leaves (fun first mem => ?_) fun empty => absurd empty (List.cons_ne_nil _ _)
    cases mem
    exact significant

end Begun

end Parsing

/-- Names are not trivia. -/
theorem Kind.isTrivia_of_isPlainName {kind : Kind} (name : kind.isPlainName = true) : kind.isTrivia = false := by
  rcases Bool.or_eq_true_iff.mp name with ident | qualified
  · rw [beq_iff_eq.mp ident]
    rfl
  · rw [beq_iff_eq.mp qualified]
    rfl

/-- The condition that a node begins without trivia. -/
def HeadedNode (_kind : Kind) (parts : List Tree) : Prop := Headed (Tree.leavesOfAll parts)

namespace Production

variable {ρ : Type} {node : Kind → Bool} {follow : ρ → Parsing → Bool × Parsing}

/-- **No node begins with trivia**, and an open construct that begins without trivia goes on to do so. Where everything
in the open construct can become a node, it has to begin without trivia. -/
theorem begun_run (tidies : ∀ rule s, s.Tidy → (follow rule s).2.Tidy)
    (rules : ∀ rule s, s.Tidy → s.BuiltWith HeadedNode →
      (follow rule s).2.BuiltWith HeadedNode ∧ (s.Begun → (follow rule s).2.Begun)) (p : Production ρ)
    (yields : p.yields Kind.isPlainName node = true) {s : Parsing} (tidy : s.Tidy) (built : s.BuiltWith HeadedNode)
    (keeps : p.keeps = true ∨ s.Begun) :
    (p.run follow s).2.BuiltWith HeadedNode ∧ (s.Begun → (p.run follow s).2.Begun) := by
  induction p generalizing s with
  | answer ok => exact ⟨built, id⟩
  | look condition => exact ⟨built, id⟩
  | bump => exact ⟨built.take id, fun begun => begun.take tidy id (.inl rfl)⟩
  | bumpAs kind =>
      have significant : kind.isTrivia = false := Kind.isTrivia_of_isPlainName yields
      exact ⟨built.take _, fun begun => begun.take tidy (fun _ => kind) (.inr significant)⟩
  | fault cause => exact ⟨built, fun begun => ⟨begun.headed, begun.bare⟩⟩
  | andThen first second ih₁ ih₂ =>
      obtain ⟨yields₁, yields₂⟩ := Bool.and_eq_true_iff.mp yields
      obtain ⟨keeps₁, keeps₂⟩ := keeps_andThen keeps
      obtain ⟨built₁, begun₁⟩ := ih₁ yields₁ tidy built keeps₁
      obtain ⟨built₂, begun₂⟩ := ih₂ yields₂ (tidy_run tidies first tidy) built₁ (keeps₂.imp_right begun₁)
      exact ⟨built₂, fun begun => begun₂ (begun₁ begun)⟩
  | branch condition yes no ih ihYes ihNo =>
      obtain ⟨yields, yieldsNo⟩ := Bool.and_eq_true_iff.mp yields
      obtain ⟨yields, yieldsYes⟩ := Bool.and_eq_true_iff.mp yields
      obtain ⟨keeps, keepsYes, keepsNo⟩ := keeps_branch keeps
      have tidy' := tidy_run tidies condition tidy
      obtain ⟨built', begun'⟩ := ih yields tidy built keeps
      refine branch_cases (P := fun result => result.2.BuiltWith HeadedNode ∧ (s.Begun → result.2.Begun))
        (fun _ => ?_) (fun _ => ?_)
      · have after := ihYes yieldsYes tidy' built' (keepsYes.imp_right begun')
        exact ⟨after.1, fun begun => after.2 (begun' begun)⟩
      · have after := ihNo yieldsNo tidy' built' (keepsNo.imp_right begun')
        exact ⟨after.1, fun begun => after.2 (begun' begun)⟩
  | byKind cases ih =>
      exact ih _ (List.all_eq_true.mp yields _ (Kind.mem_all _)) tidy built (keeps_byKind keeps _)
  | node kind body ih =>
      -- Inside nothing has been read yet, so the node begins as it goes on.
      obtain ⟨-, inside⟩ := Bool.and_eq_true_iff.mp yields
      obtain ⟨built', begun'⟩ := ih inside tidy.opened .fresh (.inr s.begun_fresh)
      have begins := begun' s.begun_fresh
      have same : Tree.leavesOfAll [Tree.node kind (body.run follow s.flush.fresh).2.built.reverse].reverse =
          (body.run follow s.flush.fresh).2.leaves := by
        simp [Parsing.leaves]
      exact ⟨built.flush.node built' begins.headed, fun begun => begun.close begins same⟩
  | group body ih =>
      obtain ⟨built', begun'⟩ := ih yields tidy.opened .fresh (.inr s.begun_fresh)
      exact ⟨built.flush.group built', fun begun => begun.close (begun' s.begun_fresh) rfl⟩
  | wrap kind body ih =>
      obtain ⟨-, inside⟩ := Bool.and_eq_true_iff.mp yields
      have begun := keeps.resolve_left Bool.false_ne_true
      obtain ⟨built', begun'⟩ := ih inside tidy built (.inr begun)
      have begins := begun' begun
      have same : ((wrap kind body).run follow s).2.leaves = (body.run follow s).2.leaves := by
        simp [run, Parsing.leaves]
      refine ⟨built'.wrap begins.headed, fun _ => ⟨?_, fun empty => begins.bare ?_⟩⟩
      · rw [same]
        exact begins.headed
      · rwa [same] at empty
  | loop body ih =>
      refine (iterate_induction
        (P := fun t => t.Tidy ∧ (body.keeps = true ∨ t.Begun) ∧ t.BuiltWith HeadedNode ∧ (s.Begun → t.Begun))
        (fun t kept => ?_) (s.ahead.length + 1) ⟨tidy, keeps, built, id⟩).2.2
      obtain ⟨tidy, keeps, built, begun⟩ := kept
      obtain ⟨built', begun'⟩ := ih yields tidy built keeps
      exact ⟨tidy_run tidies body tidy, keeps.imp_right begun', built', fun first => begun' (begun first)⟩
  | advances body ih => exact ih yields tidy built keeps
  | call rule => exact rules rule s tidy built

end Production

/-- No rule builds a node that begins with trivia. -/
theorem Rule.begun_follow (depth : Nat) (rule : Rule) (s : Parsing) (tidy : s.Tidy) (built : s.BuiltWith HeadedNode) :
    (Rule.follow depth rule s).2.BuiltWith HeadedNode ∧ (s.Begun → (Rule.follow depth rule s).2.Begun) := by
  induction depth generalizing rule s with
  | zero => exact ⟨built, id⟩
  | succ depth ih =>
      exact Production.begun_run (Rule.tidy_follow depth) ih rule.production (Grammar.yields_names rule) tidy built
        (.inl rule.keeps_all)

/-! ## (2) What can be read off a production -/

/-- What is known of the last leaf in the open construct. -/
inductive Edge
  /-- There is one, and it is not trivia. -/
  | filled
  /-- If there is one, it is not trivia. -/
  | tight
  /-- Nothing is known. -/
  | loose
deriving DecidableEq

namespace Edge

/-- That what is known holds of some leaves. -/
def Fits (leaves : List (Kind × Text)) : Edge → Prop
  | filled => ∃ last ∈ leaves.getLast?, last.1.isTrivia = false
  | tight => ∀ last ∈ leaves.getLast?, last.1.isTrivia = false
  | loose => True

/-- Whether what is known in one case is known in another case, too. -/
def within : Edge → Edge → Bool
  | filled, _ => true
  | tight, other => other != filled
  | loose, other => other == loose

theorem within_refl (edge : Edge) : edge.within edge = true := by
  cases edge <;> rfl

theorem within_loose (edge : Edge) : edge.within .loose = true := by
  cases edge <;> rfl

/-- What is known behind a construct, from what is known inside of it. If there is nothing inside, the trivia in front
of it comes last. -/
def outside : Edge → Edge
  | filled => filled
  | tight | loose => loose

end Edge

/-- What is known on the way through a production. -/
structure Margin where
  /-- So many tokens at least are ahead. -/
  sure : Nat
  /-- The last leaf. -/
  edge : Edge

namespace Margin

/-- At least `n` tokens are found to be ahead. -/
def atLeast (margin : Margin) (n : Nat) : Margin := { margin with sure := max margin.sure n }

/-- The next token has been taken, if there was one. -/
def step (margin : Margin) : Margin where
  sure := margin.sure - 1
  edge := if margin.sure = 0 then .loose else .filled

end Margin

namespace Rule

/-- So many tokens have to be ahead of a rule that may end with a token it does not test. -/
def needs : Rule → Nat
  | .variable | namespaceDef => 1
  | _ => 0

/-- What is known of the last leaf behind a rule. -/
def edge (answer : Bool) : Rule → Edge
  | classMember => .loose
  | braced => if answer then .filled else .loose
  | _ => .filled

end Rule

/-- Whether a production that reports no fault builds nodes that do not end with trivia, follows rules where there are
enough tokens for them, and leads to an answer and a margin with the property `Q`. -/
def Production.trims : Production Rule → Margin → (Bool → Margin → Bool) → Bool
  | answer ok, margin, Q => Q ok margin
  | look .atEnd, margin, Q => Q true margin && Q false (margin.atLeast 1)
  -- What is not ahead has the kind of an error.
  | look (.kind n test), margin, Q =>
    Q true (if test .error then margin else margin.atLeast (n + 1)) &&
      Q false (if test .error then margin.atLeast (n + 1) else margin)
  | look _, margin, Q => Q true margin && Q false margin
  | bump, margin, Q => Q true margin.step
  | bumpAs kind, margin, Q => !kind.isTrivia && Q true margin.step
  | fault _, _, _ => true
  | andThen first second, margin, Q => first.trims margin fun _ middle => second.trims middle Q
  | branch condition yes no, margin, Q => condition.trims margin fun result middle =>
    if result then yes.trims middle Q else no.trims middle Q
  | byKind cases, margin, Q =>
    (cases .error).trims margin Q && Kind.all.all fun kind => (cases kind).trims (margin.atLeast 1) Q
  | node _ body, margin, Q =>
    let ends (edge : Edge) := body.trims ⟨margin.sure, .tight⟩ fun _ done => done.edge.within edge
    if ends .filled then Q true ⟨0, .filled⟩ && Q false ⟨0, .filled⟩
    else ends .tight && Q true ⟨0, .loose⟩ && Q false ⟨0, .loose⟩
  | group body, margin, Q => body.trims ⟨margin.sure, .tight⟩ fun result done =>
    Q result ⟨done.sure, done.edge.outside⟩
  | wrap _ body, margin, Q => body.trims margin fun result done => done.edge.within .tight && Q result done
  | loop body, margin, Q =>
    let rounds (before after : Edge) := body.trims ⟨0, before⟩ fun _ done => done.edge.within after
    if rounds margin.edge .filled then Q true ⟨0, .filled⟩
    else if rounds margin.edge margin.edge then Q true ⟨0, margin.edge⟩
    else rounds .loose .loose && Q true ⟨0, .loose⟩
  | advances body, margin, Q => body.trims margin fun result done => (!result || Q true done) && Q false done
  | call rule, margin, Q =>
    rule.needs ≤ margin.sure && Q true ⟨0, rule.edge true⟩ && Q false ⟨0, rule.edge false⟩

/-- Whether a rule builds nodes that do not end with trivia and itself ends as foreseen. -/
def Rule.trims (rule : Rule) : Bool :=
  rule.production.trims ⟨rule.needs, .loose⟩ fun answer done => done.edge.within (rule.edge answer)

/-! ## (3) What is read off holds of every parse without errors -/

/-- The condition that a node does not end with trivia. -/
def TrimmedNode (_kind : Kind) (parts : List Tree) : Prop := Edge.tight.Fits (Tree.leavesOfAll parts)

namespace Edge

variable {edge other : Edge} {leaves : List (Kind × Text)}

/-- What is known in a case is known in a case that says less. -/
theorem Fits.mono (fits : edge.Fits leaves) (within : edge.within other = true) : other.Fits leaves := by
  cases edge with
  | filled =>
      obtain ⟨last, mem, significant⟩ := fits
      cases other with
      | filled => exact ⟨last, mem, significant⟩
      | tight =>
          intro leaf isLast
          rwa [Option.mem_unique isLast mem]
      | loose => trivial
  | tight =>
      cases other with
      | filled => cases within
      | tight => exact fits
      | loose => trivial
  | loose =>
      cases other with
      | loose => trivial
      | _ => cases within

/-- What is known inside a construct tells what is known behind it. -/
theorem Fits.outside (fits : edge.Fits leaves) (before : List (Kind × Text)) :
    edge.outside.Fits (before ++ leaves) := by
  cases edge with
  | filled =>
      obtain ⟨last, mem, significant⟩ := fits
      exact ⟨last, List.mem_getLast?_append_of_mem_getLast? mem, significant⟩
  | _ => trivial

end Edge

/-- What a margin says of a parse. -/
structure Margin.Holds (margin : Margin) (s : Parsing) : Prop where
  /-- There are enough tokens ahead. -/
  sure : margin.sure ≤ s.ahead.length
  /-- The last leaf. -/
  edge : margin.edge.Fits s.leaves
  /-- The tokens ahead are what they were. -/
  tidy : s.Tidy

/-- What a production leads to. -/
def Margin.Reached (Q : Bool → Margin → Bool) (result : Bool × Parsing) : Prop :=
  ∃ after : Margin, Q result.1 after = true ∧ after.Holds result.2 ∧ result.2.BuiltWith TrimmedNode

namespace Margin.Holds

variable {margin : Margin} {s t : Parsing}

/-- Of the tokens ahead nothing needs to be known. -/
theorem forget (holds : margin.Holds s) {edge : Edge} (within : margin.edge.within edge = true) :
    Margin.Holds ⟨0, edge⟩ s :=
  ⟨Nat.zero_le _, holds.edge.mono within, holds.tidy⟩

/-- More tokens are found to be ahead. -/
theorem atLeast (holds : margin.Holds s) {n : Nat} (le : n ≤ s.ahead.length) : (margin.atLeast n).Holds s :=
  ⟨max_le holds.sure le, holds.edge, holds.tidy⟩

/-- A token whose kind is not that of a missing one is ahead. -/
theorem atLeast_of_kindAt (holds : margin.Holds s) {n : Nat} (found : s.kindAt n ≠ .error) :
    (margin.atLeast (n + 1)).Holds s := by
  refine holds.atLeast (Nat.succ_le_of_lt (Nat.lt_of_not_le fun none => found ?_))
  rw [Parsing.kindAt, List.getElem?_eq_none none]

/-- Inside a construct nothing has been read yet. -/
theorem fresh (holds : margin.Holds s) : Margin.Holds ⟨margin.sure, .tight⟩ s.flush.fresh where
  sure := holds.sure
  edge := by
    intro last mem
    cases mem
  tidy := holds.tidy.opened

/-- A token is taken. -/
theorem take (holds : margin.Holds s) (rename : Kind → Kind)
    (plain : rename (s.kindAt 0) = s.kindAt 0 ∨ (rename (s.kindAt 0)).isTrivia = false) :
    margin.step.Holds (s.take rename) where
  sure := by
    rw [Parsing.ahead_take, List.length_tail]
    exact Nat.sub_le_sub_right holds.sure 1
  edge := by
    rw [step]
    split
    · trivial
    · rename_i some
      have more : s.ahead ≠ [] := List.length_pos_iff.mp ((Nat.pos_of_ne_zero some).trans_le holds.sure)
      obtain ⟨last, significant, leaves⟩ := Parsing.exists_leaves_take holds.tidy more rename plain
      refine ⟨last, ?_, significant⟩
      rw [leaves, ← List.append_assoc, List.getLast?_concat]
      rfl
  tidy := holds.tidy.take rename

/-- A construct that is closed ends as it did inside. -/
theorem close (inside : margin.Holds t) (s : Parsing) {parts : List Tree}
    (same : Tree.leavesOfAll parts.reverse = t.leaves) :
    Margin.Holds ⟨margin.sure, margin.edge.outside⟩ { t with built := parts ++ s.flush.built } where
  sure := inside.sure
  edge := by
    rw [Parsing.leaves_put, same, ← List.append_assoc]
    exact inside.edge.outside _
  tidy := inside.tidy

/-- What a look at the tokens ahead finds out. -/
theorem reached_look (holds : margin.Holds s) (built : s.BuiltWith TrimmedNode) {condition : Lookahead}
    {Q : Bool → Margin → Bool} (trims : (Production.look condition : Grammar).trims margin Q = true) :
    Reached Q (condition.holds s, s) := by
  cases condition with
  | atEnd =>
      obtain ⟨onTrue, onFalse⟩ := Bool.and_eq_true_iff.mp trims
      rw [Lookahead.holds]
      cases found : s.atEnd with
      | true => exact ⟨margin, onTrue, holds, built⟩
      | false =>
          have more : s.ahead ≠ [] := List.isEmpty_eq_false_iff.mp found
          exact ⟨_, onFalse, holds.atLeast (List.length_pos_iff.mpr more), built⟩
  | kind n test =>
      obtain ⟨onTrue, onFalse⟩ := Bool.and_eq_true_iff.mp trims
      have ahead (differs : test (s.kindAt n) ≠ test .error) : (margin.atLeast (n + 1)).Holds s :=
        holds.atLeast_of_kindAt fun same => differs (congrArg test same)
      rw [Lookahead.holds]
      cases found : test (s.kindAt n) with
      | true =>
          cases missing : test .error with
          | true => exact ⟨margin, by rwa [missing] at onTrue, holds, built⟩
          | false => exact ⟨_, by rwa [missing] at onTrue, ahead (by rw [found, missing]; decide), built⟩
      | false =>
          cases missing : test .error with
          | true => exact ⟨_, by rwa [missing] at onFalse, ahead (by rw [found, missing]; decide), built⟩
          | false => exact ⟨margin, by rwa [missing] at onFalse, holds, built⟩
  | _ => exact ⟨margin, Production.of_both (Q := fun answer => Q answer margin) trims _, holds, built⟩

/-- A node that does not end with trivia is added. -/
theorem reached_node (built : s.BuiltWith TrimmedNode) {kind : Kind} {edge : Edge} (tight : edge.within .tight = true)
    {inner : Bool × Parsing} (inside : Reached (fun _ done => done.edge.within edge) inner)
    {Q : Bool → Margin → Bool} (next : ∀ answer, Q answer ⟨0, edge.outside⟩ = true) :
    Reached Q (inner.1, { inner.2 with built := .node kind inner.2.built.reverse :: s.flush.built }) := by
  obtain ⟨done, within, holds, built'⟩ := inside
  have inside := holds.forget within
  have same : Tree.leavesOfAll [Tree.node kind inner.2.built.reverse].reverse = inner.2.leaves := by
    simp [Parsing.leaves]
  exact ⟨⟨0, edge.outside⟩, next inner.1, inside.close s same, built.flush.node built' (inside.edge.mono tight)⟩

end Margin.Holds

/-- Everything in the open construct is gathered into a node that does not end with trivia. -/
theorem Margin.Reached.wrap {Q : Bool → Margin → Bool} {kind : Kind} {inner : Bool × Parsing}
    (inside : Reached (fun result done => done.edge.within .tight && Q result done) inner) :
    Reached Q (inner.1, { inner.2 with built := [.node kind inner.2.built.reverse] }) := by
  obtain ⟨done, next, holds, built⟩ := inside
  obtain ⟨tight, next⟩ := Bool.and_eq_true_iff.mp next
  have same : Parsing.leaves { inner.2 with built := [.node kind inner.2.built.reverse] } = inner.2.leaves := by
    simp [Parsing.leaves]
  refine ⟨done, next, ⟨holds.sure, ?_, holds.tidy⟩, built.wrap (holds.edge.mono tight)⟩
  rw [same]
  exact holds.edge

/-- With at most `depth` rules open, all rules build nodes that do not end with trivia. -/
def Rule.AllTrim (depth : Nat) : Prop :=
  ∀ (rule : Rule) (s : Parsing), rule.needs ≤ s.ahead.length → s.Tidy → s.BuiltWith TrimmedNode →
    (Rule.followStrictly depth rule s).2.errors = s.errors →
      Margin.Reached (fun answer done => done.edge.within (rule.edge answer)) (Rule.followStrictly depth rule s)

namespace Production

variable {depth : Nat}

/-- **What is read off a production holds of every parse without errors**: the last leaf is as foreseen, and no node
that is built ends with trivia. -/
theorem trims_run (rules : Rule.AllTrim depth) (p : Grammar) {margin : Margin} {Q : Bool → Margin → Bool}
    (trims : p.trims margin Q = true) {s : Parsing} (holds : margin.Holds s) (built : s.BuiltWith TrimmedNode)
    (clean : (p.run (Rule.followStrictly depth) s).2.errors = s.errors) :
    Margin.Reached Q (p.run (Rule.followStrictly depth) s) := by
  have errors := Rule.errors_followStrictly depth
  induction p generalizing margin Q s with
  | answer ok => exact ⟨margin, trims, holds, built⟩
  | look condition => exact holds.reached_look built trims
  | bump => exact ⟨_, trims, holds.take id (.inl rfl), built.take id⟩
  | bumpAs kind =>
      obtain ⟨plain, next⟩ := Bool.and_eq_true_iff.mp trims
      have significant : kind.isTrivia = false := by simpa using plain
      exact ⟨_, next, holds.take (fun _ => kind) (.inr significant), built.take _⟩
  | fault cause => exact absurd clean (List.cons_ne_self _ _)
  | andThen first second ih₁ ih₂ =>
      have trims : first.trims margin (fun _ middle => second.trims middle Q) = true := trims
      obtain ⟨clean₁, clean₂⟩ := andThen_clean errors first second clean
      obtain ⟨middle, next, holds, built⟩ := ih₁ trims holds built clean₁
      exact ih₂ next holds built clean₂
  | branch condition yes no ih ihYes ihNo =>
      have reached := ih (s := s) trims holds built
      refine branch_clean errors clean (fun answer clean₁ clean₂ => ?_) (fun answer clean₁ clean₂ => ?_)
      · obtain ⟨middle, next, holds, built⟩ := reached clean₁
        rw [answer] at next
        exact ihYes next holds built clean₂
      · obtain ⟨middle, next, holds, built⟩ := reached clean₁
        rw [answer] at next
        exact ihNo next holds built clean₂
  | byKind cases ih =>
      obtain ⟨missing, others⟩ := Bool.and_eq_true_iff.mp trims
      by_cases found : s.kindAt 0 = .error
      · rw [run, found] at clean ⊢
        exact ih .error missing holds built clean
      · have next := List.all_eq_true.mp others _ (Kind.mem_all (s.kindAt 0))
        exact ih _ next (holds.atLeast_of_kindAt found) built clean
  | node kind body ih =>
      -- The node ends with a token of its own, or it may have no token at all.
      have closed {edge : Edge} (ends : body.trims ⟨margin.sure, .tight⟩ (fun _ done => done.edge.within edge) = true) :=
        ih ends holds.fresh .fresh clean
      rw [Production.trims] at trims
      split at trims
      · rename_i filled
        exact Margin.Holds.reached_node built rfl (closed filled) (of_both trims)
      · obtain ⟨trims, onFalse⟩ := Bool.and_eq_true_iff.mp trims
        obtain ⟨ends, onTrue⟩ := Bool.and_eq_true_iff.mp trims
        exact Margin.Holds.reached_node built rfl (closed ends) (of_both (Bool.and_eq_true_iff.mpr ⟨onTrue, onFalse⟩))
  | group body ih =>
      obtain ⟨done, next, inside, built'⟩ := ih trims holds.fresh .fresh clean
      exact ⟨_, next, inside.close s rfl, built.flush.group built'⟩
  | wrap kind body ih => exact Margin.Reached.wrap (ih trims holds built clean)
  | loop body ih =>
      have round {before after : Edge} (within : after.within before = true) (known : margin.edge.within before = true)
          (told : body.trims ⟨0, before⟩ (fun _ done => done.edge.within after) = true)
          (next : Q true ⟨0, after⟩ = true) : Margin.Reached Q ((loop body).run (Rule.followStrictly depth) s) := by
        have rounds := iterate_clean (errors_run errors body)
          (P := fun t => Margin.Holds ⟨0, before⟩ t ∧ t.BuiltWith TrimmedNode)
          (R := fun t => Margin.Holds ⟨0, after⟩ t ∧ t.BuiltWith TrimmedNode)
          (fun t kept clean => ?_) (fun t kept => ⟨kept.1.forget within, kept.2⟩) s.ahead.length
          ⟨holds.forget known, built⟩ clean
        · exact ⟨_, next, rounds.1, rounds.2⟩
        · obtain ⟨done, enough, holds, built⟩ := ih told kept.1 kept.2 clean
          exact ⟨holds.forget enough, built⟩
      rw [Production.trims] at trims
      split at trims
      · rename_i filled
        exact round rfl margin.edge.within_refl filled trims
      · split at trims
        · rename_i kept
          exact round margin.edge.within_refl margin.edge.within_refl kept trims
        · obtain ⟨ends, next⟩ := Bool.and_eq_true_iff.mp trims
          exact round rfl margin.edge.within_loose ends next
  | advances body ih =>
      obtain ⟨done, next, holds, built⟩ := ih trims holds built clean
      exact ⟨done, of_advances (Q := fun answer => Q answer done) next _, holds, built⟩
  | call rule =>
      obtain ⟨trims, onFalse⟩ := Bool.and_eq_true_iff.mp trims
      obtain ⟨needs, onTrue⟩ := Bool.and_eq_true_iff.mp trims
      have enough := (of_decide_eq_true needs).trans holds.sure
      obtain ⟨done, within, holds, built⟩ := rules rule s enough holds.tidy built clean
      exact ⟨_, of_both (Q := fun answer => Q answer ⟨0, rule.edge answer⟩)
        (Bool.and_eq_true_iff.mpr ⟨onTrue, onFalse⟩) _, holds.forget within, built⟩

end Production

/-! ## (4) The grammar -/

namespace Grammar

open Production

set_option maxRecDepth 2000 in
/-- The rounds over infix operators end with an operand, whatever binds strongly enough. -/
theorem trims_infixStep (power : Nat) :
    (infixStep power).trims ⟨0, .filled⟩ (fun _ done => done.edge.within .filled) = true := by
  -- At the end, where the kind is that of an error, no token can be taken.
  obtain ⟨cases, same, each⟩ := infixStep_induction power
    (fun operator p => (operator ≠ .error ∨ p.trims ⟨0, .filled⟩ (fun _ done => done.edge.within .filled) = true) ∧
      p.trims ⟨1, .filled⟩ (fun _ done => done.edge.within .filled) = true)
    (fun _ => ⟨.inr rfl, rfl⟩) (by decide)
  rw [same]
  refine Bool.and_eq_true_iff.mpr ⟨?_, List.all_eq_true.mpr fun operator listed => (each operator listed).2⟩
  exact (each .error (Kind.mem_all _)).1.resolve_left fun ne => ne rfl

end Grammar

namespace Rule

set_option maxRecDepth 2000 in
/-- **All rules build nodes that do not end with trivia, and end as foreseen.** -/
theorem trims_all (rule : Rule) : rule.trims = true := by
  cases rule with
  | expression power =>
      have rounds : (Production.loop (Grammar.infixStep power)).trims ⟨0, .filled⟩
          (fun _ done => done.edge.outside.within .filled) = true := by
        rw [Production.trims, if_pos (Grammar.trims_infixStep power)]
        rfl
      exact Bool.and_eq_true_iff.mpr ⟨rounds, rfl⟩
  | _ => decide

/-- However many rules may be open. -/
theorem allTrim (depth : Nat) : AllTrim depth := by
  induction depth with
  | zero => exact fun rule s enough tidy built clean => absurd clean (List.cons_ne_self _ _)
  | succ depth ih =>
      intro rule s enough tidy built clean
      exact Production.trims_run ih rule.production rule.trims_all ⟨enough, trivial, tidy⟩ built clean

end Rule

namespace Parse

variable (tokens : List Token)

/-- In the tree of every text no node but the root begins with trivia. -/
theorem headed_ofTokens {part : Tree} (mem : part ∈ (ofTokens tokens).tree.children) :
    part.Everywhere HeadedNode := by
  let start := Parsing.ofTokens tokens
  let depth := ruleDepth start.ahead.length
  have yields : Grammar.sourceFile.yields Kind.isPlainName (fun _ => true) = true := Grammar.yields_sourceFile rfl
  have tidy : start.Tidy := Parsing.tidy_split tokens
  have built := (Production.begun_run (Rule.tidy_follow depth) (Rule.begun_follow depth) Grammar.sourceFile yields tidy
    (List.forall_mem_nil _) (.inl rfl)).1
  exact built.flush part (List.mem_reverse.mp mem)

/-- In the tree of a text without errors no node but the root ends with trivia. -/
theorem trimmed_ofTokens (clean : (ofTokens tokens).errors = []) {part : Tree}
    (mem : part ∈ (ofTokens tokens).tree.children) : part.Everywhere TrimmedNode := by
  let start := Parsing.ofTokens tokens
  let depth := ruleDepth start.ahead.length
  have strictly := Grammar.run_eq_strictly Grammar.sourceFile (s := start) le_rfl
  have tidy : start.Tidy := Parsing.tidy_split tokens
  have clean : (Grammar.sourceFile.run (Rule.followStrictly depth) start).2.errors = start.errors := by
    rw [← strictly]
    exact List.reverse_eq_nil_iff.mp clean
  have holds : Margin.Holds ⟨0, .loose⟩ start := ⟨Nat.zero_le _, trivial, tidy⟩
  obtain ⟨-, -, -, built⟩ := Production.trims_run (Rule.allTrim depth) Grammar.sourceFile (Q := fun _ _ => true)
    (by decide) holds (List.forall_mem_nil _) clean
  rw [← strictly] at built
  exact built.flush part (List.mem_reverse.mp mem)

end Parse

/-! ## (5) The nodes of a file -/

namespace Cursor

variable {c d : Cursor}

/-- The length of consecutive parts without leaves. -/
theorem lengthOfAll_eq_zero {parent : Cursor} {left trees : List Tree} {start : Nat}
    (none : (childrenFrom parent left start trees).flatMap leaves = []) : Tree.lengthOfAll trees = 0 := by
  have all : ((childrenFrom parent left start trees).flatMap leaves).map (fun d => (d.kind, d.text)) =
      Tree.leavesOfAll trees := leaves_map_childrenFrom fun d _ => d.leaves_map
  rw [none] at all
  rw [Tree.lengthOfAll_eq, Tree.textOfAll, ← all]
  rfl

/-- Consecutive parts begin with their first leaf and end with their last one, if each of them does. -/
theorem ends_childrenFrom {parent : Cursor} {left trees : List Tree} {start : Nat}
    (each : ∀ d ∈ childrenFrom parent left start trees,
      (∀ first ∈ d.leaves.head?, first.start = d.start) ∧ ∀ last ∈ d.leaves.getLast?, last.stop = d.stop) :
    (∀ first ∈ ((childrenFrom parent left start trees).flatMap leaves).head?, first.start = start) ∧
      ∀ last ∈ ((childrenFrom parent left start trees).flatMap leaves).getLast?,
        last.stop = start + Tree.lengthOfAll trees := by
  induction trees generalizing left start with
  | nil => simp [childrenFrom]
  | cons tree right ih =>
      rw [childrenFrom] at each ⊢
      obtain ⟨⟨front, back⟩, later⟩ := List.forall_mem_cons.mp each
      obtain ⟨frontLater, backLater⟩ := ih later
      rw [List.flatMap_cons, Tree.lengthOfAll]
      refine ⟨fun first mem => ?_, fun last mem => ?_⟩
      · rw [List.head?_append] at mem
        rcases Option.or_eq_some_iff.mp mem with inPart | ⟨none, behind⟩
        · exact front first inPart
        · -- A part without leaves does not matter.
          have empty : tree.length = 0 := by
            have leaves := leaves_map (child parent left tree right start (start + tree.length))
            rw [List.head?_eq_none_iff.mp none] at leaves
            rw [Tree.length_eq, Tree.text, ← show _ = tree.leaves from leaves]
            rfl
          rw [frontLater first behind, empty, Nat.add_zero]
      · rw [List.getLast?_append] at mem
        rcases Option.or_eq_some_iff.mp mem with behind | ⟨none, inPart⟩
        · rw [backLater last behind, Nat.add_assoc]
        · have stop : last.stop = start + tree.length := back last inPart
          rw [stop, lengthOfAll_eq_zero (List.getLast?_eq_none_iff.mp none), Nat.add_zero]

/-- **A place with leaves begins with the first one and ends with the last one.** -/
theorem ends_of_placed {c : Cursor} (placed : c.stop = c.start + utf8Length c.tree.text) :
    (∀ first ∈ c.leaves.head?, first.start = c.start) ∧ ∀ last ∈ c.leaves.getLast?, last.stop = c.stop := by
  induction c using inductionOn with
  | step c ih =>
      rw [leaves_eq, isLeaf]
      cases tree : c.tree with
      | leaf kind text => simp [Tree.isLeaf]
      | node kind parts =>
          have each (d : Cursor) (mem : d ∈ childrenFrom c [] c.start parts) :
              (∀ first ∈ d.leaves.head?, first.start = d.start) ∧ ∀ last ∈ d.leaves.getLast?, last.stop = d.stop := by
            obtain ⟨_, _, -, -, ends⟩ := text_of_mem_childrenFrom mem
            refine ih d ?_ ends
            rwa [children, tree]
          have all := ends_childrenFrom each
          rw [placed, tree, ← Tree.length_eq, Tree.length, if_neg (by simp [Tree.isLeaf]), children, tree]
          exact all

/-- What holds of each node but the root holds of the nodes below it. -/
theorem here_of_mem_descendants {P : Kind → List Tree → Prop} {tree : Tree}
    (all : ∀ part ∈ tree.children, part.Everywhere P) {c : Cursor} (mem : c ∈ (root tree).descendants)
    (inner : c ≠ root tree) : P c.kind c.tree.children := by
  obtain ⟨inElements, node⟩ := List.mem_filter.mp mem
  obtain ⟨part, inChildren, below⟩ := (mem_elements_iff.mp inElements).resolve_left inner
  have inTree : part.tree ∈ (root tree).tree.children := tree_mem_of_mem_childrenFrom inChildren
  exact (everywhere_of_mem_elements (all _ inTree) below).here (show c.isLeaf = false by simpa using node)

/-- The leaves of a node are those of its parts. -/
theorem leaves_map_of_node {c : Cursor} (node : c.isLeaf = false) :
    c.leaves.map (fun d => (d.kind, d.text)) = Tree.leavesOfAll c.tree.children := by
  rw [leaves_map]
  rw [isLeaf] at node
  cases tree : c.tree with
  | leaf kind text =>
      rw [tree] at node
      cases node
  | node kind parts => rw [Tree.leaves_node, Tree.children]

end Cursor

/-- **Nodes are trimmed of trivia.** In the tree of every text each node with a token, apart from the root, begins with
a token that is not trivia; if there are no errors, it also ends with such a token. -/
theorem nodes_trimmed (source : Text) : ∀ c ∈ (Cursor.root (Parse.ofText source).tree).descendants,
    c ≠ .root (Parse.ofText source).tree → c.leaves ≠ [] →
      (∃ first, c.leaves.head? = some first ∧ first.kind.isTrivia = false ∧ first.start = c.start) ∧
      ((Parse.ofText source).errors = [] →
        ∃ last, c.leaves.getLast? = some last ∧ last.kind.isTrivia = false ∧ last.stop = c.stop) := by
  intro c mem inner filled
  obtain ⟨inElements, node⟩ := List.mem_filter.mp mem
  have node : c.isLeaf = false := by simpa using node
  obtain ⟨fronts, backs⟩ := Cursor.ends_of_placed (Cursor.stop_of_mem_elements inElements)
  refine ⟨?_, fun clean => ?_⟩
  · obtain ⟨first, rest, leaves⟩ := List.exists_cons_of_ne_nil filled
    have headed := Cursor.here_of_mem_descendants (fun part => Parse.headed_ofTokens (tokenize source)) mem inner
    rw [HeadedNode, ← Cursor.leaves_map_of_node node, leaves] at headed
    have isFirst : c.leaves.head? = some first := by rw [leaves, List.head?_cons]
    exact ⟨first, isFirst, headed _ rfl, fronts first isFirst⟩
  · obtain ⟨last, isLast⟩ := Option.ne_none_iff_exists'.mp fun none => filled (List.getLast?_eq_none_iff.mp none)
    have trimmed := Cursor.here_of_mem_descendants (fun part => Parse.trimmed_ofTokens (tokenize source) clean) mem
      inner
    rw [TrimmedNode, ← Cursor.leaves_map_of_node node] at trimmed
    refine ⟨last, isLast, trimmed (last.kind, last.text) ?_, backs last isLast⟩
    rw [List.getLast?_map, isLast]
    rfl

/-- A call with comments on every side, and one in its arguments. -/
def commentedCall : Text := "<?php /* a */ f( /* b */ $x /* c */ ) /* d */ ; // e".toList

/-- Its nodes: the statement, the call, the name, the arguments, and the one argument with its variable. None begins or
ends with a comment or a blank. -/
theorem nodes_trimmed_commentedCall :
    (Parse.ofText commentedCall).errors = [] ∧
      (Cursor.root (Parse.ofText commentedCall).tree).descendants.map (fun c => (c.start, c.stop)) =
        [(0, 52), (14, 47), (14, 37), (14, 15), (15, 37), (25, 27), (25, 27)] ∧
      ∀ c ∈ (Cursor.root (Parse.ofText commentedCall).tree).descendants,
        c ≠ .root (Parse.ofText commentedCall).tree → c.leaves ≠ [] →
          (∃ first, c.leaves.head? = some first ∧ first.kind.isTrivia = false ∧ first.start = c.start) ∧
          ∃ last, c.leaves.getLast? = some last ∧ last.kind.isTrivia = false ∧ last.stop = c.stop := by
  have facts : (Parse.ofText commentedCall).isClean = true ∧
      (Cursor.root (Parse.ofText commentedCall).tree).descendants.map (fun c => (c.start, c.stop)) =
        [(0, 52), (14, 47), (14, 37), (14, 15), (15, 37), (25, 27), (25, 27)] := by decide +kernel
  have clean : (Parse.ofText commentedCall).errors = [] := List.isEmpty_iff.mp facts.1
  refine ⟨clean, facts.2, fun c mem inner filled => ?_⟩
  obtain ⟨begins, ends⟩ := nodes_trimmed commentedCall c mem inner filled
  exact ⟨begins, ends clean⟩

end PhpMembers
