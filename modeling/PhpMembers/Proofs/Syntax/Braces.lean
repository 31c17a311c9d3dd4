import PhpMembers.Proofs.Syntax.Lossless
import PhpMembers.Proofs.Syntax.Naming
import PhpMembers.Proofs.Syntax.Nesting

/-! # The braces that productions take

Which braces a production takes into the open construct can be read off its steps, as long as it reports no
fault: whether it is certain which token comes next where one is taken, and how many braces are open there.
One induction shows that what is read off holds of every parse that reports nothing.

Productions follow rules, so it matters that no rule is given up because too many are open. A rule without a
token taken in between is followed by rules of a lower rank only, and `Rule.rank` tells how many these can be.

* `Stage` : what is known on the way through a production.
* `Production.balances` : what can be read off a production.
* `Rule.Pairs` : what this comes to for a rule.
* `Production.balances_run` : what is read off holds of every parse without faults. -/

namespace PhpMembers

/-! ## (1) What can be read off a production -/

/-- What is known of the braces that have been taken into the open construct. -/
inductive Opened
  /-- There are none. -/
  | bare
  /-- So many of them are open. -/
  | within (n : Nat)
  /-- Nothing is known. -/
  | lost
deriving DecidableEq

namespace Opened

/-- What is known after one more token, unless it closes a brace that nothing opened. -/
def after (kind : Kind) : Opened → Option Opened
  | bare => if kind = .lBrace then some (within 1) else if kind = .rBrace then none else some bare
  | within n => (kind.nest n).map within
  | lost => some lost

/-- Whether the braces are known to be in pairs. -/
def isClosed : Opened → Bool
  | bare => true
  | within n => n == 0
  | lost => false

/-- What is known after braces in pairs. -/
def paired : Opened → Opened
  | bare => within 0
  | within n => within n
  | lost => lost

/-- That what is known holds of some tokens. -/
def Fits (kinds : List Kind) : Opened → Prop
  | bare => Braceless kinds
  | within n => nestAll 0 kinds = some n
  | lost => True

end Opened

/-- What is known on the way through a production. -/
structure Stage where
  /-- The kinds that the `n`-th token ahead may have, if anything is known of it. -/
  known : Nat → Option (List Kind)
  /-- The braces of the open construct. -/
  braces : Opened
  /-- Whether a token has certainly been taken since the rule was followed. -/
  moved : Bool

namespace Stage

/-- Nothing is known of the tokens ahead. -/
def start (braces : Opened) (moved : Bool) : Stage := ⟨fun _ => none, braces, moved⟩

/-- The tokens ahead begin with tokens of the given kinds. -/
def ofPattern (pattern : List (List Kind)) : Stage := ⟨fun n => pattern[n]?, .bare, false⟩

/-- The kinds that the `n`-th token ahead may have. -/
def possible (stage : Stage) (n : Nat) : List Kind := (stage.known n).getD Kind.all

/-- The `n`-th token ahead is found to have one of these kinds. -/
def refine (stage : Stage) (n : Nat) (kinds : List Kind) : Stage :=
  { stage with known := fun i => if i = n then some kinds else stage.known i }

/-- The next token has been taken. -/
def step (stage : Stage) (moves : Bool) (braces : Opened) : Stage where
  known n := stage.known (n + 1)
  braces := braces
  moved := stage.moved || moves

end Stage

namespace Rule

/-- How many rules, one inside the other, can be followed without a token taken in between. -/
def rank : Rule → Nat
  | statement => 5
  | expression _ => 4
  | unary => 3
  | postfixed | classMember | param => 2
  | primary | anonClass | type => 1
  | _ => 0

/-- Ranks are low. -/
theorem rank_lt (rule : Rule) : rule.rank < 32 := by
  cases rule with
  | expression power => simp [rank]
  | _ => decide

/-- The kinds of the tokens with which a rule begins, where it takes the first ones untested: in each case
the kinds that the first token, the second one and so on may have. -/
def starts : Rule → List (List (List Kind))
  | .variable => [[[.variable, .dollar]]]
  | argList => [[[.lParen]]]
  | new => [[[.newKw]]]
  | closure => [[[.functionKw]], [[.staticKw], [.functionKw]]]
  | arrowFn => [[[.fnKw]], [[.staticKw], [.fnKw]]]
  | choice => [[[.matchKw]]]
  | attributeGroup => [[[.hashBracket]]]
  | classLike => [[[.classKw, .interfaceKw, .traitKw, .enumKw]]]
  | functionDecl => [[[.functionKw]]]
  | namespaceDef => [[[.namespaceKw]]]
  | useDecl => [[[.useKw]]]
  | braced => [[[.lBrace]]]
  | _ => [[]]

/-- Whether a rule begins with the tokens that are known to be ahead. -/
def startsAt (rule : Rule) (known : Nat → Option (List Kind)) : Bool :=
  rule.starts.any fun pattern => pattern.zipIdx.all fun (kinds, n) =>
    (known n).any fun possible => possible.all kinds.contains

/-- Whether a rule is known to take a token. -/
def moves : Rule → Bool
  | attributeGroup | braced => true
  | _ => false

end Rule

/-- Whether a production that reports no fault takes braces in pairs into each node that it builds, begins
each rule with the right tokens, and leads to an answer and a stage with the property `Q`. No class body is
built here. -/
def Production.balances (rank : Nat) : Production Rule → Stage → (Bool → Stage → Bool) → Bool
  | answer ok, stage, Q => Q ok stage
  | look (.kind n test), stage, Q =>
    let yes := (stage.possible n).filter test
    let no := (stage.possible n).filter (!test ·)
    (yes.isEmpty || Q true (stage.refine n yes)) && (no.isEmpty || Q false (stage.refine n no))
  | look _, stage, Q => Q true stage && Q false stage
  | bump, stage, Q => (stage.possible 0).all fun kind =>
    (stage.braces.after kind).any fun braces => Q true (stage.step (kind != .error) braces)
  | bumpAs kind, stage, Q =>
    !kind.isBrace && Q true (stage.step (!(stage.possible 0).contains .error) stage.braces)
  | fault _, _, _ => true
  | andThen first second, stage, Q =>
    first.balances rank stage fun _ middle => second.balances rank middle Q
  | branch condition yes no, stage, Q =>
    condition.balances rank stage fun result middle =>
      if result then yes.balances rank middle Q else no.balances rank middle Q
  | byKind cases, stage, Q => (stage.possible 0).all fun kind =>
    (cases kind).balances rank (stage.refine 0 [kind]) Q
  | node kind body, stage, Q =>
    let inside := { stage with braces := .bare }
    let after := .start stage.braces (stage.moved || body.balances rank inside fun _ done => done.moved)
    kind != .classBody && body.balances rank inside (fun _ done => done.braces.isClosed) &&
      Q true after && Q false after
  | group body, stage, Q =>
    let after := .start stage.braces stage.moved
    -- The two stages are written out: there are few of them, and each is looked at only once.
    (if stage.moved then body.balances rank (.start .bare true) fun _ done => done.braces == .bare
      else body.balances rank (.start .bare false) fun _ done => done.braces == .bare) &&
      Q true after && Q false after
  | wrap kind body, stage, Q =>
    kind != .classBody && body.balances rank stage fun result done =>
      done.braces.isClosed && Q result { done with braces := .bare }
  | loop body, stage, Q =>
    let moved := stage.moved ||
      body.balances rank stage fun result done => result && done.moved && done.braces == stage.braces
    let each := .start stage.braces moved
    body.balances rank each (fun _ done => done.braces == stage.braces) && Q true each
  | advances body, stage, Q => body.balances rank stage fun result done =>
    (!result || Q true done) && Q false done
  | call rule, stage, Q =>
    let moved := stage.moved || rule.moves
    (stage.moved || rule.rank < rank) && rule.startsAt stage.known &&
      if rule = .braced then Q true (.start stage.braces.paired moved) && Q false (.start .lost moved)
      else Q true (.start stage.braces moved) && Q false (.start stage.braces moved)

/-! ## (2) Parses without faults -/

/-- What is inside the last part of a parse was in place when that part was built. -/
theorem Parsing.BuiltWith.inside {P : Kind → List Tree → Prop} {kind : Kind} {s t : Parsing}
    {others : List Tree} (built : { s with built := .node kind t.built.reverse :: others }.BuiltWith P) :
    t.BuiltWith P :=
  fun _ mem => (built _ List.mem_cons_self).part (List.mem_reverse.mpr mem)

/-- What holds everywhere after a production held everywhere before it. -/
theorem Production.builtWith_of_run {ρ : Type} {P : Kind → List Tree → Prop}
    {follow : ρ → Parsing → Bool × Parsing}
    (rules : ∀ rule s, (follow rule s).2.BuiltWith P → s.BuiltWith P) (p : Production ρ) {s : Parsing}
    (built : (p.run follow s).2.BuiltWith P) : s.BuiltWith P := by
  induction p generalizing s with
  | answer ok => exact built
  | look condition => exact built
  | bump => exact fun tree mem => built tree ((s.built_take id).subset mem)
  | bumpAs kind => exact fun tree mem => built tree ((s.built_take _).subset mem)
  | fault cause => exact built
  | andThen first second ih₁ ih₂ => exact ih₁ (ih₂ built)
  | branch condition yes no ih ihYes ihNo =>
      exact branch_cases (P := fun result => result.2.BuiltWith P → s.BuiltWith P)
        (fun _ after => ih (ihYes after)) (fun _ after => ih (ihNo after)) built
  | byKind cases ih => exact ih _ built
  | node kind body ih =>
      exact fun tree mem => built tree (List.mem_cons_of_mem _ (s.built_flush.subset mem))
  | group body ih =>
      exact fun tree mem => built tree (List.mem_append_right _ (s.built_flush.subset mem))
  | wrap kind body ih => exact ih built.inside
  | loop body ih =>
      exact iterate_induction (P := fun t => t.BuiltWith P → s.BuiltWith P)
        (fun t back built => back (ih built)) _ id built
  | advances body ih => exact ih built
  | call rule => exact rules rule s built

/-- What holds everywhere after a rule held everywhere before it. -/
theorem Rule.builtWith_of_follow {P : Kind → List Tree → Prop} (depth : Nat) (rule : Rule) (s : Parsing)
    (built : (Rule.follow depth rule s).2.BuiltWith P) : s.BuiltWith P := by
  induction depth generalizing rule s with
  | zero => exact built
  | succ depth ih => exact Production.builtWith_of_run ih rule.production built

/-- Taking a token leaves no more tokens ahead. -/
theorem Parsing.length_take_le (s : Parsing) (rename : Kind → Kind) :
    (s.take rename).ahead.length ≤ s.ahead.length := by
  rw [Parsing.ahead_take, List.length_tail]
  exact Nat.sub_le _ _

/-- No token comes back. -/
theorem Production.length_run_le {ρ : Type} {follow : ρ → Parsing → Bool × Parsing}
    (rules : ∀ rule s, (follow rule s).2.ahead.length ≤ s.ahead.length) (p : Production ρ) (s : Parsing) :
    (p.run follow s).2.ahead.length ≤ s.ahead.length := by
  induction p generalizing s with
  | answer ok => exact le_rfl
  | look condition => exact le_rfl
  | bump => exact s.length_take_le id
  | bumpAs kind => exact s.length_take_le _
  | fault cause => exact le_rfl
  | andThen first second ih₁ ih₂ => exact (ih₂ _).trans (ih₁ s)
  | branch condition yes no ih ihYes ihNo =>
      have before := ih s
      exact branch_cases (P := fun result => result.2.ahead.length ≤ s.ahead.length)
        (fun _ => (ihYes _).trans before) (fun _ => (ihNo _).trans before)
  | byKind cases ih => exact ih _ s
  | node kind body ih => exact ih s.flush.fresh
  | group body ih => exact ih s.flush.fresh
  | wrap kind body ih => exact ih s
  | loop body ih =>
      exact iterate_induction (P := fun t => t.ahead.length ≤ s.ahead.length)
        (fun t le => (ih t).trans le) _ le_rfl
  | advances body ih => exact ih s
  | call rule => exact rules rule s

/-- No token comes back when a rule is followed. -/
theorem Rule.length_follow_le (depth : Nat) (rule : Rule) (s : Parsing) :
    (Rule.follow depth rule s).2.ahead.length ≤ s.ahead.length := by
  induction depth generalizing rule s with
  | zero => exact le_rfl
  | succ depth ih => exact Production.length_run_le ih rule.production s

/-- No fault is reported between two points of a parse, and no class without a name has got a brace. -/
structure Clean (s t : Parsing) : Prop where
  /-- The errors are the same. -/
  errors : t.errors = s.errors
  /-- Classes without a name have braces in their parts only. -/
  unbraced : t.BuiltWith Unbraced

/-- If no fault is reported from `s` to `u`, none is reported up to a point `t` in between and none after
it. -/
theorem Clean.between {s t u : Parsing} (clean : Clean s u) (before : s.errors <:+ t.errors)
    (after : t.errors <:+ u.errors) (stays : u.BuiltWith Unbraced → t.BuiltWith Unbraced) :
    Clean s t ∧ Clean t u := by
  obtain ⟨first, second⟩ := Parsing.errors_eq_of_suffix before after clean.errors
  exact ⟨⟨first, stays clean.unbraced⟩, ⟨second, clean.unbraced⟩⟩

/-- The same for a point from which a production leads on. -/
theorem Clean.split {s t : Parsing} (p : Grammar) {depth : Nat} (before : s.errors <:+ t.errors)
    (clean : Clean s (p.run (Rule.follow depth) t).2) :
    Clean s t ∧ Clean t (p.run (Rule.follow depth) t).2 :=
  clean.between before (Production.errors_run (Rule.errors_follow depth) p t)
    (Production.builtWith_of_run (Rule.builtWith_of_follow depth) p)

/-- If no fault is reported in a branch, none is reported in its condition and in the way it goes. -/
theorem Clean.branch {P : Bool × Parsing → Prop} {condition yes no : Grammar} {depth : Nat} {s : Parsing}
    (clean : Clean s ((Production.branch condition yes no).run (Rule.follow depth) s).2)
    (onTrue : (condition.run (Rule.follow depth) s).1 = true →
      Clean s (condition.run (Rule.follow depth) s).2 →
      Clean (condition.run (Rule.follow depth) s).2
        (yes.run (Rule.follow depth) (condition.run (Rule.follow depth) s).2).2 →
      P (yes.run (Rule.follow depth) (condition.run (Rule.follow depth) s).2))
    (onFalse : (condition.run (Rule.follow depth) s).1 = false →
      Clean s (condition.run (Rule.follow depth) s).2 →
      Clean (condition.run (Rule.follow depth) s).2
        (no.run (Rule.follow depth) (condition.run (Rule.follow depth) s).2).2 →
      P (no.run (Rule.follow depth) (condition.run (Rule.follow depth) s).2)) :
    P ((Production.branch condition yes no).run (Rule.follow depth) s) := by
  have before := Production.errors_run (Rule.errors_follow depth) condition s
  refine Production.branch_cases (P := fun result => Clean s result.2 → P result) (fun answer after => ?_)
    (fun answer after => ?_) clean
  · obtain ⟨clean₁, clean₂⟩ := after.split yes before
    exact onTrue answer clean₁ clean₂
  · obtain ⟨clean₁, clean₂⟩ := after.split no before
    exact onFalse answer clean₁ clean₂

/-- The same for a point from which rounds lead on. -/
theorem Clean.split_iterate {s t : Parsing} (body : Grammar) {depth n : Nat}
    (before : s.errors <:+ t.errors) (clean : Clean s (iterate (body.run (Rule.follow depth)) n t)) :
    Clean s t ∧ Clean t (iterate (body.run (Rule.follow depth)) n t) := by
  refine clean.between before ?_ ?_
  · exact Production.iterate_induction (P := fun u => t.errors <:+ u.errors)
      (fun u le => le.trans (Production.errors_run (Rule.errors_follow depth) body u)) n
      (List.suffix_refl _)
  · exact Production.iterate_induction (P := fun u => u.BuiltWith Unbraced → t.BuiltWith Unbraced)
      (fun u stays built =>
        stays (Production.builtWith_of_run (Rule.builtWith_of_follow depth) body built)) n id

namespace Parsing.Tidy

variable {s : Parsing}

/-- Taking a token leaves the tokens behind it alone. -/
theorem take (tidy : s.Tidy) (rename : Kind → Kind) : (s.take rename).Tidy := by
  cases ahead : s.ahead with
  | nil =>
      rw [Parsing.take]
      simp only [Parsing.flush, ahead]
      exact ⟨List.forall_mem_nil _, List.forall_mem_nil _⟩
  | cons next rest =>
      have significant := tidy.2
      rw [ahead] at significant
      rw [Parsing.take]
      simp only [Parsing.flush, ahead]
      exact ⟨(significant next List.mem_cons_self).2,
        fun l mem => significant l (List.mem_cons_of_mem _ mem)⟩

end Parsing.Tidy

/-- The tokens ahead begin as a rule does. For a class-like with modifiers this is seen at its keyword. -/
def Rule.Begins (rule : Rule) (s : Parsing) : Prop :=
  (∃ pattern ∈ rule.starts, ∀ n kinds, pattern[n]? = some kinds → s.kindAt n ∈ kinds) ∨
    rule = .classLike ∧ modifiersThenClass s.kinds = true

/-- What following a rule without faults does to a parse. -/
structure Rule.Pairs (rule : Rule) (s : Parsing) (result : Bool × Parsing) : Prop where
  /-- The tokens ahead are what they were. -/
  tidy : result.2.Tidy
  /-- The braces of each node are in pairs. -/
  built : result.2.BuiltWith Paired
  /-- The rule takes a token where this is known. -/
  moves : rule.moves = true → result.2.ahead.length < s.ahead.length
  /-- A rule takes no braces outside of nodes, but a group in braces does, in pairs if it is complete. -/
  braces : ∃ added, result.2.built = added ++ s.built ∧
    (rule ≠ .braced → Braceless (ownKinds added.reverse)) ∧
      (rule = .braced → result.1 = true → Balanced (ownKinds added.reverse))
  /-- A group in braces that is not complete ends with the text. -/
  ends : rule = .braced → result.1 = false → result.2.ahead = []

/-- With at most `depth` rules open, all rules that can be needed take braces in pairs. -/
def Rule.AllPair (depth : Nat) : Prop :=
  ∀ (rule : Rule) (s : Parsing), rule.rank + 32 * s.ahead.length < depth → rule.Begins s → s.Tidy →
    s.BuiltWith Paired → Clean s (Rule.follow depth rule s).2 → rule.Pairs s (Rule.follow depth rule s)

/-- What a stage says of a parse, when `base` was in the open construct and `limit` tokens were ahead
before. -/
structure Stage.Holds (stage : Stage) (base : List Tree) (limit : Nat) (s : Parsing) : Prop where
  /-- What is known of the tokens ahead. -/
  known : ∀ n kinds, stage.known n = some kinds → s.kindAt n ∈ kinds
  /-- What is known of the braces. -/
  braces : ∃ added, s.built = added ++ base ∧ stage.braces.Fits (ownKinds added.reverse)
  /-- No token comes back. -/
  room : s.ahead.length ≤ limit
  /-- A token has been taken, if this is known. -/
  moved : stage.moved = true → s.ahead.length < limit
  /-- The tokens ahead are what they were. -/
  tidy : s.Tidy

/-- What a production leads to, when `base` was in the open construct and `limit` tokens were ahead
before. -/
def Stage.Reached (Q : Bool → Stage → Bool) (base : List Tree) (limit : Nat)
    (result : Bool × Parsing) : Prop :=
  ∃ after : Stage, Q result.1 after = true ∧ after.Holds base limit result.2 ∧
    result.2.BuiltWith Paired

/-! ## (3) What is read off holds of every parse without faults -/

namespace Opened

/-- Tokens that are no braces do not matter. -/
theorem Fits.append {braces : Opened} {kinds others : List Kind} (fits : braces.Fits kinds)
    (plain : Braceless others) : braces.Fits (kinds ++ others) := by
  cases braces with
  | bare => exact Braceless.append fits plain
  | within n =>
      have fits : nestAll 0 kinds = some n := fits
      change nestAll 0 (kinds ++ others) = some n
      rw [nestAll_append, fits, Option.bind_some, plain.nestAll]
  | lost => trivial

/-- What is known after one more token holds. -/
theorem Fits.after {braces next : Opened} {kinds : List Kind} {kind : Kind} (fits : braces.Fits kinds)
    (after : braces.after kind = some next) : next.Fits (kinds ++ [kind]) := by
  cases braces with
  | bare =>
      have nest : nestAll 0 (kinds ++ [kind]) = kind.nest 0 := by
        rw [nestAll_append, Braceless.nestAll fits, Option.bind_some, nestAll_cons]
        cases kind.nest 0 <;> rfl
      rw [Opened.after] at after
      split at after
      · rename_i opening
        cases after
        rw [opening] at nest ⊢
        exact nest
      · split at after
        · cases after
        · rename_i notOpening notClosing
          cases after
          refine Braceless.append fits (List.forall_mem_singleton.mpr ?_)
          exact Bool.or_eq_false_iff.mpr ⟨beq_eq_false_iff_ne.mpr notOpening,
            beq_eq_false_iff_ne.mpr notClosing⟩
  | within n =>
      obtain ⟨m, nest, rfl⟩ := Option.map_eq_some_iff.mp after
      have fits : nestAll 0 kinds = some n := fits
      change nestAll 0 (kinds ++ [kind]) = some m
      rw [nestAll_append, fits, Option.bind_some, nestAll_cons, nest]
      rfl
  | lost =>
      cases after
      trivial

/-- A token that is no brace changes nothing. -/
theorem after_of_not_isBrace {kind : Kind} (other : kind.isBrace = false) (braces : Opened) :
    braces.after kind = some braces := by
  obtain ⟨notOpening, notClosing⟩ := Bool.or_eq_false_iff.mp other
  cases braces with
  | bare => rw [after, if_neg (beq_eq_false_iff_ne.mp notOpening), if_neg (beq_eq_false_iff_ne.mp notClosing)]
  | within n => rw [after, Kind.nest_of_not_isBrace other, Option.map_some]
  | lost => rfl

/-- Braces that are known to be in pairs are. -/
theorem Fits.balanced {braces : Opened} {kinds : List Kind} (fits : braces.Fits kinds)
    (closed : braces.isClosed = true) : Balanced kinds := by
  cases braces with
  | bare => exact Braceless.balanced fits
  | within n =>
      rw [beq_iff_eq.mp closed] at fits
      exact fits
  | lost => cases closed

/-- More braces in pairs do not matter, except that there are some. -/
theorem Fits.paired {braces : Opened} {kinds others : List Kind} (fits : braces.Fits kinds)
    (balanced : Balanced others) : braces.paired.Fits (kinds ++ others) := by
  cases braces with
  | bare => exact (Braceless.balanced fits).append balanced
  | within n =>
      have fits : nestAll 0 kinds = some n := fits
      change nestAll 0 (kinds ++ others) = some n
      rw [nestAll_append, fits, Option.bind_some, balanced.nestAll]
  | lost => trivial

end Opened

namespace Stage

/-- The kind that is found ahead is one of those that were listed, so what was foreseen for these applies. -/
theorem foreseen {kind : Kind} {kinds : List Kind} (mem : kind ∈ kinds) {next : Bool}
    (listed : (kinds.isEmpty || next) = true) : next = true := by
  refine (Bool.or_eq_true_iff.mp listed).resolve_left fun none => ?_
  rw [List.isEmpty_iff.mp none] at mem
  cases mem

namespace Holds

variable {stage : Stage} {base : List Tree} {limit : Nat} {s t : Parsing}

/-- The tokens ahead are of kinds that are possible. -/
theorem mem_possible (holds : stage.Holds base limit s) (n : Nat) : s.kindAt n ∈ stage.possible n := by
  rw [possible]
  cases found : stage.known n with
  | none => exact Kind.mem_all _
  | some kinds => exact holds.known n kinds found

/-- More is known of a token ahead. -/
theorem refine (holds : stage.Holds base limit s) {n : Nat} {kinds : List Kind}
    (mem : s.kindAt n ∈ kinds) : (stage.refine n kinds).Holds base limit s where
  known := by
    intro i listed found
    have found : (if i = n then some kinds else stage.known i) = some listed := found
    by_cases same : i = n
    · rw [if_pos same] at found
      cases found
      rw [same]
      exact mem
    · rw [if_neg same] at found
      exact holds.known i listed found
  braces := holds.braces
  room := holds.room
  moved := holds.moved
  tidy := holds.tidy

/-- Where nothing is said of the tokens ahead, the rest remains to be shown. -/
theorem of_start {braces : Opened} {moved : Bool} (tidy : s.Tidy) (room : s.ahead.length ≤ limit)
    (moves : moved = true → s.ahead.length < limit)
    (fits : ∃ added, s.built = added ++ base ∧ braces.Fits (ownKinds added.reverse)) :
    (start braces moved).Holds base limit s where
  known := by
    intro n kinds found
    cases found
  braces := fits
  room := room
  moved := moves
  tidy := tidy

/-- Nothing needs to be known of the tokens ahead. -/
theorem forget (holds : stage.Holds base limit s) : (start stage.braces stage.moved).Holds base limit s :=
  .of_start holds.tidy holds.room holds.moved holds.braces

/-- A token is taken. -/
theorem take (holds : stage.Holds base limit s) (rename : Kind → Kind)
    (plain : (rename .error).isBrace = false) {braces : Opened}
    (after : stage.braces.after (rename (s.kindAt 0)) = some braces) {moves : Bool}
    (more : moves = true → s.kindAt 0 ≠ .error) :
    (stage.step moves braces).Holds base limit (s.take rename) where
  known := by
    intro n kinds found
    have next : (s.take rename).kindAt n = s.kindAt (n + 1) := by
      rw [Parsing.kindAt, Parsing.ahead_take, List.getElem?_tail, Parsing.kindAt]
    rw [next]
    exact holds.known (n + 1) kinds found
  braces := by
    obtain ⟨added, built, fits⟩ := holds.braces
    have gap := fits.append (braceless_trivia holds.tidy.1)
    cases ahead : s.ahead with
    | nil =>
        -- At the end only trivia are taken, and the kind that stands for the end is no brace.
        have atEnd : s.kindAt 0 = .error := by simp [Parsing.kindAt, ahead]
        rw [atEnd, Opened.after_of_not_isBrace plain] at after
        cases after
        refine ⟨(s.gap.map Token.leaf).reverse ++ added, ?_, ?_⟩
        · simp [Parsing.take, Parsing.flush, ahead, built]
        · rw [List.reverse_append, List.reverse_reverse, ownKinds_append]
          exact gap
    | cons next rest =>
        have kind : s.kindAt 0 = next.token.kind := by simp [Parsing.kindAt, ahead]
        rw [kind] at after
        refine ⟨.leaf (rename next.token.kind) next.token.text :: ((s.gap.map Token.leaf).reverse ++ added),
          ?_, ?_⟩
        · simp [Parsing.take, Parsing.flush, ahead, built]
        · rw [List.reverse_cons, List.reverse_append, List.reverse_reverse, ownKinds_append, ownKinds_append]
          exact gap.after after
  room := (s.length_take_le rename).trans holds.room
  moved := by
    intro moved
    rcases Bool.or_eq_true_iff.mp moved with before | now
    · exact (s.length_take_le rename).trans_lt (holds.moved before)
    · have notEnd : s.ahead ≠ [] := fun none => more now (by simp [Parsing.kindAt, none])
      exact (Parsing.length_take_lt notEnd rename).trans_le holds.room
  tidy := holds.tidy.take rename

/-- Inside a construct nothing has been taken yet. -/
theorem fresh (holds : stage.Holds base limit s) :
    { stage with braces := .bare : Stage }.Holds [] limit s.flush.fresh where
  known := holds.known
  braces := ⟨[], rfl, braceless_nil⟩
  room := holds.room
  moved := holds.moved
  tidy := holds.tidy.opened

/-- A construct that was read adds parts without braces of their own. -/
theorem put (holds : stage.Holds base limit s) (parts : List Tree)
    (plain : Braceless (ownKinds parts.reverse)) (shorter : t.ahead.length ≤ s.ahead.length)
    (tidy : t.Tidy) {moved : Bool} (moves : moved = true → t.ahead.length < limit) :
    (start stage.braces moved).Holds base limit { t with built := parts ++ s.flush.built } := by
  obtain ⟨added, built, fits⟩ := holds.braces
  refine .of_start tidy (shorter.trans holds.room) moves
    ⟨parts ++ ((s.gap.map Token.leaf).reverse ++ added), ?_, ?_⟩
  · simp [Parsing.flush, built]
  · rw [List.reverse_append, List.reverse_append, List.reverse_reverse, ownKinds_append, ownKinds_append]
    exact (fits.append (braceless_trivia holds.tidy.1)).append plain

/-- A rule that begins with the tokens known to be ahead begins here. -/
theorem begins (holds : stage.Holds base limit s) {rule : Rule}
    (starts : rule.startsAt stage.known = true) : rule.Begins s := by
  obtain ⟨pattern, mem, all⟩ := List.any_eq_true.mp starts
  refine .inl ⟨pattern, mem, fun n kinds found => ?_⟩
  have inPattern : (kinds, n) ∈ pattern.zipIdx := List.mem_zipIdx_iff_getElem?.mpr found
  have covered := List.all_eq_true.mp all _ inPattern
  obtain ⟨possible, known, listed⟩ := (Option.any_eq_true _ _).mp covered
  have contained := List.all_eq_true.mp listed _ (holds.known n possible known)
  exact List.contains_iff_mem.mp contained

/-- The braces of a construct that is known to have closed them are in pairs. -/
theorem balanced (holds : stage.Holds [] limit s) (closed : stage.braces.isClosed = true) :
    Balanced (ownKinds s.built.reverse) := by
  obtain ⟨parts, all, fits⟩ := holds.braces
  rw [all, List.append_nil]
  exact fits.balanced closed

/-- A construct that is known to have no braces of its own has none. -/
theorem braceless (holds : stage.Holds [] limit s) (bare : (stage.braces == .bare) = true) :
    Braceless (ownKinds s.built.reverse) := by
  obtain ⟨parts, all, fits⟩ := holds.braces
  rw [beq_iff_eq.mp bare] at fits
  rw [all, List.append_nil]
  exact fits

/-- There is room for a rule that is followed in order. -/
theorem shallow (holds : stage.Holds base limit s) {rule : Rule} {rank depth : Nat}
    (inOrder : (stage.moved || decide (rule.rank < rank)) = true) (enough : rank + 32 * limit ≤ depth) :
    rule.rank + 32 * s.ahead.length < depth := by
  have small := rule.rank_lt
  have room := holds.room
  rcases Bool.or_eq_true_iff.mp inOrder with moved | lower
  · have less := holds.moved moved
    omega
  · have less := of_decide_eq_true lower
    omega

/-- What is foreseen for a rule holds once it has been followed. -/
theorem reached_of_pairs (holds : stage.Holds base limit s) {rule : Rule} {result : Bool × Parsing}
    (pairs : rule.Pairs s result) (shorter : result.2.ahead.length ≤ s.ahead.length)
    {Q : Bool → Stage → Bool}
    (next : (if rule = .braced then
        Q true (.start stage.braces.paired (stage.moved || rule.moves)) &&
          Q false (.start .lost (stage.moved || rule.moves))
      else
        Q true (.start stage.braces (stage.moved || rule.moves)) &&
          Q false (.start stage.braces (stage.moved || rule.moves))) = true) :
    Reached Q base limit result := by
  obtain ⟨added, parts, plain, balanced⟩ := pairs.braces
  obtain ⟨earlier, already, fits⟩ := holds.braces
  have known {braces : Opened} (fits : braces.Fits (ownKinds earlier.reverse ++ ownKinds added.reverse)) :
      (start braces (stage.moved || rule.moves)).Holds base limit result.2 := by
    refine .of_start pairs.tidy (shorter.trans holds.room) (fun moved => ?_) ⟨added ++ earlier, ?_, ?_⟩
    · rcases Bool.or_eq_true_iff.mp moved with before | now
      · exact shorter.trans_lt (holds.moved before)
      · exact (pairs.moves now).trans_le holds.room
    · rw [parts, already, List.append_assoc]
    · rw [List.reverse_append, ownKinds_append]
      exact fits
  by_cases group : rule = .braced
  · rw [if_pos group] at next
    obtain ⟨onTrue, onFalse⟩ := Bool.and_eq_true_iff.mp next
    cases complete : result.1 with
    | true => exact ⟨_, by rwa [complete], known (fits.paired (balanced group complete)), pairs.built⟩
    | false => exact ⟨start .lost _, by rwa [complete], known trivial, pairs.built⟩
  · rw [if_neg group] at next
    exact ⟨_, Production.of_both (Q := fun answer => Q answer _) next result.1, known (fits.append (plain group)),
      pairs.built⟩

/-- What is foreseen for a look at the tokens ahead holds. -/
theorem reached_look (holds : stage.Holds base limit s) (built : s.BuiltWith Paired) {rank depth : Nat}
    {condition : Lookahead} {Q : Bool → Stage → Bool}
    (balances : (Production.look condition : Grammar).balances rank stage Q = true) :
    Reached Q base limit ((Production.look condition : Grammar).run (Rule.follow depth) s) := by
  cases condition with
  | kind n test =>
      obtain ⟨onTrue, onFalse⟩ := Bool.and_eq_true_iff.mp balances
      have mem := holds.mem_possible n
      rw [Production.run, Lookahead.holds]
      cases found : test (s.kindAt n) with
      | true =>
          have listed : s.kindAt n ∈ (stage.possible n).filter test := List.mem_filter.mpr ⟨mem, found⟩
          exact ⟨_, foreseen listed onTrue, holds.refine listed, built⟩
      | false =>
          have listed : s.kindAt n ∈ (stage.possible n).filter (!test ·) :=
            List.mem_filter.mpr ⟨mem, by rw [found]; rfl⟩
          exact ⟨_, foreseen listed onFalse, holds.refine listed, built⟩
  | _ => exact ⟨stage, Production.of_both (Q := fun answer => Q answer stage) balances _, holds, built⟩

/-- A node with closed braces is added, and what is known of the braces around it stays. -/
theorem reached_node (holds : stage.Holds base limit s) (built : s.BuiltWith Paired) {kind : Kind}
    (notBody : kind ≠ .classBody) {inner : Bool × Parsing}
    (inside : Reached (fun _ done => done.braces.isClosed) [] limit inner)
    (shorter : inner.2.ahead.length ≤ s.ahead.length) {moved : Bool}
    (moves : moved = true → inner.2.ahead.length < limit) {Q : Bool → Stage → Bool}
    (next : ∀ answer, Q answer (.start stage.braces moved) = true) :
    Reached Q base limit
      (inner.1, { inner.2 with built := .node kind inner.2.built.reverse :: s.flush.built }) := by
  obtain ⟨done, closed, holds', built'⟩ := inside
  have here : Paired kind inner.2.built.reverse :=
    ⟨holds'.balanced closed, fun isBody => absurd isBody notBody⟩
  have outside := holds.put [.node kind inner.2.built.reverse] braceless_nil shorter holds'.tidy moves
  exact ⟨_, next inner.1, outside, built.flush.node built' here⟩

/-- A group without braces is added, and what is known of the braces around it stays. -/
theorem reached_group (holds : stage.Holds base limit s) (built : s.BuiltWith Paired)
    {inner : Bool × Parsing} (inside : Reached (fun _ done => done.braces == .bare) [] limit inner)
    (shorter : inner.2.ahead.length ≤ s.ahead.length) {Q : Bool → Stage → Bool}
    (next : ∀ answer, Q answer (.start stage.braces stage.moved) = true) :
    Reached Q base limit (inner.1, { inner.2 with built := inner.2.built ++ s.flush.built }) := by
  obtain ⟨done, bare, holds', built'⟩ := inside
  have outside := holds.put inner.2.built (holds'.braceless bare) shorter holds'.tidy
    fun moved => shorter.trans_lt (holds.moved moved)
  exact ⟨_, next inner.1, outside, built.flush.group built'⟩

end Holds

/-- Everything in the open construct is gathered into a node with closed braces. -/
theorem Reached.wrap {Q : Bool → Stage → Bool} {limit : Nat} {kind : Kind} (notBody : kind ≠ .classBody)
    {inner : Bool × Parsing}
    (inside : Reached (fun result done => done.braces.isClosed && Q result { done with braces := .bare }) []
      limit inner) :
    Reached Q [] limit (inner.1, { inner.2 with built := [.node kind inner.2.built.reverse] }) := by
  obtain ⟨done, next, holds, built⟩ := inside
  obtain ⟨closed, next⟩ := Bool.and_eq_true_iff.mp next
  have here : Paired kind inner.2.built.reverse :=
    ⟨holds.balanced closed, fun isBody => absurd isBody notBody⟩
  exact ⟨_, next, ⟨holds.known, ⟨[.node kind inner.2.built.reverse], rfl, braceless_nil⟩, holds.room,
    holds.moved, holds.tidy⟩, built.wrap here⟩

end Stage

namespace Production

variable {depth rank limit : Nat}

/-- Rounds that keep what is known of the braces keep it to the end. -/
theorem iterate_balances {base : List Tree} {braces : Opened} {moved : Bool} {body : Grammar}
    (round : ∀ s, (Stage.start braces moved).Holds base limit s → s.BuiltWith Paired →
      Clean s (body.run (Rule.follow depth) s).2 →
      Stage.Reached (fun _ done => done.braces == braces) base limit (body.run (Rule.follow depth) s))
    (n : Nat) {s : Parsing} (holds : (Stage.start braces moved).Holds base limit s)
    (built : s.BuiltWith Paired) (clean : Clean s (iterate (body.run (Rule.follow depth)) n s)) :
    (Stage.start braces moved).Holds base limit (iterate (body.run (Rule.follow depth)) n s) ∧
      (iterate (body.run (Rule.follow depth)) n s).BuiltWith Paired := by
  -- If no fault is reported in the end, none is reported in any round.
  refine (iterate_induction (P := fun t => s.errors <:+ t.errors ∧ (Clean s t →
    (Stage.start braces moved).Holds base limit t ∧ t.BuiltWith Paired))
    (fun t kept => ?_) n ⟨List.suffix_refl _, fun _ => ⟨holds, built⟩⟩).2 clean
  obtain ⟨before, keeps⟩ := kept
  refine ⟨before.trans (errors_run (Rule.errors_follow depth) body t), fun clean => ?_⟩
  obtain ⟨clean₁, clean₂⟩ := clean.split body before
  obtain ⟨holds, built⟩ := keeps clean₁
  obtain ⟨after, same, holds', built'⟩ := round t holds built clean₂
  have shorter := length_run_le (Rule.length_follow_le depth) body t
  have fits := holds'.braces
  rw [beq_iff_eq.mp same] at fits
  exact ⟨.of_start holds'.tidy holds'.room (fun moved => shorter.trans_lt (holds.moved moved)) fits, built'⟩

/-- The same for rounds the first of which takes a token, whatever was known before it. -/
theorem iterate_balances_moved {base : List Tree} {braces : Opened} {body : Grammar}
    (round : ∀ s, (Stage.start braces true).Holds base limit s → s.BuiltWith Paired →
      Clean s (body.run (Rule.follow depth) s).2 →
      Stage.Reached (fun _ done => done.braces == braces) base limit (body.run (Rule.follow depth) s))
    (n : Nat) {s : Parsing}
    (first : Clean s (body.run (Rule.follow depth) s).2 →
      Stage.Reached (fun result done => result && done.moved && done.braces == braces) base limit
        (body.run (Rule.follow depth) s))
    (clean : Clean s (iterate (body.run (Rule.follow depth)) (n + 1) s)) :
    (Stage.start braces true).Holds base limit (iterate (body.run (Rule.follow depth)) (n + 1) s) ∧
      (iterate (body.run (Rule.follow depth)) (n + 1) s).BuiltWith Paired := by
  have before := errors_run (Rule.errors_follow depth) body s
  rw [iterate] at clean ⊢
  rcases found : body.run (Rule.follow depth) s with ⟨_ | _, t⟩
  · rw [found] at first clean
    obtain ⟨done, falsity, -⟩ := first clean
    cases falsity
  · rw [found] at before first clean
    obtain ⟨clean₁, clean₂⟩ := clean.split_iterate body before
    obtain ⟨done, told, holds, built⟩ := first clean₁
    obtain ⟨moved, same⟩ := Bool.and_eq_true_iff.mp told
    have fits := holds.braces
    rw [beq_iff_eq.mp same] at fits
    have start : (Stage.start braces true).Holds base limit t :=
      .of_start holds.tidy holds.room (fun _ => holds.moved moved) fits
    exact iterate_balances round n start built clean₂

/-- The rounds of a loop start from what is known of the braces before all of them. That a token has been
taken is known before all of them, too, or because the first round is sure to take it. -/
theorem iterate_balances_from {stage : Stage} {base : List Tree} {moves : Bool} {body : Grammar} {s : Parsing}
    (holds : stage.Holds base limit s) (built : s.BuiltWith Paired)
    (first : moves = true → Clean s (body.run (Rule.follow depth) s).2 →
      Stage.Reached (fun result done => result && done.moved && done.braces == stage.braces) base limit
        (body.run (Rule.follow depth) s))
    (round : ∀ t, (Stage.start stage.braces (stage.moved || moves)).Holds base limit t → t.BuiltWith Paired →
      Clean t (body.run (Rule.follow depth) t).2 →
      Stage.Reached (fun _ done => done.braces == stage.braces) base limit (body.run (Rule.follow depth) t))
    (n : Nat) (clean : Clean s (iterate (body.run (Rule.follow depth)) (n + 1) s)) :
    (Stage.start stage.braces (stage.moved || moves)).Holds base limit
        (iterate (body.run (Rule.follow depth)) (n + 1) s) ∧
      (iterate (body.run (Rule.follow depth)) (n + 1) s).BuiltWith Paired := by
  cases moves with
  | false =>
      rw [Bool.or_false] at round ⊢
      exact iterate_balances round _ holds.forget built clean
  | true =>
      rw [Bool.or_true] at round ⊢
      exact iterate_balances_moved round _ (first rfl) clean

/-- **What is read off a production holds of every parse without faults**: the stage it leads to is one that
was foreseen, and the braces of each node that it builds are in pairs. -/
theorem balances_run (rules : Rule.AllPair depth) (enough : rank + 32 * limit ≤ depth) (p : Grammar)
    {stage : Stage} {Q : Bool → Stage → Bool} (balances : p.balances rank stage Q = true)
    {base : List Tree} (keeps : p.keeps = true ∨ base = []) {s : Parsing}
    (holds : stage.Holds base limit s) (built : s.BuiltWith Paired)
    (clean : Clean s (p.run (Rule.follow depth) s).2) :
    Stage.Reached Q base limit (p.run (Rule.follow depth) s) := by
  -- What is left to do after a part is in `Q`, so `Q` differs from part to part, as the stage does.
  induction p generalizing stage Q base s with
  | answer ok => exact ⟨stage, balances, holds, built⟩
  | look condition => exact holds.reached_look built balances
  | bump =>
      have next := List.all_eq_true.mp balances _ (holds.mem_possible 0)
      obtain ⟨braces, after, next⟩ := (Option.any_eq_true _ _).mp next
      exact ⟨_, next, holds.take id rfl after fun more => by simpa using more, built.take id⟩
  | bumpAs kind =>
      obtain ⟨plain, next⟩ := Bool.and_eq_true_iff.mp balances
      have plain : kind.isBrace = false := by simpa using plain
      have same := Opened.after_of_not_isBrace plain stage.braces
      refine ⟨_, next, holds.take (fun _ => kind) plain same fun moves atEnd => ?_, built.take _⟩
      have mem := holds.mem_possible 0
      rw [atEnd] at mem
      simp [mem] at moves
  | fault cause => exact absurd clean.errors (List.cons_ne_self _ _)
  | andThen first second ih₁ ih₂ =>
      have balances : first.balances rank stage (fun _ middle => second.balances rank middle Q) = true :=
        balances
      have clean : Clean s (second.run (Rule.follow depth) (first.run (Rule.follow depth) s).2).2 := clean
      obtain ⟨keeps₁, keeps₂⟩ := keeps_andThen keeps
      obtain ⟨clean₁, clean₂⟩ := clean.split second (errors_run (Rule.errors_follow depth) first s)
      obtain ⟨middle, next, holds, built⟩ := ih₁ balances keeps₁ holds built clean₁
      exact ih₂ next keeps₂ holds built clean₂
  | branch condition yes no ih ihYes ihNo =>
      obtain ⟨keeps, keepsYes, keepsNo⟩ := keeps_branch keeps
      have reached := ih (s := s) balances keeps holds built
      refine clean.branch (fun answer clean₁ clean₂ => ?_) (fun answer clean₁ clean₂ => ?_)
      · obtain ⟨middle, next, holds, built⟩ := reached clean₁
        rw [answer] at next
        exact ihYes next keepsYes holds built clean₂
      · obtain ⟨middle, next, holds, built⟩ := reached clean₁
        rw [answer] at next
        exact ihNo next keepsNo holds built clean₂
  | byKind cases ih =>
      have next := List.all_eq_true.mp balances _ (holds.mem_possible 0)
      exact ih (s.kindAt 0) next (keeps_byKind keeps _) (holds.refine (List.mem_singleton.mpr rfl)) built clean
  | node kind body ih =>
      obtain ⟨balances, onFalse⟩ := Bool.and_eq_true_iff.mp balances
      obtain ⟨balances, onTrue⟩ := Bool.and_eq_true_iff.mp balances
      obtain ⟨notBody, balances⟩ := Bool.and_eq_true_iff.mp balances
      let inner := body.run (Rule.follow depth) s.flush.fresh
      have clean : Clean s.flush.fresh inner.2 := ⟨clean.errors, clean.unbraced.inside⟩
      have shorter : inner.2.ahead.length ≤ s.ahead.length :=
        length_run_le (Rule.length_follow_le depth) body s.flush.fresh
      refine holds.reached_node built (bne_iff_ne.mp notBody)
        (ih balances (.inr rfl) holds.fresh .fresh clean) shorter (fun moved => ?_)
        (of_both (Bool.and_eq_true_iff.mpr ⟨onTrue, onFalse⟩))
      rcases Bool.or_eq_true_iff.mp moved with before | now
      · exact shorter.trans_lt (holds.moved before)
      · obtain ⟨done, moved, inside, -⟩ := ih now (.inr rfl) holds.fresh .fresh clean
        exact inside.moved moved
  | group body ih =>
      obtain ⟨balances, onFalse⟩ := Bool.and_eq_true_iff.mp balances
      obtain ⟨balances, onTrue⟩ := Bool.and_eq_true_iff.mp balances
      have clean : Clean s.flush.fresh (body.run (Rule.follow depth) s.flush.fresh).2 :=
        ⟨clean.errors, fun tree mem => clean.unbraced tree (List.mem_append_left _ mem)⟩
      have balances : body.balances rank (.start .bare stage.moved) (fun _ done => done.braces == .bare) =
          true := by
        cases moved : stage.moved with
        | true => rwa [moved] at balances
        | false => rwa [moved] at balances
      exact holds.reached_group built (ih balances (.inr rfl) holds.fresh.forget .fresh clean)
        (length_run_le (Rule.length_follow_le depth) body s.flush.fresh)
        (of_both (Bool.and_eq_true_iff.mpr ⟨onTrue, onFalse⟩))
  | wrap kind body ih =>
      obtain ⟨notBody, balances⟩ := Bool.and_eq_true_iff.mp balances
      -- The parts that are gathered are all parts of the open construct.
      obtain rfl : base = [] := keeps.resolve_left Bool.false_ne_true
      have clean : Clean s (body.run (Rule.follow depth) s).2 := ⟨clean.errors, clean.unbraced.inside⟩
      exact (ih balances (.inr rfl) holds built clean).wrap (bne_iff_ne.mp notBody)
  | loop body ih =>
      obtain ⟨each, next⟩ := Bool.and_eq_true_iff.mp balances
      exact ⟨_, next, iterate_balances_from holds built (fun first clean => ih first keeps holds built clean)
        (fun _ holds built clean => ih each keeps holds built clean) s.ahead.length clean⟩
  | advances body ih =>
      obtain ⟨done, next, holds, built⟩ := ih balances keeps holds built clean
      exact ⟨done, of_advances (Q := fun answer => Q answer done) next _, holds, built⟩
  | call rule =>
      obtain ⟨balances, next⟩ := Bool.and_eq_true_iff.mp balances
      obtain ⟨inOrder, starts⟩ := Bool.and_eq_true_iff.mp balances
      have shallow := holds.shallow inOrder enough
      have pairs := rules rule s shallow (holds.begins starts) holds.tidy built clean
      exact holds.reached_of_pairs pairs (Rule.length_follow_le depth rule s) next

end Production

end PhpMembers
