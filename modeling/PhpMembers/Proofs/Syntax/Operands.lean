import PhpMembers.Proofs.Syntax.Braces

/-! # The operands that productions read

An operator is gathered with what stands in front of it in the open construct. That is one operand: besides
trivia and attributes at most one expression, which is not empty, and no token of its own. Damage can leave
the operand out. How many expressions a production adds, and whether it takes a token, can be read off its
steps, and one induction shows that what is read off holds of every parse, damaged or not.

* `Operands` : parts that are operands.
* `Gathered` : what is known on the way through a production.
* `Production.gathers` : what can be read off a production.
* `Production.gathers_run` : what is read off holds of every parse.
* `Rule.gathers_follow` : the rules of the grammar. -/

namespace PhpMembers

/-! ## (1) Operands -/

/-- Whether a tree is an expression. -/
def Tree.isExpression : Tree → Bool
  | leaf _ _ => false
  | node kind _ => kind.isExpression

/-- Parts with at most `n` expressions among them, none of them empty, and no tokens but trivia. -/
structure Operands (n : Nat) (parts : List Tree) : Prop where
  /-- The tokens among the parts are trivia. -/
  trivia : ∀ kind ∈ ownKinds parts, kind.isTrivia = true
  /-- There are at most `n` expressions. -/
  count : parts.countP Tree.isExpression ≤ n
  /-- Each expression has a token. -/
  filled : ∀ part ∈ parts, part.isExpression = true → part.leaves ≠ []

namespace Operands

variable {n m : Nat} {parts others : List Tree}

theorem nil : Operands 0 [] :=
  ⟨List.forall_mem_nil _, Nat.le_refl _, List.forall_mem_nil _⟩

theorem mono (operands : Operands n parts) (le : n ≤ m) : Operands m parts :=
  ⟨operands.trivia, operands.count.trans le, operands.filled⟩

/-- Operands one after the other. -/
theorem append (first : Operands n parts) (second : Operands m others) : Operands (n + m) (parts ++ others) where
  trivia := by
    rw [ownKinds_append]
    exact List.forall_mem_append.mpr ⟨first.trivia, second.trivia⟩
  count := by
    rw [List.countP_append]
    exact Nat.add_le_add first.count second.count
  filled := List.forall_mem_append.mpr ⟨first.filled, second.filled⟩

/-- The order does not matter. -/
theorem reverse (operands : Operands n parts) : Operands n parts.reverse where
  trivia := by
    rw [ownKinds, List.filterMap_reverse]
    intro kind mem
    exact operands.trivia kind (List.mem_reverse.mp mem)
  count := by
    rw [List.countP_reverse]
    exact operands.count
  filled part mem := operands.filled part (List.mem_reverse.mp mem)

/-- Trivia adds no expression. -/
theorem gap {gap : List Token} (trivia : ∀ t ∈ gap, t.isTrivia = true) :
    Operands 0 (gap.map Token.leaf) := by
  induction gap with
  | nil => exact nil
  | cons t gap ih =>
      obtain ⟨first, later⟩ := List.forall_mem_cons.mp trivia
      have rest := ih later
      exact ⟨List.forall_mem_cons.mpr ⟨first, rest.trivia⟩, rest.count,
        List.forall_mem_cons.mpr ⟨fun falsity => absurd falsity Bool.false_ne_true, rest.filled⟩⟩

/-- A node adds one expression, if it is one. -/
theorem node {kind : Kind} {inside : List Tree}
    (filled : kind.isExpression = true → Tree.leavesOfAll inside ≠ []) :
    Operands (if kind.isExpression then 1 else 0) [.node kind inside] where
  trivia := List.forall_mem_nil _
  count := by
    rw [List.countP_singleton]
    rfl
  filled := by
    refine List.forall_mem_singleton.mpr fun expression => ?_
    rw [Tree.leaves_node]
    exact filled expression

end Operands

/-! ## (2) What can be read off a production -/

/-- What is known of the parts that a production has added to the open construct. -/
structure Gathered where
  /-- The kinds that the next token may have. -/
  next : List Kind
  /-- Whether a token is certainly among the parts or inside of them. -/
  taken : Bool
  /-- How many expressions there are at most, if there are no tokens but trivia among the parts. -/
  count : Option Nat
  /-- Whether rules are known to be followed: none is when too many are open. -/
  followed : Bool

namespace Gathered

/-- The next token has been taken. -/
def take (g : Gathered) : Gathered :=
  { g with next := Kind.all, taken := g.taken || !g.next.contains .error, count := none }

/-- A node has been added, and it is known whether there is a token in it. -/
def put (g : Gathered) (kind : Kind) (filled : Bool) : Gathered where
  next := Kind.all
  taken := g.taken || filled
  count := g.count.map (· + if kind.isExpression then 1 else 0)
  followed := g.followed

/-- A construct is opened. -/
def enter (g : Gathered) : Gathered := { g with taken := false, count := some 0 }

/-- What a group has gathered is added. -/
def join (g inner : Gathered) : Gathered where
  next := inner.next
  taken := g.taken || inner.taken
  count := g.count.bind fun n => inner.count.map (n + ·)
  followed := inner.followed

/-- Everything has been gathered into a node. -/
def wrap (g : Gathered) (kind : Kind) : Gathered :=
  { g with count := some (if kind.isExpression then 1 else 0) }

/-- One operand has been read. -/
def operand : Gathered := ⟨Kind.all, false, some 1, true⟩

/-- Whether what is known before a round of a loop is known after it. -/
def stays (g after : Gathered) : Bool :=
  (g.count == none || after.count == g.count) && (!g.taken || after.taken) && (!g.followed || after.followed)

end Gathered

namespace Rule

/-- The kinds of the tokens with which a rule begins, where it takes the first one untested. -/
def first : Rule → Option (List Kind)
  | .variable => some [.variable, .dollar]
  | argList => some [.lParen]
  | new => some [.newKw]
  | closure => some [.functionKw, .staticKw]
  | arrowFn => some [.fnKw, .staticKw]
  | choice => some [.matchKw]
  | _ => none

/-- How many expressions a rule adds at most, if it adds no tokens but trivia. -/
def operands : Rule → Option Nat
  | expression _ | unary | postfixed | primary => some 1
  | .variable | new | closure | arrowFn | choice => some 1
  | argList | attributeGroup => some 0
  | _ => none

/-- Whether a rule is known to take a token when it is followed. -/
def takes : Rule → Bool
  | argList => true
  | _ => false

/-- What is known when a rule begins. -/
def beginning (rule : Rule) : Gathered where
  next := rule.first.getD Kind.all
  taken := false
  count := some 0
  followed := false

/-- What is known after a rule has been followed with the given answer. -/
def after (rule : Rule) (g : Gathered) (answer : Bool) : Gathered where
  next := Kind.all
  taken := g.taken || (g.followed && rule.takes)
  count := g.count.bind fun n => rule.operands.map (n + ·)
  followed := g.followed || answer

end Rule

/-- Whether each expression that a production adds to the open construct has a token, each rule begins with
the right token, and the production leads to an answer and parts with the property `Q`. -/
def Production.gathers : Production Rule → Gathered → (Bool → Gathered → Bool) → Bool
  | answer ok, g, Q => Q ok g
  | look (.kind 0 test), g, Q =>
    let yes := g.next.filter test
    let no := g.next.filter (!test ·)
    (yes.isEmpty || Q true { g with next := yes }) && (no.isEmpty || Q false { g with next := no })
  | look _, g, Q => Q true g && Q false g
  | bump, g, Q | bumpAs _, g, Q => Q true g.take
  | fault _, g, Q => Q false g
  | andThen first second, g, Q => first.gathers g fun _ middle => second.gathers middle Q
  | branch condition yes no, g, Q =>
    condition.gathers g fun result middle => if result then yes.gathers middle Q else no.gathers middle Q
  | byKind cases, g, Q => g.next.all fun kind => (cases kind).gathers { g with next := [kind] } Q
  | node kind body, g, Q =>
    let filled := body.gathers g.enter fun _ done => done.taken
    (!kind.isExpression || filled) && Q true (g.put kind filled) && Q false (g.put kind filled)
  | group body, g, Q => body.gathers g.enter fun result done => Q result (g.join done)
  | wrap kind body, g, Q =>
    body.gathers g fun result done => (!kind.isExpression || done.taken) && Q result (done.wrap kind)
  | loop body, g, Q =>
    -- Nothing is known of the next token in a later round, and maybe not of the number of expressions.
    let each := { g with next := Kind.all }
    let loose := { each with count := none }
    if body.gathers each fun _ done => each.stays done then Q true each
    else body.gathers loose (fun _ done => loose.stays done) && Q true loose
  | advances body, g, Q => body.gathers g fun result done => (!result || Q true done) && Q false done
  | call rule, g, Q =>
    (rule.first.all fun first => g.next.all first.contains) &&
      Q true (rule.after g true) && Q false (rule.after g false)

/-! ## (3) What is read off holds of every parse -/

/-- What is known of the parts holds of a parse, when `base` was in the open construct before and at most
`depth` rules may be open. -/
structure Gathered.Holds (g : Gathered) (depth : Nat) (base : List Tree) (s : Parsing) : Prop where
  /-- The tokens ahead are what they were. -/
  tidy : s.Tidy
  /-- What is known of the next token. -/
  next : s.kindAt 0 ∈ g.next
  /-- What is known of the parts. -/
  parts : ∃ added, s.built = added ++ base ∧ (g.taken = true → Tree.leavesOfAll added ≠ []) ∧
    ∀ n, g.count = some n → Operands n added
  /-- Some rule can be followed, if this is known. -/
  followed : g.followed = true → 0 < depth

/-- What a production leads to, when `base` was in the open construct before. -/
def Gathered.Reached (Q : Bool → Gathered → Bool) (depth : Nat) (base : List Tree)
    (result : Bool × Parsing) : Prop :=
  ∃ after : Gathered, Q result.1 after = true ∧ after.Holds depth base result.2

/-- The next token is one with which the rule begins, where this matters. -/
def Rule.StartsWith (rule : Rule) (kind : Kind) : Prop := ∀ first, rule.first = some first → kind ∈ first

/-- What following a rule does to a parse, when at most `depth` rules may be open. -/
structure Rule.Gathers (rule : Rule) (depth : Nat) (s : Parsing) (result : Bool × Parsing) : Prop where
  /-- The tokens ahead are what they were. -/
  tidy : result.2.Tidy
  /-- The rule adds operands, and it takes a token where this is known. -/
  parts : ∃ added, result.2.built = added ++ s.built ∧
    (0 < depth → rule.takes = true → Tree.leavesOfAll added ≠ []) ∧
      ∀ n, rule.operands = some n → Operands n added
  /-- Only a rule that is followed answers `true`. -/
  followed : result.1 = true → 0 < depth

/-- With at most `depth` rules open, all rules add the operands that they may. -/
def Rule.AllGather (depth : Nat) : Prop :=
  ∀ (rule : Rule) (s : Parsing), s.Tidy → rule.StartsWith (s.kindAt 0) →
    rule.Gathers depth s (Rule.follow depth rule s)

/-- Parts of several lists have the tokens of each. -/
theorem Tree.leavesOfAll_ne_nil {parts others : List Tree}
    (one : leavesOfAll parts ≠ [] ∨ leavesOfAll others ≠ []) : leavesOfAll (parts ++ others) ≠ [] := by
  rw [leavesOfAll_append, Ne, List.append_eq_nil_iff, not_and_or]
  exact one

/-- The order of the parts does not matter for whether there are tokens. -/
theorem Tree.leavesOfAll_reverse_ne_nil {parts : List Tree} (tokens : leavesOfAll parts ≠ []) :
    leavesOfAll parts.reverse ≠ [] := by
  rw [leavesOfAll_eq_flatMap] at tokens ⊢
  intro none
  refine tokens (List.flatMap_eq_nil_iff.mpr fun tree mem => ?_)
  exact List.flatMap_eq_nil_iff.mp none tree (List.mem_reverse.mpr mem)

namespace Gathered.Holds

variable {g : Gathered} {depth : Nat} {base : List Tree} {s t : Parsing}

/-- What is found out about the next token. -/
theorem refine (holds : g.Holds depth base s) {kinds : List Kind} (mem : s.kindAt 0 ∈ kinds) :
    { g with next := kinds }.Holds depth base s :=
  ⟨holds.tidy, mem, holds.parts, holds.followed⟩

/-- What is known without looking at the next token. -/
theorem forget (holds : g.Holds depth base s) : { g with next := Kind.all }.Holds depth base s :=
  holds.refine (Kind.mem_all _)

/-- Taking a token. -/
theorem take (holds : g.Holds depth base s) (rename : Kind → Kind) :
    g.take.Holds depth base (s.take rename) := by
  refine ⟨holds.tidy.take rename, Kind.mem_all _, ?_, holds.followed⟩
  obtain ⟨added, parts, tokens, -⟩ := holds.parts
  obtain ⟨new, taken⟩ := s.built_take rename
  refine ⟨new ++ added, by rw [← taken, parts, List.append_assoc], fun known => ?_, fun n none => ?_⟩
  · refine Tree.leavesOfAll_ne_nil ?_
    rcases Bool.or_eq_true_iff.mp known with before | now
    · exact .inr (tokens before)
    · -- The next token is not the end, so it becomes a leaf.
      left
      have more : s.kindAt 0 ≠ .error := by
        intro atEnd
        have listed := holds.next
        rw [atEnd] at listed
        simp [listed] at now
      cases ahead : s.ahead with
      | nil => exact absurd (by simp [Parsing.kindAt, ahead]) more
      | cons next rest =>
          have built : (s.take rename).built =
              (.leaf (rename next.token.kind) next.token.text :: (s.gap.map Token.leaf).reverse) ++ s.built := by
            simp [Parsing.take, Parsing.flush, ahead]
          rw [built] at taken
          rw [List.append_cancel_right taken, Tree.leavesOfAll_cons, Tree.leaves_leaf]
          exact List.cons_ne_nil _ _
  · cases none

/-- A construct is opened with nothing in it. -/
theorem enter (holds : g.Holds depth base s) : g.enter.Holds depth [] s.flush.fresh :=
  ⟨holds.tidy.opened, holds.next, ⟨[], rfl, fun falsity => absurd falsity Bool.false_ne_true, fun n zero => by
    cases zero
    exact .nil⟩, holds.followed⟩

/-- Parts are added behind the trivia in front of the next token. -/
theorem add (holds : g.Holds depth base s) (parts : List Tree) (tidy : t.Tidy) {after : Gathered}
    (next : t.kindAt 0 ∈ after.next) (followed : after.followed = true → 0 < depth)
    (taken : after.taken = true → g.taken = true ∨ Tree.leavesOfAll parts ≠ [])
    (count : ∀ n, after.count = some n → ∃ k m, g.count = some k ∧ Operands m parts ∧ k + m ≤ n) :
    after.Holds depth base { t with built := parts ++ s.flush.built } := by
  obtain ⟨added, already, tokens, operands⟩ := holds.parts
  let trivia := (s.gap.map Token.leaf).reverse
  refine ⟨tidy, next, ⟨parts ++ (trivia ++ added), ?_, fun known => ?_, fun n known => ?_⟩, followed⟩
  · change parts ++ (trivia ++ s.built) = _
    rw [already, List.append_assoc, List.append_assoc]
  · refine Tree.leavesOfAll_ne_nil ?_
    rcases taken known with before | now
    · exact .inr (Tree.leavesOfAll_ne_nil (.inr (tokens before)))
    · exact .inl now
  · obtain ⟨k, m, before, new, le⟩ := count n known
    have gap : Operands 0 trivia := (Operands.gap holds.tidy.1).reverse
    have all := new.append (gap.append (operands k before))
    exact all.mono (by omega)

/-- A node is added. -/
theorem put (holds : g.Holds depth base s) (kind : Kind) {inside : List Tree} {filled : Bool}
    (tidy : t.Tidy) (tokens : filled = true → Tree.leavesOfAll inside ≠ [])
    (expression : kind.isExpression = true → filled = true) :
    (g.put kind filled).Holds depth base { t with built := .node kind inside :: s.flush.built } := by
  have node : Operands (if kind.isExpression then 1 else 0) [.node kind inside] :=
    .node fun isExpression => tokens (expression isExpression)
  refine holds.add [.node kind inside] tidy (Kind.mem_all _) holds.followed (fun known => ?_) fun n known => ?_
  · refine (Bool.or_eq_true_iff.mp known).imp_right fun inner => ?_
    rw [Tree.leavesOfAll_cons, Tree.leaves_node, Tree.leavesOfAll_nil, List.append_nil]
    exact tokens inner
  · obtain ⟨k, before, rfl⟩ := Option.map_eq_some_iff.mp known
    exact ⟨k, _, before, node, Nat.le_refl _⟩

/-- What a group has gathered is added. -/
theorem join (holds : g.Holds depth base s) {inner : Gathered} (inside : inner.Holds depth [] t) :
    (g.join inner).Holds depth base { t with built := t.built ++ s.flush.built } := by
  obtain ⟨added, parts, tokens, operands⟩ := inside.parts
  rw [List.append_nil] at parts
  refine holds.add t.built inside.tidy inside.next inside.followed (fun known => ?_) fun n known => ?_
  · refine (Bool.or_eq_true_iff.mp known).imp_right fun now => ?_
    rw [parts]
    exact tokens now
  · obtain ⟨k, before, known⟩ := Option.bind_eq_some_iff.mp known
    obtain ⟨m, now, rfl⟩ := Option.map_eq_some_iff.mp known
    rw [parts]
    exact ⟨k, m, before, operands m now, Nat.le_refl _⟩

/-- Everything is gathered into a node. -/
theorem wrap (holds : g.Holds depth [] s) {kind : Kind} (expression : kind.isExpression = true → g.taken = true) :
    (g.wrap kind).Holds depth [] { s with built := [.node kind s.built.reverse] } := by
  obtain ⟨added, parts, tokens, -⟩ := holds.parts
  rw [List.append_nil] at parts
  have inside (known : g.taken = true) : Tree.leavesOfAll s.built.reverse ≠ [] := by
    rw [parts]
    exact Tree.leavesOfAll_reverse_ne_nil (tokens known)
  refine ⟨holds.tidy, holds.next, ⟨[.node kind s.built.reverse], rfl, fun known => ?_, fun n known => ?_⟩,
    holds.followed⟩
  · rw [Tree.leavesOfAll_cons, Tree.leaves_node, Tree.leavesOfAll_nil, List.append_nil]
    exact inside known
  · cases known
    exact .node fun isExpression => inside (expression isExpression)

/-- What is known after a round of a loop is known before the next one. -/
theorem again {after : Gathered} (stays : { g with next := Kind.all }.stays after = true)
    (holds : after.Holds depth base s) : { g with next := Kind.all }.Holds depth base s := by
  obtain ⟨stays, follows⟩ := Bool.and_eq_true_iff.mp stays
  obtain ⟨count, takes⟩ := Bool.and_eq_true_iff.mp stays
  obtain ⟨added, parts, tokens, operands⟩ := holds.parts
  refine ⟨holds.tidy, Kind.mem_all _, ⟨added, parts, fun known => tokens ?_, fun n known => operands n ?_⟩,
    fun known => holds.followed ?_⟩
  · simpa [show g.taken = true from known] using takes
  · have known : g.count = some n := known
    simpa [known] using count
  · simpa [show g.followed = true from known] using follows

/-- A number of operands that later rounds of a loop may change is forgotten. -/
theorem loosen (holds : g.Holds depth base s) : { g with next := Kind.all, count := none }.Holds depth base s := by
  obtain ⟨added, parts, tokens, -⟩ := holds.parts
  refine ⟨holds.tidy, Kind.mem_all _, ⟨added, parts, tokens, fun n none => ?_⟩, holds.followed⟩
  cases none

/-- What each round of a loop keeps is kept by the loop. -/
theorem rounds {step : Parsing → Bool × Parsing}
    (round : ∀ t, { g with next := Kind.all }.Holds depth base t →
      Reached (fun _ done => { g with next := Kind.all }.stays done) depth base (step t))
    (holds : { g with next := Kind.all }.Holds depth base s) (n : Nat) :
    { g with next := Kind.all }.Holds depth base (iterate step n s) := by
  refine Production.iterate_induction (fun t holds => ?_) n holds
  obtain ⟨after, stays, holds⟩ := round t holds
  exact holds.again stays

/-- A rule has been followed. -/
theorem after (holds : g.Holds depth base s) {rule : Rule} {result : Bool × Parsing}
    (gathers : rule.Gathers depth s result) : (rule.after g result.1).Holds depth base result.2 := by
  obtain ⟨added, parts, tokens, operands⟩ := holds.parts
  obtain ⟨new, more, takes, adds⟩ := gathers.parts
  refine ⟨gathers.tidy, Kind.mem_all _, ⟨new ++ added, by rw [more, parts, List.append_assoc],
    fun known => Tree.leavesOfAll_ne_nil ?_, fun n known => ?_⟩, fun known => ?_⟩
  · rcases Bool.or_eq_true_iff.mp known with before | now
    · exact .inr (tokens before)
    · obtain ⟨followed, takesToken⟩ := Bool.and_eq_true_iff.mp now
      exact .inl (takes (holds.followed followed) takesToken)
  · obtain ⟨k, before, known⟩ := Option.bind_eq_some_iff.mp known
    obtain ⟨m, now, rfl⟩ := Option.map_eq_some_iff.mp known
    exact ((adds m now).append (operands k before)).mono (by omega)
  · exact (Bool.or_eq_true_iff.mp known).elim holds.followed gathers.followed

/-- The rule that is followed begins with the next token. -/
theorem startsWith (holds : g.Holds depth base s) {rule : Rule}
    (listed : (rule.first.all fun first => g.next.all first.contains) = true) :
    rule.StartsWith (s.kindAt 0) := by
  intro first starts
  rw [starts, Option.all_some] at listed
  simpa using List.all_eq_true.mp listed _ holds.next

end Gathered.Holds

/-- A construct that is known to have taken a token has one. -/
theorem Gathered.Reached.tokens {depth : Nat} {inner : Bool × Parsing}
    (inside : Gathered.Reached (fun _ done => done.taken) depth [] inner) :
    Tree.leavesOfAll inner.2.built.reverse ≠ [] := by
  obtain ⟨done, taken, holds⟩ := inside
  obtain ⟨added, parts, leaves, -⟩ := holds.parts
  rw [parts, List.append_nil]
  exact Tree.leavesOfAll_reverse_ne_nil (leaves taken)

/-- **A look at the next token splits what is known of it**; a look further ahead finds out nothing. -/
theorem Gathered.reached_look {depth : Nat} (condition : Lookahead) {g : Gathered} {Q : Bool → Gathered → Bool}
    (gathers : (Production.look condition : Grammar).gathers g Q = true) {base : List Tree} {s : Parsing}
    (holds : g.Holds depth base s) :
    Gathered.Reached Q depth base ((Production.look condition : Grammar).run (Rule.follow depth) s) := by
  have unseen (both : (Q true g && Q false g) = true) (answer : Bool) : Q answer g = true :=
    Production.of_both (Q := fun answer => Q answer g) both answer
  cases condition with
  | kind n test =>
      cases n with
      | zero =>
          obtain ⟨onTrue, onFalse⟩ := Bool.and_eq_true_iff.mp gathers
          rw [Production.run, Lookahead.holds]
          cases found : test (s.kindAt 0) with
          | true =>
              have listed : s.kindAt 0 ∈ g.next.filter test := List.mem_filter.mpr ⟨holds.next, found⟩
              exact ⟨_, Stage.foreseen listed onTrue, holds.refine listed⟩
          | false =>
              have listed : s.kindAt 0 ∈ g.next.filter (!test ·) :=
                List.mem_filter.mpr ⟨holds.next, by rw [found]; rfl⟩
              exact ⟨_, Stage.foreseen listed onFalse, holds.refine listed⟩
      | succ n => exact ⟨g, unseen gathers _, holds⟩
  | atEnd => exact ⟨g, unseen gathers _, holds⟩
  | kinds test => exact ⟨g, unseen gathers _, holds⟩
  | word n words => exact ⟨g, unseen gathers _, holds⟩
  | closeTag => exact ⟨g, unseen gathers _, holds⟩

/-- The tokens ahead stay as they are. -/
theorem Production.tidy_run {ρ : Type} {follow : ρ → Parsing → Bool × Parsing}
    (rules : ∀ rule s, s.Tidy → (follow rule s).2.Tidy) (p : Production ρ) {s : Parsing} (tidy : s.Tidy) :
    (p.run follow s).2.Tidy := by
  induction p generalizing s with
  | answer ok => exact tidy
  | look condition => exact tidy
  | bump => exact tidy.take id
  | bumpAs kind => exact tidy.take fun _ => kind
  | fault cause => exact tidy
  | andThen first second ih₁ ih₂ => exact ih₂ (ih₁ tidy)
  | branch condition yes no ih ihYes ihNo =>
      have before := ih tidy
      exact branch_cases (P := fun result => result.2.Tidy) (fun _ => ihYes before) (fun _ => ihNo before)
  | byKind cases ih => exact ih _ tidy
  | node kind body ih => exact ih tidy.opened
  | group body ih => exact ih tidy.opened
  | wrap kind body ih => exact ih tidy
  | loop body ih => exact iterate_induction (P := Parsing.Tidy) (fun _ tidy => ih tidy) _ tidy
  | advances body ih => exact ih tidy
  | call rule => exact rules rule s tidy

/-- The tokens ahead stay as they are when a rule is followed. -/
theorem Rule.tidy_follow (depth : Nat) (rule : Rule) (s : Parsing) (tidy : s.Tidy) :
    (Rule.follow depth rule s).2.Tidy := by
  induction depth generalizing rule s with
  | zero => exact tidy
  | succ depth ih => exact Production.tidy_run ih rule.production tidy

/-- **What is read off a production holds of every parse**: the parts that it adds are as foreseen. -/
theorem Production.gathers_run {depth : Nat} (rules : Rule.AllGather depth) (p : Grammar) {g : Gathered}
    {Q : Bool → Gathered → Bool} (gathers : p.gathers g Q = true) {base : List Tree}
    (keeps : p.keeps = true ∨ base = []) {s : Parsing} (holds : g.Holds depth base s) :
    Gathered.Reached Q depth base (p.run (Rule.follow depth) s) := by
  -- What is left to do after a part is in `Q`, so `Q` differs from part to part.
  induction p generalizing g Q base s with
  | answer ok => exact ⟨g, gathers, holds⟩
  | look condition => exact Gathered.reached_look condition gathers holds
  | bump => exact ⟨g.take, gathers, holds.take id⟩
  | bumpAs kind => exact ⟨g.take, gathers, holds.take fun _ => kind⟩
  | fault cause => exact ⟨g, gathers, holds.tidy, holds.next, holds.parts, holds.followed⟩
  | andThen first second ih₁ ih₂ =>
      have gathers : first.gathers g (fun _ middle => second.gathers middle Q) = true := gathers
      obtain ⟨keeps₁, keeps₂⟩ := keeps_andThen keeps
      obtain ⟨middle, next, holds⟩ := ih₁ gathers keeps₁ holds
      exact ih₂ next keeps₂ holds
  | branch condition yes no ih ihYes ihNo =>
      obtain ⟨keeps, keepsYes, keepsNo⟩ := keeps_branch keeps
      obtain ⟨middle, next, holds⟩ := ih gathers keeps holds
      refine branch_cases (fun found => ?_) (fun found => ?_)
      · rw [found] at next
        exact ihYes next keepsYes holds
      · rw [found] at next
        exact ihNo next keepsNo holds
  | byKind cases ih =>
      have next := List.all_eq_true.mp gathers _ holds.next
      exact ih (s.kindAt 0) next (keeps_byKind keeps _) (holds.refine (List.mem_singleton.mpr rfl))
  | node kind body ih =>
      obtain ⟨gathers, onFalse⟩ := Bool.and_eq_true_iff.mp gathers
      obtain ⟨expression, onTrue⟩ := Bool.and_eq_true_iff.mp gathers
      have tidy := tidy_run (Rule.tidy_follow depth) body holds.tidy.opened
      have after := holds.put kind tidy
        (fun filled => Gathered.Reached.tokens (ih filled (.inr rfl) holds.enter)) fun isExpression => by
          simpa [isExpression] using expression
      exact ⟨_, of_both (Q := fun answer => Q answer _) (Bool.and_eq_true_iff.mpr ⟨onTrue, onFalse⟩) _, after⟩
  | group body ih =>
      obtain ⟨done, next, inside⟩ := ih (s := s.flush.fresh) gathers (.inr rfl) holds.enter
      exact ⟨_, next, holds.join inside⟩
  | wrap kind body ih =>
      -- The parts that are gathered are all parts of the open construct.
      obtain rfl : base = [] := keeps.resolve_left Bool.false_ne_true
      obtain ⟨done, next, inside⟩ := ih gathers (.inr rfl) holds
      obtain ⟨expression, next⟩ := Bool.and_eq_true_iff.mp next
      exact ⟨_, next, inside.wrap fun isExpression => by simpa [isExpression] using expression⟩
  | loop body ih =>
      rw [Production.gathers] at gathers
      simp only at gathers
      split at gathers
      · rename_i stays
        exact ⟨_, gathers, holds.forget.rounds (fun t holds => ih stays keeps holds) _⟩
      · obtain ⟨stays, next⟩ := Bool.and_eq_true_iff.mp gathers
        exact ⟨_, next, holds.loosen.rounds (g := { g with count := none }) (fun t holds => ih stays keeps holds) _⟩
  | advances body ih =>
      obtain ⟨done, next, holds⟩ := ih gathers keeps holds
      exact ⟨done, of_advances (Q := fun answer => Q answer done) next _, holds⟩
  | call rule =>
      obtain ⟨gathers, onFalse⟩ := Bool.and_eq_true_iff.mp gathers
      obtain ⟨starts, onTrue⟩ := Bool.and_eq_true_iff.mp gathers
      have follows := rules rule s holds.tidy (holds.startsWith starts)
      exact ⟨_, of_both (Q := fun answer => Q answer (rule.after g answer))
        (Bool.and_eq_true_iff.mpr ⟨onTrue, onFalse⟩) _, holds.after follows⟩

/-! ## (4) The rules of the grammar -/

/-- Whether a rule has added what it may. -/
def Rule.adds (rule : Rule) (n : Nat) (done : Gathered) : Bool :=
  done.count.any (· ≤ n) && (!rule.takes || done.taken)

namespace Grammar

open Production

set_option maxRecDepth 4000 in
/-- An infix operator gathers both of its operands into one expression. -/
theorem gathers_infix : ∀ operator ∈ Kind.all, ∀ p ∈ infixPower? operator,
    (also (wrap p.kind (andThen bump (infixOperand operator 0)))).gathers { Gathered.operand with next := [operator] }
      (fun _ done => Gathered.operand.stays done) = true := by
  decide

/-- One operand stays one operand under all infix operators. -/
theorem gathers_infixStep (power : Nat) :
    (infixStep power).gathers .operand (fun _ done => Gathered.operand.stays done) = true := by
  obtain ⟨cases, same, each⟩ := infixStep_induction power
    (fun operator p => p.gathers { Gathered.operand with next := [operator] }
      (fun _ done => Gathered.operand.stays done) = true) (fun _ => rfl)
    fun operator listed p found => by
      -- Powers do not matter for what is gathered.
      have same : ∀ g Q, (infixOperand operator p.right).gathers g Q = (infixOperand operator 0).gathers g Q := by
        intro g Q
        unfold infixOperand
        split <;> rfl
      have step := gathers_infix operator listed p found
      simp only [also, Production.gathers, same] at step ⊢
      exact step
  rw [same]
  exact List.all_eq_true.mpr each

/-- An expression is one operand. -/
theorem gathers_operatorChain (power : Nat) :
    (operatorChain power).gathers (Rule.expression power).beginning
      (fun _ done => (Rule.expression power).adds 1 done) = true := by
  have loops : (loop (infixStep power)).gathers .operand
      (fun _ done => (Rule.expression power).adds 1 ((Rule.expression power).beginning.join done)) = true := by
    rw [gathers]
    exact (if_pos (gathers_infixStep power)).trans rfl
  exact Bool.and_eq_true_iff.mpr ⟨loops, rfl⟩

end Grammar

/-- **Every rule adds the operands that it may.** -/
theorem Rule.gathers_all (rule : Rule) {n : Nat} (may : rule.operands = some n) :
    rule.production.gathers rule.beginning (fun _ done => rule.adds n done) = true := by
  cases rule with
  | expression power =>
      cases may
      exact Grammar.gathers_operatorChain power
  | unary | postfixed | primary | «variable» | new | closure | arrowFn | choice | argList | attributeGroup =>
      cases may
      decide
  | _ => cases may

/-- What is known when a rule begins holds, with nothing added. -/
theorem Rule.beginning_holds (rule : Rule) (depth : Nat) {s : Parsing} (tidy : s.Tidy)
    (starts : rule.StartsWith (s.kindAt 0)) : rule.beginning.Holds depth s.built s where
  tidy := tidy
  next := by
    cases first : rule.first with
    | none =>
        rw [beginning, first]
        exact Kind.mem_all _
    | some kinds =>
        rw [beginning, first]
        exact starts kinds first
  parts := by
    refine ⟨[], rfl, fun falsity => absurd falsity Bool.false_ne_true, fun n zero => ?_⟩
    cases zero
    exact .nil
  followed falsity := absurd falsity Bool.false_ne_true

/-- **Every rule adds operands only**, as many as it may, however many rules may be open. -/
theorem Rule.gathers_follow (depth : Nat) : Rule.AllGather depth := by
  induction depth with
  -- Where no more rules may be open, no part is added.
  | zero =>
      intro rule s tidy starts
      refine ⟨tidy, ⟨[], rfl, fun falsity => absurd falsity (Nat.lt_irrefl 0), fun n _ => ?_⟩, ?_⟩
      · exact Operands.nil.mono (Nat.zero_le n)
      · exact fun falsity => absurd falsity Bool.false_ne_true
  | succ depth ih =>
      intro rule s tidy starts
      obtain ⟨added, parts⟩ := Rule.built_follow (depth + 1) rule s
      refine ⟨Rule.tidy_follow (depth + 1) rule s tidy, ?_, fun _ => Nat.succ_pos depth⟩
      cases may : rule.operands with
      | none =>
          refine ⟨added, parts.symm, fun _ takes => ?_, fun n falsity => by cases falsity⟩
          cases rule with
          | argList => cases may
          | _ => cases takes
      | some n =>
          obtain ⟨done, foreseen, holds⟩ := Production.gathers_run ih rule.production (rule.gathers_all may)
            (.inl rule.keeps_all) (rule.beginning_holds depth tidy starts)
          obtain ⟨counts, takes⟩ := Bool.and_eq_true_iff.mp foreseen
          obtain ⟨k, count, le⟩ := (Option.any_eq_true _ _).mp counts
          obtain ⟨added, parts, tokens, operands⟩ := holds.parts
          refine ⟨added, parts, fun _ takesToken => tokens ?_, fun m same => ?_⟩
          · simpa [takesToken] using takes
          · cases same
            exact (operands k count).mono (of_decide_eq_true le)

end PhpMembers
