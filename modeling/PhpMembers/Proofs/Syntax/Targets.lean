import PhpMembers.Proofs.Syntax.Applied
import PhpMembers.Proofs.Syntax.Descent
import PhpMembers.Proofs.Syntax.Pairing
import PhpMembers.Proofs.Syntax.Types
import PhpMembers.Workspace.SourceFile

/-! # What assignments assign to

An expression that is read with a power goes on as long as an infix operator binds at least as strongly on its left.
So an assignment operator behind an expression is left for the construct around it only where the expression was read
with a higher power, and what becomes the left operand of an assignment is an expression all of whose operators at
its right end bind more strongly than an assignment: a plain operand, or an operator expression such as a negation.

* `Assignable` : the expressions behind which an assignment operator can stand.
* `Parsing.ReadsOperand` : an expression that is read in front of an assignment operator is one of them.
* `Rule.allTarget` : the rules of the grammar.
* `assignment_target` : the assignments of a file. -/

namespace PhpMembers

/-! ## (1) Targets -/

/-- The nodes that operators build. -/
def Kind.isOperation : Kind → Bool
  | .binaryExpr | .unaryExpr | .ternaryExpr | .assignExpr => true
  | _ => false

/-- The power of assignments towards their left operand. -/
def assignmentPower : Nat := 8

/-- The expressions behind which an assignment operator can stand: all operators at the right end bind more strongly. -/
inductive Assignable : Tree → Prop
  /-- An operand without operators. -/
  | operand {kind : Kind} {parts : List Tree} (plain : kind.isOperation = false) : Assignable (.node kind parts)
  /-- An infix operator with its last operand. -/
  | binary {operator : Kind} {p : InfixPower} {text : Text} {front behind : List Tree} {last : Tree}
      (found : infixPower? operator = some p) (strong : assignmentPower < p.right) (rest : Assignable last) :
      Assignable (.node p.kind (front ++ .leaf operator text :: (behind ++ [last])))
  /-- A prefix operator with its operand. -/
  | unary {operator : Kind} {power : Nat} {text : Text} {behind : List Tree} {last : Tree}
      (found : prefixPower? operator = some power) (strong : assignmentPower < power) (rest : Assignable last) :
      Assignable (.node .unaryExpr (.leaf operator text :: (behind ++ [last])))
  /-- A cast with its operand. -/
  | cast {inside behind : List Tree} {last : Tree} (rest : Assignable last) :
      Assignable (.node .unaryExpr (.node .cast inside :: (behind ++ [last])))

/-- An assignment consists of its target, the operator, and what follows it. -/
inductive AssignsTarget (kind : Kind) : List Tree → Prop
  /-- A node of another kind. -/
  | other {parts : List Tree} (none : kind ≠ .assignExpr) : AssignsTarget kind parts
  /-- An assignment. -/
  | assigned {front gap behind : List Tree} {target : Tree} {operator : Kind} {text : Text}
      (before : Operands 0 front) (expression : target.isExpression = true) (trivia : Operands 0 gap)
      (listed : operator ∈ Kind.assignExpr.operators) (mayStand : Assignable target) :
      AssignsTarget kind (front ++ target :: (gap ++ .leaf operator text :: behind))

/-! ## (2) Reading in front of an assignment operator -/

namespace Parsing

/-- Whether an assignment operator is next. -/
def assigns (s : Parsing) : Bool := Kind.assignExpr.operators.contains (s.kindAt 0)

/-- If an assignment operator is next at `t`, then the power is higher than that of assignments, and what has been read
last since `s` is a target. -/
def EndsInTarget (power : Nat) (s t : Parsing) : Prop :=
  t.assigns = true → assignmentPower < power ∧ ∃ last behind, t.built = last :: (behind ++ s.built) ∧ Assignable last

/-- From `s` to `t` one expression is added, and it is a target if an assignment operator is next. -/
def ReadsOperand (s t : Parsing) : Prop :=
  ∃ target front, t.built = target :: (front ++ s.built) ∧ Operands 0 front ∧ target.isExpression = true ∧
    (t.assigns = true → Assignable target)

variable {s t u : Parsing}

/-- What is added first does not matter. -/
theorem EndsInTarget.of_suffix {power : Nat} (ends : EndsInTarget power t u) (before : s.built <:+ t.built) :
    EndsInTarget power s u := by
  intro assigns
  obtain ⟨strong, last, behind, parts, target⟩ := ends assigns
  obtain ⟨added, parts'⟩ := before
  exact ⟨strong, last, behind ++ added, by rw [parts, ← parts', List.append_assoc], target⟩

/-- Parts without expressions may come first. -/
theorem ReadsOperand.after (reads : t.ReadsOperand u) {added : List Tree} (parts : t.built = added ++ s.built)
    (others : Operands 0 added) : s.ReadsOperand u := by
  obtain ⟨target, front, parts', before, rest⟩ := reads
  exact ⟨target, front ++ added, by rw [parts', parts, List.append_assoc], before.append others, rest⟩

/-- What is read in a group is read by the parse around it. -/
theorem ReadsOperand.group (reads : s.flush.fresh.ReadsOperand t) (tidy : s.Tidy) :
    s.ReadsOperand { t with built := t.built ++ s.flush.built } := by
  obtain ⟨target, front, parts, before, expression, mayStand⟩ := reads
  refine ⟨target, front ++ (s.gap.map Token.leaf).reverse, ?_, before.append (Operands.gap tidy.1).reverse, expression,
    mayStand⟩
  have nothing : s.flush.fresh.built = [] := rfl
  rw [nothing, List.append_nil] at parts
  simp [parts, flush]

end Parsing

namespace Production

variable {ρ : Type} {follow : ρ → Parsing → Bool × Parsing}

/-- A node that is an expression without operators is an operand. -/
theorem reads_node {s : Parsing} (tidy : s.Tidy) {kind : Kind} (expression : kind.isExpression = true)
    (plain : kind.isOperation = false) (body : Production ρ) :
    s.ReadsOperand ((node kind body).run follow s).2 :=
  ⟨_, _, rfl, (Operands.gap tidy.1).reverse, expression, fun _ => .operand plain⟩

/-- **A condition that can only fail for nodes of other kinds is kept by parses without errors.** -/
theorem builtWith_clean {P : Kind → List Tree → Prop} {leaf node : Kind → Bool}
    (apart : ∀ kind parts, node kind = true → P kind parts)
    (errors : ∀ rule s, s.errors <:+ (follow rule s).2.errors)
    (tidies : ∀ rule s, s.Tidy → (follow rule s).2.Tidy)
    (rules : ∀ rule s, s.Tidy → s.BuiltWith P → (follow rule s).2.errors = s.errors → (follow rule s).2.BuiltWith P)
    (p : Production ρ) (yields : p.yields leaf node = true) {s : Parsing} (tidy : s.Tidy) (built : s.BuiltWith P)
    (clean : (p.run follow s).2.errors = s.errors) : (p.run follow s).2.BuiltWith P := by
  -- No error in the whole means no error in any part, which is passed on to the rules.
  induction p generalizing s with
  | answer ok => exact built
  | look condition => exact built
  | bump => exact built.take id
  | bumpAs kind => exact built.take _
  | fault cause => exact built
  | andThen first second ih₁ ih₂ =>
      obtain ⟨yields₁, yields₂⟩ := Bool.and_eq_true_iff.mp yields
      obtain ⟨clean₁, clean₂⟩ := andThen_clean errors first second clean
      exact ih₂ yields₂ (tidy_run tidies first tidy) (ih₁ yields₁ tidy built clean₁) clean₂
  | branch condition yes no ih ihYes ihNo =>
      obtain ⟨yields, yieldsNo⟩ := Bool.and_eq_true_iff.mp yields
      obtain ⟨yields, yieldsYes⟩ := Bool.and_eq_true_iff.mp yields
      have tidy' := tidy_run tidies condition tidy
      exact branch_clean (P := fun result => result.2.BuiltWith P) errors clean
        (fun _ clean₁ clean₂ => ihYes yieldsYes tidy' (ih yields tidy built clean₁) clean₂)
        (fun _ clean₁ clean₂ => ihNo yieldsNo tidy' (ih yields tidy built clean₁) clean₂)
  | byKind cases ih => exact ih _ (List.all_eq_true.mp yields _ (Kind.mem_all _)) tidy built clean
  | node kind body ih =>
      obtain ⟨here, inside⟩ := Bool.and_eq_true_iff.mp yields
      exact built.flush.node (ih inside tidy.opened .fresh clean) (apart _ _ here)
  | group body ih => exact built.flush.group (ih yields tidy.opened .fresh clean)
  | wrap kind body ih =>
      obtain ⟨here, inside⟩ := Bool.and_eq_true_iff.mp yields
      exact (ih inside tidy built clean).wrap (apart _ _ here)
  | loop body ih =>
      refine (iterate_clean (P := fun t => t.Tidy ∧ t.BuiltWith P) (R := fun t => t.Tidy ∧ t.BuiltWith P)
        (errors_run errors body) (fun t kept clean => ?_) (fun t kept => kept) s.ahead.length ⟨tidy, built⟩ clean).2
      exact ⟨tidy_run tidies body kept.1, ih yields kept.1 kept.2 clean⟩
  | advances body ih => exact ih yields tidy built clean
  | call rule => exact rules rule s tidy built clean

end Production

/-! ## (3) The rules of the grammar -/

namespace Rule

/-- The rules that read an operand, with or without operators. -/
def isOperand : Rule → Bool
  | expression _ | unary | postfixed | primary => true
  | _ => false

/-- What following a rule without errors does to a parse. -/
structure Targets (rule : Rule) (s : Parsing) (result : Bool × Parsing) : Prop where
  /-- Assignments that are built have targets. -/
  built : result.2.BuiltWith AssignsTarget
  /-- A rule for operands reads one. -/
  operand : rule.isOperand = true → result.1 = true ∧ s.ReadsOperand result.2
  /-- An assignment operator is left behind an expression only if that binds more strongly. -/
  strong : ∀ power, rule = .expression power → result.2.assigns = true → assignmentPower < power

/-- With at most `depth` rules open, all rules build assignments with targets. -/
def AllTarget (depth : Nat) : Prop :=
  ∀ (rule : Rule) (s : Parsing), s.Tidy → s.BuiltWith AssignsTarget →
    (followStrictly depth rule s).2.errors = s.errors → rule.Targets s (followStrictly depth rule s)

/-- Rules that build a node are operands where the node is one. -/
theorem reads_followStrictly {rule : Rule} {kind : Kind} {body : Grammar}
    (production : rule.production = .node kind body)
    (expression : kind.isExpression = true) (plain : kind.isOperation = false) (depth : Nat) {s : Parsing}
    (tidy : s.Tidy) (clean : (followStrictly depth rule s).2.errors = s.errors) :
    s.ReadsOperand (followStrictly depth rule s).2 := by
  cases depth with
  | zero => exact absurd clean (List.cons_ne_self _ _)
  | succ depth =>
      have step : followStrictly (depth + 1) rule s = rule.production.run (followStrictly depth) s := rfl
      rw [step, production]
      exact Production.reads_node tidy expression plain body

end Rule

namespace Grammar

open Production

variable {depth : Nat} {s : Parsing}

/-- Productions that build no assignments keep those that are there. -/
theorem targets_run (rules : Rule.AllTarget depth) (p : Grammar)
    (yields : p.yields Kind.isPlainName (fun kind => kind != .assignExpr) = true) (tidy : s.Tidy)
    (built : s.BuiltWith AssignsTarget) (clean : (p.run (Rule.followStrictly depth) s).2.errors = s.errors) :
    (p.run (Rule.followStrictly depth) s).2.BuiltWith AssignsTarget :=
  builtWith_clean (fun _ _ other => .other (bne_iff_ne.mp other)) (Rule.errors_followStrictly depth)
    (Rule.tidy_followStrictly depth) (fun rule s tidy built clean => (rules rule s tidy built clean).built) p yields
    tidy built clean

/-- What is no operand is an error or a name. -/
theorem reads_noOperand (tidy : s.Tidy) (kind : Kind)
    (clean : ((noOperand kind).run (Rule.followStrictly depth) s).2.errors = s.errors) :
    ((noOperand kind).run (Rule.followStrictly depth) s).1 = true ∧
      s.ReadsOperand ((noOperand kind).run (Rule.followStrictly depth) s).2 := by
  have errors := Rule.errors_followStrictly depth
  rw [noOperand] at clean ⊢
  refine branch_clean (P := fun result => result.1 = true ∧ s.ReadsOperand result.2) errors clean ?_ ?_
  · intro _ _ _
    rw [looks_run _ rfl]
    exact ⟨rfl, reads_node tidy rfl rfl _⟩
  · intro _ _ clean
    exfalso
    split at clean
    · exact List.cons_ne_self _ _ clean
    · obtain ⟨falsity, -⟩ := andThen_clean errors _ _ clean
      exact List.cons_ne_self _ _ falsity

/-- Attributes in front of an operand are no operand. -/
theorem exists_attributes (tidy : s.Tidy)
    (clean : (attributes.run (Rule.followStrictly depth) s).2.errors = s.errors) :
    ∃ added, (attributes.run (Rule.followStrictly depth) s).2.built = added ++ s.built ∧ Operands 0 added := by
  have errors := Rule.errors_followStrictly depth
  refine (iterate_clean (P := fun t => t.Tidy ∧ ∃ added, t.built = added ++ s.built ∧ Operands 0 added)
    (R := fun t => t.Tidy ∧ ∃ added, t.built = added ++ s.built ∧ Operands 0 added)
    (errors_run errors _) (fun t kept clean => ?_) (fun t kept => kept) s.ahead.length ⟨tidy, [], rfl, .nil⟩ clean).2
  obtain ⟨tidy, added, parts, others⟩ := kept
  refine branch_clean (P := fun result => result.2.Tidy ∧ ∃ added, result.2.built = added ++ s.built ∧ Operands 0 added)
    errors clean (fun _ _ clean => ?_) (fun _ _ _ => ⟨tidy, added, parts, others⟩)
  refine ⟨Rule.tidy_followStrictly depth .attributeGroup t tidy, ?_⟩
  cases depth with
  | zero => exact absurd clean (List.cons_ne_self _ _)
  | succ depth =>
      obtain ⟨group, built, other⟩ : ∃ group : Tree,
          (Rule.followStrictly (depth + 1) .attributeGroup t).2.built = group :: t.flush.built ∧ Operands 0 [group] :=
        ⟨_, rfl, @Operands.node .attributeGroup _ fun isExpression => absurd isExpression (by decide)⟩
      refine ⟨group :: ((t.gap.map Token.leaf).reverse ++ added), ?_,
        other.append ((Operands.gap tidy.1).reverse.append others)⟩
      have all : (Rule.followStrictly (depth + 1) .attributeGroup t).2.built =
          group :: ((t.gap.map Token.leaf).reverse ++ t.built) := built
      rw [parts, ← List.append_assoc] at all
      exact all

/-- An operand without operators is read. -/
theorem reads_primary (rules : Rule.AllTarget depth) (tidy : s.Tidy) (built : s.BuiltWith AssignsTarget)
    (clean : (primary.run (Rule.followStrictly depth) s).2.errors = s.errors) :
    (primary.run (Rule.followStrictly depth) s).1 = true ∧
      s.ReadsOperand (primary.run (Rule.followStrictly depth) s).2 := by
  have errors := Rule.errors_followStrictly depth
  have node {kind : Kind} {body : Grammar} (expression : kind.isExpression = true)
      (plain : kind.isOperation = false) : s.ReadsOperand ((node kind body).run (Rule.followStrictly depth) s).2 :=
    reads_node tidy expression plain body
  have follow {rule : Rule} {kind : Kind} {body : Grammar} (production : rule.production = .node kind body)
      (expression : kind.isExpression = true) (plain : kind.isOperation = false)
      (clean : (Rule.followStrictly depth rule s).2.errors = s.errors) :
      s.ReadsOperand (Rule.followStrictly depth rule s).2 :=
    Rule.reads_followStrictly production expression plain depth tidy clean
  have choose (condition : Lookahead) {yes no : Grammar}
      (clean : ((branch (look condition) yes no).run (Rule.followStrictly depth) s).2.errors = s.errors)
      (onTrue : (yes.run (Rule.followStrictly depth) s).2.errors = s.errors →
        (yes.run (Rule.followStrictly depth) s).1 = true ∧ s.ReadsOperand (yes.run (Rule.followStrictly depth) s).2)
      (onFalse : (no.run (Rule.followStrictly depth) s).2.errors = s.errors →
        (no.run (Rule.followStrictly depth) s).1 = true ∧ s.ReadsOperand (no.run (Rule.followStrictly depth) s).2) :
      ((branch (look condition) yes no).run (Rule.followStrictly depth) s).1 = true ∧
        s.ReadsOperand ((branch (look condition) yes no).run (Rule.followStrictly depth) s).2 :=
    branch_clean (P := fun result => result.1 = true ∧ s.ReadsOperand result.2) errors clean
      (fun _ _ clean => onTrue clean) (fun _ _ clean => onFalse clean)
  -- One case for each kind of token with which an operand begins.
  rw [primary] at clean ⊢
  refine choose .atEnd clean (fun falsity => absurd falsity (List.cons_ne_self _ _)) fun clean => ?_
  rw [run] at clean ⊢
  split at clean
  · exact ⟨rfl, follow rfl rfl rfl clean⟩
  · exact ⟨rfl, follow rfl rfl rfl clean⟩
  · exact ⟨rfl, node rfl rfl⟩
  · exact ⟨rfl, node rfl rfl⟩
  · exact ⟨rfl, node rfl rfl⟩
  · exact ⟨rfl, node rfl rfl⟩
  · exact choose _ clean (fun _ => ⟨rfl, node rfl rfl⟩) (reads_noOperand tidy _)
  · exact ⟨rfl, node rfl rfl⟩
  · exact ⟨rfl, follow rfl rfl rfl clean⟩
  · exact ⟨rfl, follow rfl rfl rfl clean⟩
  · exact ⟨rfl, follow rfl rfl rfl clean⟩
  · exact choose _ clean (fun clean => ⟨rfl, follow rfl rfl rfl clean⟩) fun clean =>
      choose _ clean (fun clean => ⟨rfl, follow rfl rfl rfl clean⟩) fun _ => ⟨rfl, node rfl rfl⟩
  · obtain ⟨clean₁, clean₂⟩ := andThen_clean errors _ _ clean
    obtain ⟨added, parts, others⟩ := exists_attributes tidy clean₁
    have tidy' := tidy_run (Rule.tidy_followStrictly depth) attributes tidy
    have built' := targets_run rules attributes rfl tidy built clean₁
    obtain ⟨answer, reads⟩ := (rules .primary _ tidy' built' clean₂).operand rfl
    exact ⟨answer, reads.after parts others⟩
  · exact choose _ clean (fun clean => ⟨rfl, follow rfl rfl rfl clean⟩) (reads_noOperand tidy _)
  · exact ⟨rfl, node rfl rfl⟩
  · exact ⟨rfl, node rfl rfl⟩
  · exact choose _ clean (fun _ => ⟨rfl, node rfl rfl⟩) (reads_noOperand tidy _)
  · exact reads_noOperand tidy _ clean

/-- An access, call or index takes what has been read into an operand. -/
theorem reads_wrap {before : Parsing} (fresh : before.built = []) {kind : Kind} (expression : kind.isExpression = true)
    (plain : kind.isOperation = false) (body : Grammar) :
    before.ReadsOperand ((wrap kind body).run (Rule.followStrictly depth) s).2 := by
  refine ⟨.node kind (body.run (Rule.followStrictly depth) s).2.built.reverse, [], ?_, .nil, expression,
    fun _ => .operand plain⟩
  rw [fresh]
  rfl

/-- A round over accesses leaves one operand. -/
theorem reads_postfixStep {before : Parsing} (fresh : before.built = []) (reads : before.ReadsOperand s) :
    before.ReadsOperand (postfixStep.run (Rule.followStrictly depth) s).2 := by
  rw [postfixStep, run]
  split
  · exact reads_wrap fresh rfl rfl _
  · exact reads_wrap fresh rfl rfl _
  · exact reads_wrap fresh rfl rfl _
  · exact reads_wrap fresh rfl rfl _
  · exact reads_wrap fresh rfl rfl _
  · exact reads_wrap fresh rfl rfl _
  · exact reads_wrap fresh rfl rfl _
  · exact reads

/-- Where one operand has been read since `before`, and assignments have targets. -/
structure Chained (before s : Parsing) : Prop where
  /-- The tokens ahead are what they were. -/
  tidy : s.Tidy
  /-- Assignments have targets. -/
  built : s.BuiltWith AssignsTarget
  /-- One operand has been read. -/
  reads : before.ReadsOperand s

/-- **A chain of operators on an operand reads one operand**, if each round leaves one. -/
theorem reads_chain {first : Rule} (isOperand : first.isOperand = true) {step : Grammar}
    (rules : Rule.AllTarget depth) (tidy : s.Tidy) (built : s.BuiltWith AssignsTarget)
    (round : ∀ t, Chained s.flush.fresh t → (step.run (Rule.followStrictly depth) t).2.errors = t.errors →
      Chained s.flush.fresh (step.run (Rule.followStrictly depth) t).2)
    (clean : ((group (branch (call first) (loop step) stop)).run (Rule.followStrictly depth) s).2.errors = s.errors) :
    ((group (branch (call first) (loop step) stop)).run (Rule.followStrictly depth) s).1 = true ∧
      Chained s ((group (branch (call first) (loop step) stop)).run (Rule.followStrictly depth) s).2 := by
  have errors := Rule.errors_followStrictly depth
  suffices inside : ((branch (call first) (loop step) stop).run (Rule.followStrictly depth) s.flush.fresh).1 = true ∧
      Chained s.flush.fresh
        ((branch (call first) (loop step) stop).run (Rule.followStrictly depth) s.flush.fresh).2 from
    ⟨inside.1, inside.2.tidy, built.flush.group inside.2.built, inside.2.reads.group tidy⟩
  refine branch_clean (P := fun result => result.1 = true ∧ Chained s.flush.fresh result.2) errors
    (s := s.flush.fresh) clean (fun _ clean₁ clean₂ => ?_) (fun answer clean₁ _ => ?_)
  · have targets := rules first s.flush.fresh tidy.opened .fresh clean₁
    have begins : Chained s.flush.fresh (Rule.followStrictly depth first s.flush.fresh).2 :=
      ⟨Rule.tidy_followStrictly depth first _ tidy.opened, targets.built, (targets.operand isOperand).2⟩
    exact ⟨rfl, iterate_clean (errors_run errors step) round (fun _ kept => kept) _ begins clean₂⟩
  · have read := ((rules first s.flush.fresh tidy.opened .fresh clean₁).operand isOperand).1
    have answer : (Rule.followStrictly depth first s.flush.fresh).1 = false := answer
    rw [read] at answer
    cases answer

/-- An operand with its accesses is read. -/
theorem reads_postfixed (rules : Rule.AllTarget depth) (tidy : s.Tidy) (built : s.BuiltWith AssignsTarget)
    (clean : (postfixed.run (Rule.followStrictly depth) s).2.errors = s.errors) :
    (postfixed.run (Rule.followStrictly depth) s).1 = true ∧
      Chained s (postfixed.run (Rule.followStrictly depth) s).2 := by
  refine reads_chain rfl rules tidy built (fun t chained clean => ?_) clean
  have yields : postfixStep.yields Kind.isPlainName (fun kind => kind != .assignExpr) = true := by decide
  exact ⟨tidy_run (Rule.tidy_followStrictly depth) postfixStep chained.tidy,
    targets_run rules postfixStep yields chained.tidy chained.built clean, reads_postfixStep rfl chained.reads⟩

/-- A node is an operand, if it is a target where an assignment operator is next. -/
theorem reads_operation (tidy : s.Tidy) {kind : Kind} (expression : kind.isExpression = true) {body : Grammar}
    (mayStand : (body.run (Rule.followStrictly depth) s.flush.fresh).2.assigns = true →
      Assignable (.node kind (body.run (Rule.followStrictly depth) s.flush.fresh).2.built.reverse)) :
    s.ReadsOperand ((node kind body).run (Rule.followStrictly depth) s).2 :=
  ⟨_, _, rfl, (Operands.gap tidy.1).reverse, expression, mayStand⟩

/-- An expression ends in a target. -/
theorem ends_expression (rules : Rule.AllTarget depth) (power : Nat) (tidy : s.Tidy) (built : s.BuiltWith AssignsTarget)
    (clean : (Rule.followStrictly depth (.expression power) s).2.errors = s.errors) :
    Parsing.EndsInTarget power s (Rule.followStrictly depth (.expression power) s).2 := by
  intro assigns
  have targets := rules (.expression power) s tidy built clean
  obtain ⟨target, front, parts, -, -, mayStand⟩ := (targets.operand rfl).2
  exact ⟨targets.strong power rfl assigns, target, front, parts, mayStand assigns⟩

/-- A prefix operator with its operand is an operand. -/
theorem reads_prefix (rules : Rule.AllTarget depth) (tidy : s.Tidy) {power : Nat}
    (found : prefixPower? (s.kindAt 0) = some power)
    (clean : ((also (node .unaryExpr (andThen bump (call (.expression power)))) : Grammar).run
      (Rule.followStrictly depth) s).2.errors = s.errors) :
    s.ReadsOperand ((also (node .unaryExpr (andThen bump (call (.expression power)))) : Grammar).run
      (Rule.followStrictly depth) s).2 := by
  -- Where an assignment operator is next, the operand ends with a target, and so does the whole.
  refine reads_operation tidy rfl fun assigns => ?_
  cases ahead : s.ahead with
  | nil =>
      have atEnd : s.kindAt 0 = .error := by simp [Parsing.kindAt, ahead]
      rw [atEnd] at found
      cases found
  | cons next rest =>
      have kind : s.kindAt 0 = next.token.kind := by simp [Parsing.kindAt, ahead]
      have single : (s.flush.fresh.take id).built = [.leaf next.token.kind next.token.text] := by
        simp [Parsing.take, Parsing.flush, Parsing.fresh, ahead]
      obtain ⟨-, clean⟩ := andThen_clean (s := s.flush.fresh) (Rule.errors_followStrictly depth) bump _ clean
      obtain ⟨strong, last, behind, parts, target⟩ := ends_expression rules power (tidy.opened.take id)
        (Parsing.BuiltWith.fresh.take id) clean assigns
      have all : ((andThen bump (call (.expression power)) : Grammar).run (Rule.followStrictly depth)
          s.flush.fresh).2.built.reverse = .leaf next.token.kind next.token.text :: (behind.reverse ++ [last]) := by
        rw [single] at parts
        exact (congrArg List.reverse parts).trans (by simp)
      rw [kind] at found
      rw [all]
      exact .unary found strong target

/-- A cast with its operand is an operand. -/
theorem reads_cast (rules : Rule.AllTarget depth) (tidy : s.Tidy)
    (clean : ((also (node .unaryExpr (andThen (node .cast (seq [bump, bump, bump])) (call (.expression castPower)))) :
      Grammar).run (Rule.followStrictly depth) s).2.errors = s.errors) :
    s.ReadsOperand ((also (node .unaryExpr (andThen (node .cast (seq [bump, bump, bump]))
      (call (.expression castPower)))) : Grammar).run (Rule.followStrictly depth) s).2 := by
  have errors := Rule.errors_followStrictly depth
  refine reads_operation tidy rfl fun assigns => ?_
  let cast : Grammar := node .cast (seq [bump, bump, bump])
  obtain ⟨clean₁, clean₂⟩ := andThen_clean (s := s.flush.fresh) errors cast (call (.expression castPower)) clean
  have built := targets_run rules cast rfl tidy.opened .fresh clean₁
  obtain ⟨-, last, behind, parts, target⟩ := ends_expression rules castPower
    (tidy_run (Rule.tidy_followStrictly depth) cast tidy.opened) built clean₂ assigns
  obtain ⟨inside, single⟩ : ∃ inside, (cast.run (Rule.followStrictly depth) s.flush.fresh).2.built =
      [.node .cast inside] := ⟨_, rfl⟩
  have all : ((andThen cast (call (.expression castPower)) : Grammar).run (Rule.followStrictly depth)
      s.flush.fresh).2.built.reverse = .node .cast inside :: (behind.reverse ++ [last]) := by
    rw [single] at parts
    exact (congrArg List.reverse parts).trans (by simp)
  rw [all]
  exact .cast target

/-- A token that is not eaten stays. -/
theorem eat_unmoved {follow : Rule → Parsing → Bool × Parsing} {kind : Kind}
    (missing : ((eat kind).run follow s).1 = false) : ((eat kind).run follow s).2 = s := by
  rcases run_eat follow kind s with ⟨eaten, -⟩ | left
  · rw [eaten] at missing
    cases missing
  · rw [left]

/-- What ends an expression is no assignment operator. -/
theorem not_assigns_of_ends
    (ends : ((either atEnd (nextAmong expressionEnds) : Grammar).run (Rule.followStrictly depth) s).1 = true) :
    s.assigns = false := by
  have none : ∀ kind ∈ Kind.error :: expressionEnds, Kind.assignExpr.operators.contains kind = false := by decide
  refine none (s.kindAt 0) ?_
  rw [either, run] at ends
  cases atEnd : s.atEnd with
  | true =>
      have nothing : s.ahead = [] := List.isEmpty_iff.mp atEnd
      rw [Parsing.kindAt, nothing]
      exact List.mem_cons_self
  | false =>
      have condition : (Production.atEnd : Grammar).run (Rule.followStrictly depth) s = (false, s) := by
        rw [Production.atEnd, run, Lookahead.holds, atEnd]
      rw [condition] at ends
      exact List.mem_cons_of_mem _ (List.contains_iff_mem.mp ends)

/-- Behind what is yielded there is no assignment operator. -/
theorem not_assigns_yielded (rules : Rule.AllTarget depth) (tidy : s.Tidy) (built : s.BuiltWith AssignsTarget)
    (clean : ((either (either atEnd (nextAmong expressionEnds)) (andThen (call (.expression yieldPower))
      (when (eat .fatArrow) (call (.expression yieldPower)))) : Grammar).run (Rule.followStrictly depth) s).2.errors =
        s.errors) :
    ((either (either atEnd (nextAmong expressionEnds)) (andThen (call (.expression yieldPower))
      (when (eat .fatArrow) (call (.expression yieldPower)))) : Grammar).run
        (Rule.followStrictly depth) s).2.assigns = false := by
  have errors := Rule.errors_followStrictly depth
  -- What is yielded is read with a lower power than that of assignments, so it takes in an assignment operator.
  have value (t : Parsing) (tidy : t.Tidy) (built : t.BuiltWith AssignsTarget)
      (clean : (Rule.followStrictly depth (.expression yieldPower) t).2.errors = t.errors) :
      (Rule.followStrictly depth (.expression yieldPower) t).2.assigns = false :=
    Bool.eq_false_iff.mpr fun assigns =>
      absurd ((rules (.expression yieldPower) t tidy built clean).strong yieldPower rfl assigns) (by decide)
  have unmoved : ((either atEnd (nextAmong expressionEnds) : Grammar).run (Rule.followStrictly depth) s).2 = s :=
    looks_run _ rfl s
  refine branch_clean (P := fun result => result.2.assigns = false) errors clean (fun ends _ _ => ?_)
    fun _ _ clean => ?_
  · rw [unmoved]
    exact not_assigns_of_ends ends
  · rw [unmoved] at clean ⊢
    obtain ⟨clean₁, clean₂⟩ := andThen_clean errors (call (.expression yieldPower)) _ clean
    have targets := rules (.expression yieldPower) s tidy built clean₁
    have tidy' := Rule.tidy_followStrictly depth (.expression yieldPower) s tidy
    refine branch_clean (P := fun result => result.2.assigns = false) errors clean₂ (fun _ arrow clean => ?_)
      fun missing _ _ => ?_
    · exact value _ (tidy_run (Rule.tidy_followStrictly depth) (eat .fatArrow) tidy')
        (targets_run rules (eat .fatArrow) rfl tidy' targets.built arrow) clean
    · have stays : ((eat .fatArrow : Grammar).run (Rule.followStrictly depth) _).2 = _ := eat_unmoved missing
      rw [stays]
      exact value s tidy built clean₁

/-- Behind `yield` and what it yields there is no assignment operator. -/
theorem not_assigns_yield (rules : Rule.AllTarget depth) (tidy : s.Tidy)
    (clean : (yieldExpression.run (Rule.followStrictly depth) s).2.errors = s.errors) :
    (yieldExpression.run (Rule.followStrictly depth) s).2.assigns = false := by
  have errors := Rule.errors_followStrictly depth
  let mark : Grammar := when (both (next .ident) (look (.word 0 [['f', 'r', 'o', 'm']]))) bump
  obtain ⟨clean₁, clean⟩ := andThen_clean (s := s.flush.fresh) errors bump (andThen mark _) clean
  obtain ⟨clean₂, clean⟩ := andThen_clean errors mark _ clean
  have tidy₁ := tidy_run (Rule.tidy_followStrictly depth) bump tidy.opened
  have built₁ := targets_run rules bump rfl tidy.opened .fresh clean₁
  exact not_assigns_yielded rules (tidy_run (Rule.tidy_followStrictly depth) mark tidy₁)
    (targets_run rules mark rfl tidy₁ built₁ clean₂) clean

/-- An operand with its prefix operators is read. -/
theorem reads_unary (rules : Rule.AllTarget depth) (tidy : s.Tidy) (built : s.BuiltWith AssignsTarget)
    (clean : (unary.run (Rule.followStrictly depth) s).2.errors = s.errors) :
    (unary.run (Rule.followStrictly depth) s).1 = true ∧
      s.ReadsOperand (unary.run (Rule.followStrictly depth) s).2 := by
  have errors := Rule.errors_followStrictly depth
  have unmoved : (castAhead.run (Rule.followStrictly depth) s).2 = s := looks_run _ rfl s
  -- A cast, a prefix operator, `yield`, or none of them.
  refine branch_clean (P := fun result => result.1 = true ∧ s.ReadsOperand result.2) errors clean
    (fun _ _ clean => ?_) (fun _ _ clean => ?_)
  · rw [unmoved] at clean ⊢
    exact ⟨rfl, reads_cast rules tidy clean⟩
  · rw [unmoved, run] at clean ⊢
    cases found : prefixPower? (s.kindAt 0) with
    | some power =>
        rw [found] at clean
        simp only at clean ⊢
        exact ⟨rfl, reads_prefix rules tidy found clean⟩
    | none =>
        simp only [found] at clean ⊢
        split at clean
        · rename_i isYield
          rw [if_pos isYield]
          have none := not_assigns_yield rules tidy clean
          refine ⟨rfl, reads_operation tidy rfl fun assigns => ?_⟩
          have assigns : (yieldExpression.run (Rule.followStrictly depth) s).2.assigns = true := assigns
          rw [none] at assigns
          cases assigns
        · rename_i other
          rw [if_neg other]
          exact (rules .postfixed s tidy built clean).operand rfl

/-- The right operand of an infix operator leaves alone what stands in front of it. -/
theorem keeps_infixOperand (operator : Kind) (right : Nat) : (infixOperand operator right).keeps = true := by
  unfold infixOperand
  split <;> rfl

/-- What follows an infix operator ends in a target. -/
theorem ends_infixOperand (rules : Rule.AllTarget depth) {operator : Kind} {p : InfixPower}
    (found : infixPower? operator = some p) (tidy : s.Tidy) (built : s.BuiltWith AssignsTarget)
    (clean : ((infixOperand operator p.right).run (Rule.followStrictly depth) s).2.errors = s.errors) :
    Parsing.EndsInTarget p.right s ((infixOperand operator p.right).run (Rule.followStrictly depth) s).2 := by
  have errors := Rule.errors_followStrictly depth
  have tidies := Rule.tidy_followStrictly depth
  have suffix (q : Grammar) (keeps : q.keeps = true) (t : Parsing) :
      t.built <:+ (q.run (Rule.followStrictly depth) t).2.built :=
    built_run (Rule.built_followStrictly depth) q keeps t
  -- The last operand of every operator is read with its right power, unless it is the name of a class.
  have value (before : Grammar) (yields : before.yields Kind.isPlainName (fun kind => kind != .assignExpr) = true)
      (keeps : before.keeps = true)
      (clean : ((andThen before (call (.expression p.right))).run (Rule.followStrictly depth) s).2.errors = s.errors) :
      Parsing.EndsInTarget p.right s
        ((andThen before (call (.expression p.right))).run (Rule.followStrictly depth) s).2 := by
    obtain ⟨clean₁, clean₂⟩ := andThen_clean errors before (call (.expression p.right)) clean
    have ends := ends_expression rules p.right (tidy_run tidies before tidy)
      (targets_run rules before yields tidy built clean₁) clean₂
    exact ends.of_suffix (suffix before keeps s)
  unfold infixOperand at clean ⊢
  split at clean
  · -- The last operand stands behind the colon.
    let middle : Grammar := either (next .colon) expression
    have yields : middle.yields Kind.isPlainName (fun kind => kind != .assignExpr) = true := rfl
    obtain ⟨clean₁, clean₂⟩ := andThen_clean errors middle _ clean
    have tidy' := tidy_run tidies middle tidy
    have built' := targets_run rules middle yields tidy built clean₁
    refine branch_clean (P := fun result => Parsing.EndsInTarget p.right s result.2) errors clean₂
      (fun _ colon clean => ?_) (fun missing reported _ => ?_)
    · have ends := ends_expression rules p.right (tidy_run tidies (expect .colon) tidy')
        (targets_run rules (expect .colon) rfl tidy' built' colon) clean
      exact ends.of_suffix ((suffix middle rfl s).trans (suffix (expect .colon) rfl _))
    · rw [Rule.run_expect] at missing reported
      split at missing
      · cases missing
      · rename_i other
        rw [if_neg other] at reported
        exact absurd reported (List.cons_ne_self _ _)
  · exact value (eat .amp) rfl rfl clean
  · refine branch_clean (P := fun result => Parsing.EndsInTarget p.right s result.2) errors clean
      (fun _ _ _ => ?_) (fun _ _ clean => ends_expression rules p.right tidy built clean)
    cases found
    exact fun _ => ⟨by decide, _, _, rfl, .operand rfl⟩
  · exact ends_expression rules p.right tidy built clean

set_option maxRecDepth 2000 in
/-- The nodes of infix operators are expressions. -/
theorem isExpression_infix : ∀ operator ∈ Kind.all, ∀ p ∈ infixPower? operator, p.kind.isExpression = true := by
  decide

/-- An infix operator takes what has been read into an operand, and what stands in front of an assignment operator is a
target. -/
theorem chained_infix (rules : Rule.AllTarget depth) {p : InfixPower} (found : infixPower? (s.kindAt 0) = some p)
    {before : Parsing} (fresh : before.built = []) (chained : Chained before s)
    (clean : ((andThen bump (infixOperand (s.kindAt 0) p.right)).run (Rule.followStrictly depth) s).2.errors =
      s.errors) :
    Chained before ((wrap p.kind (andThen bump (infixOperand (s.kindAt 0) p.right))).run
      (Rule.followStrictly depth) s).2 := by
  have errors := Rule.errors_followStrictly depth
  obtain ⟨operand, front, parts, others, expression, mayStand⟩ := chained.reads
  rw [fresh, List.append_nil] at parts
  have more : s.ahead ≠ [] := by
    intro none
    rw [Parsing.kindAt, none] at found
    cases found
  obtain ⟨text, taken⟩ := Rule.built_take more
  obtain ⟨clean₁, clean₂⟩ := andThen_clean errors bump _ clean
  have tidy := chained.tidy.take id
  have built := targets_run rules bump rfl chained.tidy chained.built clean₁
  have yields : (infixOperand (s.kindAt 0) p.right).yields Kind.isPlainName (fun kind => kind != .assignExpr) = true :=
    yields_infixOperand rfl _ _
  let inner := (infixOperand (s.kindAt 0) p.right).run (Rule.followStrictly depth) (s.take id)
  have inside : inner.2.BuiltWith AssignsTarget := targets_run rules _ yields tidy built clean₂
  have ends : Parsing.EndsInTarget p.right (s.take id) inner.2 := ends_infixOperand rules found tidy built clean₂
  -- The parts of the new node, from its left operand on.
  have all (added : List Tree) : (added ++ (s.take id).built).reverse =
      front.reverse ++ operand :: (s.gap.map Token.leaf ++ .leaf (s.kindAt 0) text :: added.reverse) := by
    rw [taken, parts]
    simp
  refine ⟨tidy_run (Rule.tidy_followStrictly depth) (wrap p.kind _) chained.tidy, inside.wrap ?_,
    .node p.kind inner.2.built.reverse, [], ?_, .nil, isExpression_infix _ (Kind.mem_all _) p found, fun assigns => ?_⟩
  · rcases operators_infix (s.kindAt 0) (Kind.mem_all _) p found with none | ⟨-, listed⟩
    · refine .other fun assigns => ?_
      rw [assigns] at none
      cases none
    · obtain ⟨added, grown⟩ := built_run (Rule.built_followStrictly depth)
        (infixOperand (s.kindAt 0) p.right) (keeps_infixOperand _ _) (s.take id)
      have grown : added ++ (s.take id).built = inner.2.built := grown
      rw [← grown, all]
      exact .assigned others.reverse expression (.gap chained.tidy.1) listed
        (mayStand (List.contains_iff_mem.mpr listed))
  · rw [fresh]
    rfl
  · obtain ⟨strong, last, behind, grown, target⟩ := ends assigns
    have grown : inner.2.built = (last :: behind) ++ (s.take id).built := grown
    have shape : (last :: behind ++ (s.take id).built).reverse =
        (front.reverse ++ operand :: s.gap.map Token.leaf) ++
          .leaf (s.kindAt 0) text :: (behind.reverse ++ [last]) := by
      rw [all]
      simp
    rw [grown, shape]
    exact .binary found strong target

/-- A round over infix operators leaves one operand. -/
theorem chained_infixStep (rules : Rule.AllTarget depth) (power : Nat) {before : Parsing} (fresh : before.built = [])
    (chained : Chained before s)
    (clean : ((infixStep power).run (Rule.followStrictly depth) s).2.errors = s.errors) :
    Chained before ((infixStep power).run (Rule.followStrictly depth) s).2 := by
  rw [infixStep, run] at clean ⊢
  split at clean
  · exact chained
  · rename_i p found
    split at clean
    · rename_i weak
      rw [if_pos weak]
      exact chained
    · rename_i strong
      rw [if_neg strong]
      exact chained_infix rules found fresh chained clean

/-- A round over infix operators takes one that binds strongly enough, or there is none. -/
theorem infixStep_cases (power : Nat) (s : Parsing) :
    ((infixStep power).run (Rule.followStrictly depth) s = (false, s) ∧
        ∀ p, infixPower? (s.kindAt 0) = some p → p.left < power) ∨
      ((infixStep power).run (Rule.followStrictly depth) s).1 = true ∧
        ((infixStep power).run (Rule.followStrictly depth) s).2.ahead.length < s.ahead.length := by
  rw [infixStep, run]
  split
  · rename_i none
    refine .inl ⟨rfl, fun p found => ?_⟩
    rw [none] at found
    cases found
  · rename_i p found
    split
    · rename_i weak
      refine .inl ⟨rfl, fun q same => ?_⟩
      rw [found] at same
      cases same
      exact weak
    · have more : s.ahead ≠ [] := by
        intro none
        rw [Parsing.kindAt, none] at found
        cases found
      have shorter := Parsing.length_take_lt more id
      exact .inr ⟨rfl, (length_run_le (fun rule t => (Rule.ahead_followStrictly_suffix depth rule t).length_le)
        (infixOperand (s.kindAt 0) p.right) (s.take id)).trans_lt shorter⟩

/-- Behind an expression stands an assignment operator only if it was read with a higher power. -/
theorem strong_operatorChain (power : Nat)
    (answer : ((operatorChain power).run (Rule.followStrictly depth) s).1 = true)
    (assigns : ((operatorChain power).run (Rule.followStrictly depth) s).2.assigns = true) :
    assignmentPower < power := by
  -- The last round over operators has found none that binds strongly enough.
  let chain : Grammar := branch (call .unary) (loop (infixStep power)) stop
  have ends : (chain.run (Rule.followStrictly depth) s.flush.fresh).1 = true →
      ∀ p, infixPower? ((chain.run (Rule.followStrictly depth) s.flush.fresh).2.kindAt 0) = some p →
        p.left < power := by
    refine branch_cases (P := fun result => result.1 = true → ∀ p, infixPower? (result.2.kindAt 0) = some p →
      p.left < power) (fun _ _ p found => ?_) (fun _ falsity => absurd falsity Bool.false_ne_true)
    let start := (Rule.followStrictly depth .unary s.flush.fresh).2
    have stops := iterate_stops (fun t => (@infixStep_cases depth power t).imp_left And.left)
      (Nat.lt_succ_self start.ahead.length)
    rcases @infixStep_cases depth power
        (iterate ((infixStep power).run (Rule.followStrictly depth)) (start.ahead.length + 1) start) with
      ⟨-, weak⟩ | ⟨goesOn, -⟩
    · exact weak p found
    · rw [stops] at goesOn
      cases goesOn
  rcases List.mem_pair.mp (List.contains_iff_mem.mp assigns) with isEq | isOther
  · exact ends answer ⟨8, 7, .assignExpr⟩ (congrArg infixPower? isEq)
  · exact ends answer ⟨8, 7, .assignExpr⟩ (congrArg infixPower? isOther)

end Grammar

/-- Only the rule for expressions builds assignments. -/
theorem Grammar.yields_unassigned (rule : Rule) (notExpression : ∀ power, rule ≠ .expression power) :
    rule.production.yields Kind.isPlainName (fun kind => kind != .assignExpr) = true := by
  by_cases isPostfixed : rule = .postfixed
  · subst isPostfixed
    decide
  · refine Production.yields_mono (fun _ same => same) (fun kind other => bne_iff_ne.mpr fun assigns => ?_) _
      (rule.yields_all isPostfixed notExpression)
    rw [assigns] at other
    cases other

/-- **All rules build assignments with targets**, however many rules may be open. -/
theorem Rule.allTarget (depth : Nat) : AllTarget depth := by
  induction depth with
  | zero => exact fun rule s tidy built clean => absurd clean (List.cons_ne_self _ _)
  | succ depth ih =>
      intro rule s tidy built clean
      have step : followStrictly (depth + 1) rule s = rule.production.run (followStrictly depth) s := rfl
      rw [step] at clean ⊢
      -- Only expressions build assignments; all other rules keep the condition because they build none.
      by_cases isExpression : ∃ power, rule = .expression power
      · obtain ⟨power, rfl⟩ := isExpression
        obtain ⟨answer, chained⟩ := Grammar.reads_chain rfl ih tidy built
          (fun t chained clean => Grammar.chained_infixStep ih power rfl chained clean) clean
        refine ⟨chained.built, fun _ => ⟨answer, chained.reads⟩, fun other same assigns => ?_⟩
        cases same
        exact Grammar.strong_operatorChain power answer assigns
      · have other (power : Nat) (same : rule = .expression power) : False := isExpression ⟨power, same⟩
        have yields := Grammar.yields_unassigned rule other
        refine ⟨Grammar.targets_run ih rule.production yields tidy built clean, fun isOperand => ?_,
          fun power same => (other power same).elim⟩
        cases rule with
        | expression power => exact (other power rfl).elim
        | unary => exact Grammar.reads_unary ih tidy built clean
        | postfixed =>
            obtain ⟨answer, chained⟩ := Grammar.reads_postfixed ih tidy built clean
            exact ⟨answer, chained.reads⟩
        | primary => exact Grammar.reads_primary ih tidy built clean
        | _ => cases isOperand

/-- **In the tree of a text without errors assignments have targets.** -/
theorem Parse.assignsTarget_ofTokens {tokens : List Token} (clean : (ofTokens tokens).errors = []) :
    (ofTokens tokens).tree.Everywhere AssignsTarget := by
  let start := Parsing.ofTokens tokens
  let depth := ruleDepth start.ahead.length
  have strictly := Grammar.run_eq_strictly Grammar.sourceFile (s := start) le_rfl
  have tidy : start.Tidy := Parsing.tidy_split tokens
  have clean : (Grammar.sourceFile.run (Rule.followStrictly depth) start).2.errors = start.errors := by
    rw [← strictly]
    exact List.reverse_eq_nil_iff.mp clean
  have built := Grammar.targets_run (Rule.allTarget depth) Grammar.sourceFile
    (Grammar.yields_sourceFile rfl) tidy (List.forall_mem_nil _) clean
  rw [← strictly] at built
  exact .node (.other (by decide)) fun part mem => built.flush part (List.mem_reverse.mp mem)

/-! ## (4) The assignments of a file -/

namespace Cursor

/-- The parts of an assignment with a target: the target is the first expression, and it ends in front of the
operator. -/
theorem exists_target {c : Cursor} (assigns : c.kind = .assignExpr) (parts : AssignsTarget c.kind c.tree.children) :
    ∃ target operator, c.firstExpression? = some target ∧ operator ∈ c.tokens ∧
      operator.kind ∈ Kind.assignExpr.operators ∧ target.stop ≤ operator.start ∧ Assignable target.tree := by
  generalize all : c.tree.children = trees at parts
  cases parts with
  | other none => exact absurd assigns none
  | @assigned front gap behind target kind text before expression trivia listed mayStand =>
      have trees : c.children.map tree = front ++ target :: (gap ++ .leaf kind text :: behind) := by
        rw [map_tree_children, all]
      obtain ⟨inFront, others, split, rfl, fromTarget⟩ := List.map_eq_append_iff.mp trees
      obtain ⟨applied, rest, rfl, rfl, behindTarget⟩ := List.map_eq_cons_iff.mp fromTarget
      obtain ⟨inGap, others, rfl, rfl, fromOperator⟩ := List.map_eq_append_iff.mp behindTarget
      obtain ⟨operator, inBehind, rfl, leaf, rfl⟩ := List.map_eq_cons_iff.mp fromOperator
      -- In front of the target there is no expression, so it is the first one.
      have none : inFront.filter (·.tree.isExpression) = [] := by
        have count := Nat.le_zero.mp before.count
        rw [List.countP_map, List.countP_eq_length_filter] at count
        exact List.length_eq_zero_iff.mp count
      have first : c.firstExpression? = some applied := by
        have kept : inFront.filter (·.tree.isExpression) ++
            (applied :: (inGap ++ operator :: inBehind)).filter (·.tree.isExpression) =
              applied :: (inGap ++ operator :: inBehind).filter (·.tree.isExpression) := by
          rw [none, List.nil_append, List.filter_cons, if_pos expression]
        rw [firstExpression?_eq, expressions_eq, split, List.filter_append, kept, List.head?_cons]
      have isToken : operator ∈ c.tokens := by
        refine List.mem_filter.mpr ⟨by simp [split], ?_⟩
        rw [isLeaf, leaf, Tree.isLeaf]
      have inOrder := childrenFrom_pairwise_le c [] c.tree.children c.start
      have same : childrenFrom c [] c.start c.tree.children =
          inFront ++ applied :: (inGap ++ operator :: inBehind) := split
      rw [same, List.pairwise_append, List.pairwise_cons] at inOrder
      refine ⟨applied, operator, first, isToken, ?_, inOrder.2.1.1 operator (by simp), mayStand⟩
      rw [Cursor.kind, leaf]
      exact listed

end Cursor

/-- **An assignment assigns to its target.** In the tree of a text without errors each assignment has a left operand in
front of its operator, and all operators at the right end of this operand bind more strongly than an assignment. So it
is no assignment, no `or`, `xor` or `and`, no `print`, `throw`, `include` or `yield`: behind these the assignment is to
the last operand alone. Other operators take part in the left operand. -/
theorem assignment_target (source : Text) (clean : (Parse.ofText source).errors = []) :
    ∀ c ∈ (Cursor.root (Parse.ofText source).tree).descendants, c.kind = .assignExpr →
      ∃ target operator, c.firstExpression? = some target ∧ operator ∈ c.tokens ∧
        operator.kind ∈ Kind.assignExpr.operators ∧ target.stop ≤ operator.start ∧ Assignable target.tree := by
  intro c mem assigns
  obtain ⟨inElements, node⟩ := List.mem_filter.mp mem
  have all : (Cursor.root (Parse.ofText source).tree).tree.Everywhere AssignsTarget :=
    Parse.assignsTarget_ofTokens clean
  have parts := (Cursor.everywhere_of_mem_elements all inElements).here (show c.isLeaf = false by simpa using node)
  exact Cursor.exists_target assigns parts

/-- An assignment behind a low operator, and one in front of one. -/
def lowAssignment : Text := "<?php $x or $a = $y and $z;".toList

/-- It is to the variable alone. -/
theorem assignment_target_lowAssignment :
    (Parse.ofText lowAssignment).errors = [] ∧
      ∀ c ∈ (Cursor.root (Parse.ofText lowAssignment).tree).descendants, c.kind = .assignExpr →
        ∃ target operator, c.firstExpression? = some target ∧ operator ∈ c.tokens ∧
          operator.kind ∈ Kind.assignExpr.operators ∧ target.stop ≤ operator.start ∧ Assignable target.tree := by
  have isClean : (Parse.ofText lowAssignment).isClean = true := by decide +kernel
  have clean : (Parse.ofText lowAssignment).errors = [] := List.isEmpty_iff.mp isClean
  exact ⟨clean, assignment_target lowAssignment clean⟩

/-- An assignment of a new object behind an exclamation mark, and a call on the variable. -/
def negatedAssignment : Text := "<?php if (!$b = new B()) \x7b\x7d $b->f();".toList

/-- The assignment is to the negated variable, and so the type of the variable is not known behind it. -/
theorem negatedAssignment_target :
    (Parse.ofText negatedAssignment).errors = [] ∧
      (∃ c ∈ (Cursor.root (Parse.ofText negatedAssignment).tree).descendants, c.kind = .assignExpr ∧
        c.firstExpression?.map Cursor.kind = some .unaryExpr) ∧
      (SourceFile.ofText negatedAssignment).typeAt .empty 30 = .unknown := by
  have facts : (Parse.ofText negatedAssignment).isClean = true ∧
      (∃ c ∈ (Cursor.root (Parse.ofText negatedAssignment).tree).descendants, c.kind = .assignExpr ∧
        c.firstExpression?.map Cursor.kind = some .unaryExpr) ∧
      (SourceFile.ofText negatedAssignment).typeAt .empty 30 = .unknown := by decide +kernel
  exact ⟨List.isEmpty_iff.mp facts.1, facts.2⟩

end PhpMembers
