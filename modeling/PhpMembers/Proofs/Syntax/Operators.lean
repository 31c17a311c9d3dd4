import PhpMembers.Proofs.Syntax.Operands

/-! # Accesses and assignments in the tree

In the tree of every text, damaged or not, an access or an assignment consists of its first operand, the token
of the operator, and what follows it. The operand can be missing in damaged text; the operator cannot. Only
two loops of the grammar build such nodes, and what they start from is one operand.

* `Production.yields` : the kinds under which a production records tokens and builds nodes.
* `Operated` : the parts of accesses and assignments.
* `Grammar.operated_postfixStep`, `Grammar.operated_infixStep` : the loops build accesses and assignments in this form.
* `Parse.operated_ofTokens` : so does the parser. -/

namespace PhpMembers

/-! ## (1) What a production yields -/

namespace Production

variable {ρ : Type} {leaf node leaf' node' : Kind → Bool} {follow : ρ → Parsing → Bool × Parsing}

/-- Whether all kinds under which a production records tokens other than their own, and all kinds of the nodes
that it builds, pass a test. -/
def yields (leaf node : Kind → Bool) : Production ρ → Bool
  | answer _ | look _ | bump | fault _ | call _ => true
  | bumpAs kind => leaf kind
  | andThen first second => first.yields leaf node && second.yields leaf node
  | branch condition yes no => condition.yields leaf node && yes.yields leaf node && no.yields leaf node
  | byKind cases => Kind.all.all fun k => (cases k).yields leaf node
  | .node kind body | wrap kind body => node kind && body.yields leaf node
  | group body | loop body | advances body => body.yields leaf node

/-- Weaker tests are passed, too. -/
theorem yields_mono (leaves : ∀ kind, leaf kind = true → leaf' kind = true)
    (nodes : ∀ kind, node kind = true → node' kind = true) (p : Production ρ)
    (yields : p.yields leaf node = true) : p.yields leaf' node' = true := by
  induction p with
  | answer ok => rfl
  | look condition => rfl
  | bump => rfl
  | bumpAs kind => exact leaves kind yields
  | fault cause => rfl
  | andThen first second ih₁ ih₂ =>
      obtain ⟨yields₁, yields₂⟩ := Bool.and_eq_true_iff.mp yields
      exact Bool.and_eq_true_iff.mpr ⟨ih₁ yields₁, ih₂ yields₂⟩
  | branch condition yes no ih ihYes ihNo =>
      obtain ⟨yields, yieldsNo⟩ := Bool.and_eq_true_iff.mp yields
      obtain ⟨yields, yieldsYes⟩ := Bool.and_eq_true_iff.mp yields
      exact Bool.and_eq_true_iff.mpr ⟨Bool.and_eq_true_iff.mpr ⟨ih yields, ihYes yieldsYes⟩, ihNo yieldsNo⟩
  | byKind cases ih =>
      exact List.all_eq_true.mpr fun kind listed => ih kind (List.all_eq_true.mp yields kind listed)
  | node kind body ih | wrap kind body ih =>
      obtain ⟨here, inside⟩ := Bool.and_eq_true_iff.mp yields
      exact Bool.and_eq_true_iff.mpr ⟨nodes kind here, ih inside⟩
  | group body ih => exact ih yields
  | loop body ih => exact ih yields
  | advances body ih => exact ih yields
  | call rule => rfl

/-- **A condition that can only fail for nodes of other kinds is kept.** -/
theorem builtWith_run {P : Kind → List Tree → Prop} (apart : ∀ kind parts, node kind = true → P kind parts)
    (tidies : ∀ rule s, s.Tidy → (follow rule s).2.Tidy)
    (rules : ∀ rule s, s.Tidy → s.BuiltWith P → (follow rule s).2.BuiltWith P) (p : Production ρ)
    (yields : p.yields leaf node = true) {s : Parsing} (tidy : s.Tidy) (built : s.BuiltWith P) :
    (p.run follow s).2.BuiltWith P := by
  -- The condition is about nodes, so only the productions that build one have something to show.
  induction p generalizing s with
  | answer ok => exact built
  | look condition => exact built
  | bump => exact built.take id
  | bumpAs kind => exact built.take _
  | fault cause => exact built
  | andThen first second ih₁ ih₂ =>
      obtain ⟨yields₁, yields₂⟩ := Bool.and_eq_true_iff.mp yields
      exact ih₂ yields₂ (tidy_run tidies first tidy) (ih₁ yields₁ tidy built)
  | branch condition yes no ih ihYes ihNo =>
      obtain ⟨yields, yieldsNo⟩ := Bool.and_eq_true_iff.mp yields
      obtain ⟨yields, yieldsYes⟩ := Bool.and_eq_true_iff.mp yields
      have tidy' := tidy_run tidies condition tidy
      have built' := ih yields tidy built
      exact branch_cases (P := fun result => result.2.BuiltWith P) (fun _ => ihYes yieldsYes tidy' built')
        (fun _ => ihNo yieldsNo tidy' built')
  | byKind cases ih => exact ih _ (List.all_eq_true.mp yields _ (Kind.mem_all _)) tidy built
  | node kind body ih =>
      obtain ⟨here, inside⟩ := Bool.and_eq_true_iff.mp yields
      exact built.flush.node (ih inside tidy.opened .fresh) (apart _ _ here)
  | group body ih => exact built.flush.group (ih yields tidy.opened .fresh)
  | wrap kind body ih =>
      obtain ⟨here, inside⟩ := Bool.and_eq_true_iff.mp yields
      exact (ih inside tidy built).wrap (apart _ _ here)
  | loop body ih =>
      have rounds := iterate_induction (P := fun t => t.Tidy ∧ t.BuiltWith P)
        (fun t kept => ⟨tidy_run tidies body kept.1, ih yields kept.1 kept.2⟩) (s.ahead.length + 1) ⟨tidy, built⟩
      exact rounds.2
  | advances body ih => exact ih yields tidy built
  | call rule => exact rules rule s tidy built

end Production

/-! ## (2) The parts of accesses and assignments -/

/-- The tokens that can stand behind the first operand of an access or an assignment. -/
def Kind.operators : Kind → List Kind
  | .memberAccessExpr => [.arrow, .nullsafeArrow]
  | .staticAccessExpr => [.colonColon]
  | .assignExpr => [.eq, .assignOp]
  | _ => []

/-- The kinds of the tokens among some parts that are not trivia. -/
def ownSignificant (parts : List Tree) : List Kind := (ownKinds parts).filter fun kind => !kind.isTrivia

@[simp] theorem ownSignificant_append (parts others : List Tree) :
    ownSignificant (parts ++ others) = ownSignificant parts ++ ownSignificant others := by
  rw [ownSignificant, ownKinds_append, List.filter_append, ownSignificant, ownSignificant]

/-- Operands have no tokens of their own but trivia. -/
theorem Operands.ownSignificant {n : Nat} {parts : List Tree} (operands : Operands n parts) :
    ownSignificant parts = [] := by
  refine List.filter_eq_nil_iff.mpr fun kind mem => ?_
  rw [operands.trivia kind mem]
  decide

/-- The parts of an access or assignment: the first operand, the operator, and behind it at most one token
besides trivia, which is no operator of the same kind. Other nodes may have any parts. -/
inductive Operated (kind : Kind) : List Tree → Prop
  /-- A node of another kind. -/
  | other {parts : List Tree} (none : kind.operators = []) : Operated kind parts
  /-- An access or assignment. -/
  | applied {front behind : List Tree} {operator more : Kind} {text : Text} (operand : Operands 1 front)
      (listed : operator ∈ kind.operators) (rest : (ownSignificant behind).Sublist [more])
      (apart : more ∉ kind.operators) : Operated kind (front ++ .leaf operator text :: behind)

/-- `s.Adds t kinds`: from `s` to `t` parts are added, and the tokens among them that are not trivia are some
of the given kinds. -/
def Parsing.Adds (s t : Parsing) (kinds : List Kind) : Prop :=
  ∃ added, t.built = added ++ s.built ∧ (ownSignificant added.reverse).Sublist kinds

namespace Parsing.Adds

variable {s t u : Parsing} {kinds others : List Kind}

theorem refl (same : t.built = s.built) : s.Adds t [] :=
  ⟨[], same, List.Sublist.refl _⟩

theorem trans (first : s.Adds t kinds) (second : t.Adds u others) : s.Adds u (kinds ++ others) := by
  obtain ⟨added₁, parts₁, tokens₁⟩ := first
  obtain ⟨added₂, parts₂, tokens₂⟩ := second
  refine ⟨added₂ ++ added₁, by rw [parts₂, parts₁, List.append_assoc], ?_⟩
  rw [List.reverse_append, ownSignificant_append]
  exact tokens₁.append tokens₂

theorem mono (adds : s.Adds t kinds) (le : kinds.Sublist others) : s.Adds t others := by
  obtain ⟨added, parts, tokens⟩ := adds
  exact ⟨added, parts, tokens.trans le⟩

/-- The trivia in front of the next token does not count. -/
theorem flush (tidy : s.Tidy) : s.Adds s.flush [] := by
  refine ⟨_, rfl, ?_⟩
  rw [(Operands.gap tidy.1).reverse.reverse.ownSignificant]

/-- A token that is taken. -/
theorem take (tidy : s.Tidy) (rename : Kind → Kind) : s.Adds (s.take rename) [rename (s.kindAt 0)] := by
  cases ahead : s.ahead with
  | nil =>
      rw [Parsing.take_of_nil rename ahead]
      exact (flush tidy).mono (List.nil_sublist _)
  | cons next rest =>
      have leaf : s.flush.Adds (s.take rename) [rename (s.kindAt 0)] := by
        refine ⟨[.leaf (rename next.token.kind) next.token.text], ?_, ?_⟩
        · simp [Parsing.take, Parsing.flush, ahead]
        · have kind : s.kindAt 0 = next.token.kind := by simp [kindAt, ahead]
          rw [kind]
          exact List.filter_sublist
      exact (flush tidy).trans leaf

/-- Operands have no tokens of their own. -/
theorem operands {n : Nat} {added : List Tree} (parts : t.built = added ++ s.built)
    (operands : Operands n added) : s.Adds t [] :=
  ⟨added, parts, by rw [operands.reverse.ownSignificant]⟩

/-- The tokens inside of a node do not count. -/
theorem node (tidy : s.Tidy) {kind : Kind} {inside : List Tree}
    (parts : t.built = .node kind inside :: s.flush.built) : s.Adds t [] :=
  (flush tidy).trans ⟨[.node kind inside], parts, List.Sublist.refl _⟩

end Parsing.Adds

namespace Grammar

open Production

variable {depth : Nat}

/-- What is gathered behind an operand makes an access or assignment: first the operator, then at most one
more token. -/
theorem operated_of_adds {kind more : Kind} {s t : Parsing} (tidy : s.Tidy) (operand : Operands 1 s.built)
    (listed : s.kindAt 0 ∈ kind.operators) (adds : (s.take id).Adds t [more])
    (apart : more ∉ kind.operators) : Operated kind t.built.reverse := by
  obtain ⟨added, parts, tokens⟩ := adds
  cases ahead : s.ahead with
  | nil =>
      -- At the end there is no operator.
      have atEnd : s.kindAt 0 = .error := by simp [Parsing.kindAt, ahead]
      rw [atEnd] at listed
      unfold Kind.operators at listed
      split at listed
      all_goals simp at listed
  | cons next rest =>
      have first : s.kindAt 0 = next.token.kind := by simp [Parsing.kindAt, ahead]
      have taken : (s.take id).built =
          .leaf next.token.kind next.token.text :: ((s.gap.map Token.leaf).reverse ++ s.built) := by
        simp [Parsing.take, Parsing.flush, ahead]
      have all : t.built.reverse = (s.built.reverse ++ s.gap.map Token.leaf) ++
          .leaf next.token.kind next.token.text :: added.reverse := by
        rw [parts, taken]
        simp
      rw [first] at listed
      rw [all]
      exact .applied (operand.reverse.append (.gap tidy.1)) listed tokens apart

/-- A computed name or variable is a node. -/
theorem adds_node {s : Parsing} (tidy : s.Tidy) (kind : Kind) (body : Grammar) :
    s.Adds ((node kind body : Grammar).run (Rule.follow depth) s).2 [] :=
  .node tidy rfl

/-- Rules for operands add no tokens. -/
theorem adds_follow {s : Parsing} (tidy : s.Tidy) {rule : Rule} (starts : rule.StartsWith (s.kindAt 0)) {n : Nat}
    (operands : rule.operands = some n) : s.Adds (Rule.follow depth rule s).2 [] := by
  obtain ⟨added, parts, -, adds⟩ := (Rule.gathers_follow depth rule s tidy starts).parts
  exact .operands parts (adds n operands)

/-- A variable is a node. -/
theorem adds_variable {s : Parsing} (tidy : s.Tidy) (next : s.kindAt 0 ∈ [.variable, .dollar]) :
    s.Adds (Rule.follow depth .variable s).2 [] := by
  refine adds_follow tidy (fun first starts => ?_) rfl
  cases starts
  exact next

/-- The name after an arrow is at most one token. -/
theorem adds_instanceMemberName {s : Parsing} (tidy : s.Tidy) :
    s.Adds (instanceMemberName.run (Rule.follow depth) s).2 [.ident] := by
  rw [instanceMemberName, run]
  split
  · exact .take tidy fun _ => .ident
  · refine Parsing.Adds.mono ?_ (List.nil_sublist _)
    split
    · rename_i found
      refine adds_variable tidy ?_
      rw [found]
      decide
    · exact adds_node tidy _ _
    · exact .refl rfl

/-- The name after a double colon is at most one token, and no double colon. -/
theorem adds_staticMemberName {s : Parsing} (tidy : s.Tidy) :
    ∃ more, more ≠ Kind.colonColon ∧ s.Adds (staticMemberName.run (Rule.follow depth) s).2 [more] := by
  rw [staticMemberName, run]
  split
  · rename_i kind
    have taken := Parsing.Adds.take tidy id
    rw [kind] at taken
    exact ⟨.classKw, by decide, taken⟩
  · rename_i kind
    have taken := Parsing.Adds.take tidy id
    rw [kind] at taken
    exact ⟨.variable, by decide, taken⟩
  · exact ⟨.ident, by decide, (adds_node tidy _ _).mono (List.nil_sublist _)⟩
  · rename_i found
    refine ⟨.ident, by decide, (adds_variable tidy ?_).mono (List.nil_sublist _)⟩
    rw [found]
    decide
  · split
    · exact ⟨.ident, by decide, .take tidy fun _ => .ident⟩
    · exact ⟨.ident, by decide, (Parsing.Adds.refl rfl).mono (List.nil_sublist _)⟩

/-- The value of an assignment is at most one token and an expression. -/
theorem adds_assigned {s : Parsing} (tidy : s.Tidy) {operator : Kind} (right : Nat)
    (assigns : operator ∈ Kind.assignExpr.operators) :
    s.Adds ((infixOperand operator right).run (Rule.follow depth) s).2 [.amp] := by
  have value {s : Parsing} (tidy : s.Tidy) : s.Adds (Rule.follow depth (.expression right) s).2 [] :=
    adds_follow tidy (fun first starts => by cases starts) rfl
  rcases List.mem_pair.mp assigns with rfl | rfl
  · have mark : s.Adds ((eat .amp : Grammar).run (Rule.follow depth) s).2 [.amp] := by
      rw [eat, next, nthIs, run, run, Lookahead.holds]
      cases found : s.kindAt 0 == .amp with
      | true =>
          have taken := Parsing.Adds.take tidy id
          rw [beq_iff_eq.mp found] at taken
          exact taken
      | false => exact (Parsing.Adds.refl rfl).mono (List.nil_sublist _)
    exact mark.trans (value (tidy_run (Rule.tidy_follow depth) _ tidy))
  · exact (value tidy).mono (List.nil_sublist _)

end Grammar

/-! ## (3) The grammar -/

/-- The nodes that are built in the loops over accesses and infix operators, as far as their parts matter. -/
def Kind.isChained : Kind → Bool
  | .memberAccessExpr | .staticAccessExpr | .callExpr | .assignExpr => true
  | _ => false

/-- The kinds of names. -/
def Kind.isPlainName (kind : Kind) : Bool := kind == .ident || kind == .qualifiedName

set_option maxRecDepth 2000 in
/-- All other rules build other nodes only, and no token is recorded under another kind unless as a name. -/
theorem Rule.yields_all (rule : Rule) (notPostfixed : rule ≠ .postfixed)
    (notExpression : ∀ power, rule ≠ .expression power) :
    rule.production.yields Kind.isPlainName (fun kind => !kind.isChained) = true := by
  cases rule with
  | postfixed => exact absurd rfl notPostfixed
  | expression power => exact absurd rfl (notExpression power)
  | _ => decide

/-- Nodes of other kinds may have any parts. -/
theorem Operated.of_not_isChained (kind : Kind) (parts : List Tree) (other : (!kind.isChained) = true) :
    Operated kind parts := by
  refine .other ?_
  unfold Kind.operators
  split
  · cases other
  · cases other
  · cases other
  · rfl

namespace Grammar

open Production

variable {depth : Nat}

/-- Where one operand has been read, the rounds of a loop start from one operand. -/
theorem operand_holds {start : Rule} (operands : start.operands = some 1) {s : Parsing} (fresh : s.built = [])
    {result : Bool × Parsing} (gathers : start.Gathers depth s result) (answer : result.1 = true) :
    Gathered.operand.Holds depth [] result.2 := by
  obtain ⟨added, parts, -, adds⟩ := gathers.parts
  rw [fresh] at parts
  refine ⟨gathers.tidy, Kind.mem_all _, ⟨added, parts, fun falsity => absurd falsity Bool.false_ne_true, ?_⟩,
    fun _ => gathers.followed answer⟩
  intro n one
  cases one
  exact adds 1 operands

/-- **A loop over operators keeps what each of its rounds keeps**, where each round starts from one
operand. -/
theorem chain_induction {P : Parsing → Prop} {start : Rule} {step : Grammar} (first : start.first = none)
    (operands : start.operands = some 1)
    (gathers : step.gathers .operand (fun _ done => Gathered.operand.stays done) = true)
    {s : Parsing} (tidy : s.Tidy) (begins : P (Rule.follow depth start s.flush.fresh).2)
    (round : ∀ t, Gathered.operand.Holds depth [] t → P t → P (step.run (Rule.follow depth) t).2) :
    P ((branch (call start) (loop step) stop : Grammar).run (Rule.follow depth) s.flush.fresh).2 := by
  have reads := Rule.gathers_follow depth start s.flush.fresh tidy.opened fun kinds starts => by
    rw [first] at starts
    cases starts
  rw [run, run]
  rcases found : Rule.follow depth start s.flush.fresh with ⟨_ | _, t⟩
  · rw [found] at begins
    exact begins
  · rw [found] at begins reads
    have holds : Gathered.operand.Holds depth [] t := operand_holds operands rfl reads rfl
    refine (iterate_induction (P := fun t => Gathered.operand.Holds depth [] t ∧ P t) (fun t kept => ?_) _
      ⟨holds, begins⟩).2
    obtain ⟨done, stays, after⟩ := gathers_run (Rule.gathers_follow depth) step gathers (.inr rfl) kept.1
    exact ⟨Gathered.Holds.again (g := .operand) stays after, round t kept.1 kept.2⟩

/-- The loop over accesses starts from one operand. -/
theorem gathers_postfixStep :
    postfixStep.gathers .operand (fun _ done => Gathered.operand.stays done) = true := by
  decide

/-- With at most `depth` rules open, all rules build accesses and assignments from their parts. -/
def AllOperate (depth : Nat) : Prop :=
  ∀ (rule : Rule) (s : Parsing), s.Tidy → s.BuiltWith Operated → (Rule.follow depth rule s).2.BuiltWith Operated

/-- A production that builds no access or assignment keeps them. -/
theorem operated_run (rules : AllOperate depth) (p : Grammar)
    (yields : p.yields Kind.isPlainName (fun kind => !kind.isChained) = true) {s : Parsing} (tidy : s.Tidy)
    (built : s.BuiltWith Operated) : (p.run (Rule.follow depth) s).2.BuiltWith Operated :=
  builtWith_run Operated.of_not_isChained (Rule.tidy_follow depth) rules p yields tidy built

/-- What is gathered into an access or assignment: an operand, the operator, and what follows it. -/
theorem operated_wrap (rules : AllOperate depth) {kind more : Kind} {behind : Grammar}
    (yields : behind.yields Kind.isPlainName (fun kind => !kind.isChained) = true) {s : Parsing}
    (holds : Gathered.operand.Holds depth [] s) (built : s.BuiltWith Operated)
    (listed : s.kindAt 0 ∈ kind.operators) (apart : more ∉ kind.operators)
    (adds : (s.take id).Adds (behind.run (Rule.follow depth) (s.take id)).2 [more]) :
    ((also (wrap kind (andThen bump behind)) : Grammar).run (Rule.follow depth) s).2.BuiltWith Operated := by
  obtain ⟨added, parts, -, operands⟩ := holds.parts
  rw [List.append_nil] at parts
  have operand : Operands 1 s.built := by
    rw [parts]
    exact operands 1 rfl
  have inside := operated_run rules behind yields (holds.tidy.take id) (built.take id)
  exact inside.wrap (operated_of_adds holds.tidy operand listed adds apart)

/-- A round over accesses keeps to the form of accesses. -/
theorem operated_postfixStep (rules : AllOperate depth) {s : Parsing} (holds : Gathered.operand.Holds depth [] s)
    (built : s.BuiltWith Operated) : (postfixStep.run (Rule.follow depth) s).2.BuiltWith Operated := by
  have after : (s.take id).Tidy := holds.tidy.take id
  have plain {kind : Kind} {body : Grammar} (none : kind.operators = [])
      (yields : body.yields Kind.isPlainName (fun kind => !kind.isChained) = true) :
      ((wrap kind body).run (Rule.follow depth) s).2.BuiltWith Operated :=
    (operated_run rules body yields holds.tidy built).wrap (.other none)
  -- Accesses have an operator of their own; calls and indices have none.
  rw [postfixStep, run]
  split
  · rename_i operator
    exact operated_wrap rules (by decide) holds built (by rw [operator]; decide) (by decide)
      (adds_instanceMemberName after)
  · rename_i operator
    exact operated_wrap rules (by decide) holds built (by rw [operator]; decide) (by decide)
      (adds_instanceMemberName after)
  · rename_i operator
    obtain ⟨more, ne, adds⟩ : ∃ more, more ≠ Kind.colonColon ∧
        (s.take id).Adds (staticMemberName.run (Rule.follow depth) (s.take id)).2 [more] := adds_staticMemberName after
    exact operated_wrap rules (by decide) holds built (by rw [operator]; decide)
      (fun same => ne (List.mem_singleton.mp same)) adds
  · exact plain rfl rfl
  · exact plain rfl rfl
  · exact plain rfl rfl
  · exact plain rfl rfl
  · exact built

set_option maxRecDepth 2000 in
/-- An infix operator that builds an assignment is one of assignment. -/
theorem operators_infix : ∀ operator ∈ Kind.all, ∀ p ∈ infixPower? operator,
    p.kind.operators = [] ∨ p.kind = .assignExpr ∧ operator ∈ Kind.assignExpr.operators := by
  decide

/-- A name is a node of its own. -/
theorem yields_nameRef {node : Kind → Bool} (name : node .nameRef = true) :
    nameRef.yields Kind.isPlainName node = true := by
  have tokens : nameRef.yields Kind.isPlainName (· == .nameRef) = true := by decide
  exact yields_mono (fun _ same => same) (fun kind same => beq_iff_eq.mp same ▸ name) _ tokens

/-- Apart from what its statements yield, a file has error nodes only. -/
theorem yields_sourceFile {leaf node : Kind → Bool} (error : node .error = true) :
    sourceFile.yields leaf node = true := by
  have damage : sourceFile.yields (fun _ => false) (· == .error) = true := by decide
  exact yields_mono (fun _ never => absurd never Bool.false_ne_true) (fun kind same => beq_iff_eq.mp same ▸ error) _
    damage

/-- The right operand of an infix operator contains no other operator of the same loop. -/
theorem yields_infixOperand {node : Kind → Bool} (name : node .nameRef = true) (operator : Kind) (right : Nat) :
    (infixOperand operator right).yields Kind.isPlainName node = true := by
  have name : nameRef.yields Kind.isPlainName node = true := yields_nameRef name
  unfold infixOperand
  split
  · rfl
  · rfl
  · rw [yields, name]
    rfl
  · rfl

/-- A round over infix operators keeps to the form of assignments. -/
theorem operated_infixStep (rules : AllOperate depth) (power : Nat) {s : Parsing}
    (holds : Gathered.operand.Holds depth [] s) (built : s.BuiltWith Operated) :
    ((infixStep power).run (Rule.follow depth) s).2.BuiltWith Operated := by
  rw [infixStep, run]
  split
  · exact built
  · rename_i p found
    split
    · exact built
    · have yields := @yields_infixOperand (fun kind => !kind.isChained) rfl (s.kindAt 0) p.right
      rcases operators_infix (s.kindAt 0) (Kind.mem_all _) p found with none | ⟨assigns, listed⟩
      · exact (operated_run rules _ yields (holds.tidy.take id) (built.take id)).wrap (.other none)
      · rw [assigns]
        exact operated_wrap rules yields holds built listed (by decide)
          (adds_assigned (holds.tidy.take id) p.right listed)

/-- **All rules build accesses and assignments from their parts**, however many rules may be open. -/
theorem allOperate (depth : Nat) : AllOperate depth := by
  induction depth with
  | zero => exact fun rule s tidy built => built
  | succ depth ih =>
      intro rule s tidy built
      have chain {start : Rule} {step : Grammar} (first : start.first = none) (operands : start.operands = some 1)
          (gathers : step.gathers .operand (fun _ done => Gathered.operand.stays done) = true)
          (round : ∀ t, Gathered.operand.Holds depth [] t → t.BuiltWith Operated →
            (step.run (Rule.follow depth) t).2.BuiltWith Operated) :
          ((group (branch (call start) (loop step) stop) : Grammar).run (Rule.follow depth) s).2.BuiltWith Operated :=
        built.flush.group (chain_induction first operands gathers tidy (ih start _ tidy.opened .fresh) round)
      by_cases isPostfixed : rule = .postfixed
      · subst isPostfixed
        exact chain rfl rfl gathers_postfixStep fun t => operated_postfixStep ih
      · by_cases isExpression : ∃ power, rule = .expression power
        · obtain ⟨power, rfl⟩ := isExpression
          exact chain rfl rfl (gathers_infixStep power) fun t => operated_infixStep ih power
        · have others := rule.yields_all isPostfixed fun power same => isExpression ⟨power, same⟩
          exact operated_run ih rule.production others tidy built

end Grammar

/-- **In the tree of every text accesses and assignments consist of an operand, the operator and what follows
it.** -/
theorem Parse.operated_ofTokens (tokens : List Token) : (Parse.ofTokens tokens).tree.Everywhere Operated := by
  let start := Parsing.ofTokens tokens
  let depth := ruleDepth start.ahead.length
  have yields : Grammar.sourceFile.yields Kind.isPlainName (fun kind => !kind.isChained) = true :=
    Grammar.yields_sourceFile rfl
  have built : (Grammar.sourceFile.run (Rule.follow depth) start).2.BuiltWith Operated :=
    Grammar.operated_run (Grammar.allOperate depth) Grammar.sourceFile yields (Parsing.tidy_split tokens)
      fun _ mem => absurd mem List.not_mem_nil
  exact .node (.other rfl) fun part mem => built.flush part (List.mem_reverse.mp mem)

end PhpMembers
