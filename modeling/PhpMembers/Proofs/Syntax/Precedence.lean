import PhpMembers.Proofs.Printing.Running

/-! # Operator precedence

A chain of variables and infix operators is read as the tree that the powers of its operators prescribe. In this tree
an operator stands above those at the right end of its left operand only if they bind more strongly towards it than it
does towards them, and likewise for the left end of its right operand. There is exactly one such tree for every chain.
That there is one is shown by putting the operators in from left to right, and that there are no others follows from
reading, which has one result.

* `Chain`, `Grouping` : chains and the ways to group them.
* `Grouping.WellGrouped` : the powers are respected at every operator.
* `Grouping.exists_wellGrouped` : every chain can be grouped well.
* `Grouping.repeats_infixStep`, `Grouping.WellGrouped.run_expression` : a well-grouped chain is read as its tree.
* `Grouping.wellGrouped_iff` : the powers are those of levels of precedence with a direction each.
* `chain_precedence` : what is read for a chain. -/

namespace PhpMembers

open Production

/-! ## (1) Chains and their groupings -/

/-- An operand of a chain: a variable, with the trivia behind it. -/
structure Chain.Operand where
  /-- The token of the variable. -/
  lexeme : Lexeme
  /-- It is one token. -/
  isVariable : lexeme.token.kind = .variable

/-- An operator of a chain: any infix operator with one expression on either side. -/
structure Chain.Operator where
  /-- The token of the operator. -/
  lexeme : Lexeme
  /-- How strongly it binds. -/
  power : InfixPower
  /-- It is an infix operator. -/
  found : infixPower? lexeme.token.kind = some power
  /-- It is not the one with two expressions on its right. -/
  notQuestion : lexeme.token.kind ≠ .question
  /-- It is not the one with a class on its right. -/
  notInstanceof : lexeme.token.kind ≠ .instanceofKw

/-- A chain of operands that are joined by operators. -/
structure Chain where
  /-- The first operand. -/
  first : Chain.Operand
  /-- The operators with the operands behind them. -/
  more : List (Chain.Operator × Chain.Operand)

namespace Chain

/-- The tokens of operators and the operands behind them. -/
def moreLexemes (more : List (Operator × Operand)) : List Lexeme :=
  more.flatMap fun part => [part.1.lexeme, part.2.lexeme]

/-- The tokens of a chain. -/
def lexemes (chain : Chain) : List Lexeme := chain.first.lexeme :: moreLexemes chain.more

end Chain

open Chain

/-- A chain whose operators have got their operands. -/
inductive Grouping
  /-- A single operand. -/
  | operand (x : Operand)
  /-- An operator between two groupings. -/
  | joined (left : Grouping) (op : Operator) (right : Grouping)

namespace Grouping

/-- The chain from left to right. -/
def chain : Grouping → Chain
  | operand x => ⟨x, []⟩
  | joined left op right => ⟨left.chain.first, left.chain.more ++ (op, right.chain.first) :: right.chain.more⟩

/-- The last operand. -/
def last : Grouping → Operand
  | operand x => x
  | joined _ _ right => right.last

/-- The operators whose left end is the left end of the grouping. -/
def leftSpine : Grouping → List Operator
  | operand _ => []
  | joined left op _ => op :: left.leftSpine

/-- The operators whose right end is the right end of the grouping. -/
def rightSpine : Grouping → List Operator
  | operand _ => []
  | joined _ op right => op :: right.rightSpine

/-- The syntax tree: an operator is a node of the kind in the table, with the trivia around the token. -/
def tree : Grouping → Tree
  | operand x => .node .variableExpr [x.lexeme.token.leaf]
  | joined left op right =>
    .node op.power.kind ((left.tree :: (left.last.lexeme.after.map Token.leaf ++
      op.lexeme.token.leaf :: op.lexeme.after.map Token.leaf)) ++ [right.tree])

/-- `g.Ordered before behind`: at every operator the relation `before` holds with the operators on the right spine of
its left operand, and the relation `behind` with those on the left spine of its right operand. -/
inductive Ordered (before behind : Operator → Operator → Prop) : Grouping → Prop
  /-- A single operand. -/
  | operand (x : Operand) : Ordered before behind (operand x)
  /-- An operator between two groupings. -/
  | joined {left right : Grouping} {op : Operator} (onLeft : Ordered before behind left)
      (onRight : Ordered before behind right) (left_le : ∀ other ∈ left.rightSpine, before op other)
      (right_le : ∀ other ∈ right.leftSpine, behind op other) : Ordered before behind (joined left op right)

/-- The powers are respected: an operator on the right spine of a left operand binds its own right operand more
strongly, and one on the left spine of a right operand binds its own left operand at least as strongly. -/
def WellGrouped : Grouping → Prop :=
  Ordered (fun op other => op.power.left < other.power.right) (fun op other => op.power.right ≤ other.power.left)

/-! ## (2) Every chain can be grouped well -/

/-- Put one more operator with its right operand behind a grouping, as high as the powers allow. -/
def insert (op : Operator) (x : Operand) : Grouping → Grouping
  | operand y => joined (operand y) op (operand x)
  | joined left top right =>
    if ∀ other ∈ (joined left top right).rightSpine, op.power.left < other.power.right then
      joined (joined left top right) op (operand x)
    else joined left top (right.insert op x)

variable {op : Operator} {x : Operand}

/-- The operator and its operand come last. -/
theorem chain_insert (g : Grouping) : (g.insert op x).chain = ⟨g.chain.first, g.chain.more ++ [(op, x)]⟩ := by
  induction g with
  | operand y => rfl
  | joined left top right _ ih =>
      rw [insert]
      split
      · rfl
      · simp [chain, ih]

/-- The left spine changes only if the operator comes to stand on top. -/
theorem mem_leftSpine_insert {g : Grouping} {other : Operator} (mem : other ∈ (g.insert op x).leftSpine) :
    other ∈ g.leftSpine ∨ other = op ∧ ∀ above ∈ g.rightSpine, op.power.left < above.power.right := by
  cases g with
  | operand y => exact .inr ⟨List.mem_singleton.mp mem, List.forall_mem_nil _⟩
  | joined left top right =>
      rw [insert] at mem
      split at mem
      · rename_i weak
        exact (List.mem_cons.mp mem).symm.imp_right fun same => ⟨same, weak⟩
      · exact .inl mem

/-- A well-grouped chain stays so. -/
theorem WellGrouped.insert {g : Grouping} (well : g.WellGrouped) : (g.insert op x).WellGrouped := by
  induction g with
  | operand y => exact .joined (.operand y) (.operand x) (List.forall_mem_nil _) (List.forall_mem_nil _)
  | joined left top right _ ih =>
      rw [Grouping.insert]
      split
      · rename_i weak
        exact .joined well (.operand x) weak (List.forall_mem_nil _)
      · rename_i strong
        cases well with
        | joined onLeft onRight left_le right_le =>
            refine .joined onLeft (ih onRight) left_le fun other mem => ?_
            rcases mem_leftSpine_insert mem with old | ⟨rfl, below⟩
            · exact right_le other old
            · -- Nothing further to the right keeps the operator down, so the one on top does.
              exact Nat.le_of_not_lt fun weak => strong (List.forall_mem_cons.mpr ⟨weak, below⟩)

/-- **Every chain can be grouped well.** -/
theorem exists_wellGrouped (chain : Chain) : ∃ g : Grouping, g.chain = chain ∧ g.WellGrouped := by
  obtain ⟨first, more⟩ := chain
  induction more using List.reverseRecOn with
  | nil => exact ⟨.operand first, rfl, .operand first⟩
  | append_singleton more part ih =>
      obtain ⟨g, same, well⟩ := ih
      exact ⟨g.insert part.1 part.2, by rw [chain_insert, same], well.insert⟩

/-! ## (3) A grouping by its tree -/

/-- The operands of an operator by its tree. -/
theorem operands_of_tree {left right left' right' : Grouping} {op op' : Operator}
    (same : (joined left op right).tree = (joined left' op' right').tree) :
    left.tree = left'.tree ∧ right.tree = right'.tree := by
  have parts := (Tree.node.inj same).2
  obtain ⟨front, lastPart⟩ := List.append_inj' parts rfl
  exact ⟨(List.cons.inj front).1, (List.cons.inj lastPart).1⟩

/-- A single operand has no operator's tree. -/
theorem tree_operand_ne {left right : Grouping} {op : Operator} : (operand x).tree ≠ (joined left op right).tree := by
  intro same
  have lengths := congrArg List.length (Tree.node.inj same).2
  simp at lengths

/-- As many operators have the same tree. -/
theorem length_of_tree {g h : Grouping} (same : g.tree = h.tree) : g.chain.more.length = h.chain.more.length := by
  induction g generalizing h with
  | operand x =>
      cases h with
      | operand y => rfl
      | joined left op right => exact absurd same tree_operand_ne
  | joined left op right ihLeft ihRight =>
      cases h with
      | operand y => exact absurd same.symm tree_operand_ne
      | joined left' op' right' =>
          obtain ⟨sameLeft, sameRight⟩ := operands_of_tree same
          simp only [chain, List.length_append, List.length_cons, ihLeft sameLeft, ihRight sameRight]

/-- A grouping is known by its chain and its tree. -/
theorem eq_of_tree {g h : Grouping} (chains : g.chain = h.chain) (same : g.tree = h.tree) : g = h := by
  induction g generalizing h with
  | operand x =>
      cases h with
      | operand y => exact congrArg operand (congrArg Chain.first chains)
      | joined left op right => exact absurd same tree_operand_ne
  | joined left op right ihLeft ihRight =>
      cases h with
      | operand y => exact absurd same.symm tree_operand_ne
      | joined left' op' right' =>
          obtain ⟨sameLeft, sameRight⟩ := operands_of_tree same
          -- The left operands are equally long, so both chains are cut at the same operator.
          obtain ⟨first, more⟩ := Chain.mk.inj chains
          obtain ⟨moreLeft, rest⟩ := List.append_inj more (length_of_tree sameLeft)
          obtain ⟨part, moreRight⟩ := List.cons.inj rest
          obtain ⟨rfl, firstRight⟩ := Prod.mk.inj part
          have chainLeft : left.chain = left'.chain := congrArg₂ Chain.mk first moreLeft
          have chainRight : right.chain = right'.chain := congrArg₂ Chain.mk firstRight moreRight
          rw [ihLeft chainLeft sameLeft, ihRight chainRight sameRight]

end Grouping

/-! ## (4) Reading a chain -/

/-- The tokens that can continue an operand without an infix operator. -/
def Kind.accesses : List Kind := [.arrow, .nullsafeArrow, .colonColon, .lParen, .lBracket, .plusPlus, .minusMinus]

/-- The kind of the first of some tokens; of none, `Kind.error`. -/
def firstKind (lexemes : List Lexeme) : Kind := ((lexemes.head?).map (·.token.kind)).getD .error

/-- The next token is the first one ahead. -/
theorem Parsing.kindAt_zero (s : Parsing) : s.kindAt 0 = firstKind s.ahead := by
  rw [kindAt, firstKind]
  cases s.ahead <;> rfl

/-- The parse behind a tree that has been read up to the token `last`. -/
def Parsing.past (s : Parsing) (last : Lexeme) (rest : List Lexeme) (tree : Tree) : Parsing :=
  { s with gap := last.after, ahead := rest, built := tree :: behind s.gap s.built }

namespace Grammar

variable {s : Parsing} {depth : Nat} {rest : List Lexeme}

/-- Behind an operand nothing follows that is no operator. -/
theorem run_postfixStep {follow : Rule → Parsing → Bool × Parsing} (ends : s.kindAt 0 ∉ Kind.accesses) :
    postfixStep.run follow s = (false, s) := by
  rw [postfixStep, run]
  split
  all_goals first
    | rfl
    | rename_i found
      rw [found] at ends
      exact absurd (by decide) ends

/-- A variable is read as a node. -/
theorem run_variable (x : Chain.Operand) (ahead : s.ahead = x.lexeme :: rest) :
    (call .variable).run (Rule.follow (depth + 1)) s = (true, s.past x.lexeme rest (Grouping.operand x).tree) := by
  have kind : s.flush.fresh.kindAt 0 = .variable := by
    rw [Parsing.kindAt_zero]
    exact (congrArg firstKind ahead).trans x.isVariable
  have noDollar : (eat .dollar).run (Rule.follow depth) s.flush.fresh = (false, s.flush.fresh) :=
    run_eat_of_ne (by rw [kind]; decide)
  have taken : bump.run (Rule.follow depth) s.flush.fresh =
      (true, { s.flush.fresh with gap := x.lexeme.after, ahead := rest, built := [x.lexeme.token.leaf] }) := by
    simp [run, Parsing.take, Parsing.flush, Parsing.fresh, ahead, Token.leaf]
  exact run_node .variableExpr ((run_branch_false noDollar).trans taken)

/-- A variable is read as an operand. -/
theorem run_primary (x : Chain.Operand) (ahead : s.ahead = x.lexeme :: rest) :
    (call .primary).run (Rule.follow (depth + 2)) s = (true, s.past x.lexeme rest (Grouping.operand x).tree) := by
  have kind : s.kindAt 0 = .variable := by
    rw [Parsing.kindAt_zero, ahead]
    exact x.isVariable
  have more : atEnd.run (Rule.follow (depth + 1)) s = (false, s) := by
    rw [atEnd, run, Lookahead.holds, Parsing.atEnd, ahead]
    rfl
  have operand : (also (call .variable)).run (Rule.follow (depth + 1)) s =
      (true, s.past x.lexeme rest (Grouping.operand x).tree) := run_andThen (run_variable x ahead)
  exact (run_branch_false more).trans ((run_byKind kind).trans operand)

/-- A variable is read with what follows it. -/
theorem run_unary (x : Chain.Operand) (ahead : s.ahead = x.lexeme :: rest) (ends : firstKind rest ∉ Kind.accesses) :
    (call .unary).run (Rule.follow (depth + 4)) s = (true, s.past x.lexeme rest (Grouping.operand x).tree) := by
  have kind : s.kindAt 0 = .variable := by
    rw [Parsing.kindAt_zero, ahead]
    exact x.isVariable
  have noCast : castAhead.run (Rule.follow (depth + 3)) s = (false, s) := by
    have noParen : (next .lParen).run (Rule.follow (depth + 3)) s = (false, s) := by
      rw [next, nthIs, run, Lookahead.holds, kind]
      rfl
    exact run_branch_false noParen
  let found : Parsing := s.flush.fresh.past x.lexeme rest (Grouping.operand x).tree
  have operand : (call .primary).run (Rule.follow (depth + 2)) s.flush.fresh = (true, found) := run_primary x ahead
  have alone : postfixStep.run (Rule.follow (depth + 2)) found = (false, found) :=
    run_postfixStep (by rwa [Parsing.kindAt_zero])
  have postfixed := run_group ((run_branch_true (q := stop) operand).trans (run_loop (.last alone)))
  exact (run_branch_false noCast).trans ((run_byKind kind).trans postfixed)

/-- The right operand of an operator that joins two expressions. -/
theorem run_infixOperand {follow : Rule → Parsing → Bool × Parsing} (op : Chain.Operator) (right : Nat)
    (kind : s.kindAt 0 = .variable) :
    (infixOperand op.lexeme.token.kind right).run follow s = (call (.expression right)).run follow s := by
  unfold infixOperand
  split
  · rename_i question
    exact absurd question op.notQuestion
  · exact run_andThen (run_eat_of_ne (by rw [kind]; decide))
  · rename_i word
    exact absurd word op.notInstanceof
  · rfl

/-- An operator that binds strongly enough is read with its right operand. -/
theorem run_infixStep {follow : Rule → Parsing → Bool × Parsing} {power : Nat} {left right : Grouping}
    {op : Chain.Operator} (strong : power ≤ op.power.left)
    (operand : ∀ t : Parsing, t.ahead = right.chain.lexemes ++ rest →
      (call (.expression op.power.right)).run follow t = (true, t.past right.last.lexeme rest right.tree)) :
    (infixStep power).run follow
        (s.flush.fresh.past left.last.lexeme (op.lexeme :: (right.chain.lexemes ++ rest)) left.tree) =
      (true, s.flush.fresh.past right.last.lexeme rest (Grouping.joined left op right).tree) := by
  let found : Parsing := s.flush.fresh.past left.last.lexeme (op.lexeme :: (right.chain.lexemes ++ rest)) left.tree
  have taken : bump.run follow found = (true, found.take id) := rfl
  have kind : (found.take id).kindAt 0 = .variable := right.chain.first.isVariable
  have value := (run_andThen taken).trans ((run_infixOperand op op.power.right kind).trans (operand _ rfl))
  have step := run_andThen (q := ok) (run_wrap op.power.kind value)
  have parts : .node op.power.kind ((found.take id).past right.last.lexeme rest right.tree).built.reverse =
      (Grouping.joined left op right).tree := by
    simp [found, Parsing.past, Parsing.take, Parsing.flush, Parsing.fresh, behind, Grouping.tree, Token.leaf]
  rw [parts] at step
  refine (run_byKind (show found.kindAt 0 = op.lexeme.token.kind from rfl)).trans ?_
  simp only [op.found, if_neg (Nat.not_lt.mpr strong)]
  exact step

/-- An operator that does not bind strongly enough is left. -/
theorem run_infixStep_weak {follow : Rule → Parsing → Bool × Parsing} {power : Nat}
    (weak : ∀ p, infixPower? (s.kindAt 0) = some p → p.left < power) : (infixStep power).run follow s = (false, s) := by
  rw [infixStep, run]
  split
  · rfl
  · rename_i p found
    rw [if_pos (weak p found)]
    rfl

/-- Where the operators of a grouping are read one after the other, it is read as an expression. -/
theorem run_expression {power : Nat} {g : Grouping} (ahead : s.ahead = g.chain.lexemes ++ rest)
    (ends : firstKind (Chain.moreLexemes g.chain.more ++ rest) ∉ Kind.accesses)
    (weak : ∀ p, infixPower? (firstKind rest) = some p → p.left < power)
    (reads : ∀ u, Repeats ((infixStep power).run (Rule.follow (depth + 4)))
        (s.flush.fresh.past g.last.lexeme rest g.tree) u →
      Repeats ((infixStep power).run (Rule.follow (depth + 4))) (s.flush.fresh.past g.chain.first.lexeme
        (Chain.moreLexemes g.chain.more ++ rest) (Grouping.operand g.chain.first).tree) u) :
    (call (.expression power)).run (Rule.follow (depth + 5)) s = (true, s.past g.last.lexeme rest g.tree) := by
  let done : Parsing := s.flush.fresh.past g.last.lexeme rest g.tree
  have first := @run_unary s.flush.fresh depth _ g.chain.first ahead ends
  have stops : (infixStep power).run (Rule.follow (depth + 4)) done = (false, done) :=
    run_infixStep_weak (by rwa [Parsing.kindAt_zero])
  have chain := run_loop (reads done (.last stops))
  exact run_group ((run_branch_true (q := stop) first).trans chain)

/-- No operator continues an operand without an infix operator. -/
theorem not_mem_accesses (kind : Kind) (power : InfixPower) (found : infixPower? kind = some power) :
    kind ∉ Kind.accesses := by
  intro access
  have none : ∀ kind ∈ Kind.accesses, infixPower? kind = .none := by decide
  rw [none kind access] at found
  cases found

end Grammar

namespace Grouping

/-- Behind the first operand of a chain stands no access. -/
theorem firstKind_not_mem (g : Grouping) {rest : List Lexeme} (ends : firstKind rest ∉ Kind.accesses) :
    firstKind (moreLexemes g.chain.more ++ rest) ∉ Kind.accesses := by
  cases g.chain.more with
  | nil => exact ends
  | cons part parts => exact Grammar.not_mem_accesses _ part.1.power part.1.found

/-- **The operators of a well-grouped chain are read one after the other.** -/
theorem repeats_infixStep {g : Grouping} (well : g.WellGrouped) {power depth : Nat} {rest : List Lexeme} {s u : Parsing}
    (strong : ∀ op ∈ g.leftSpine, power ≤ op.power.left) (ends : firstKind rest ∉ Kind.accesses)
    (weak : ∀ p, infixPower? (firstKind rest) = some p → ∀ op ∈ g.rightSpine, p.left < op.power.right)
    (deep : g.chain.more.length ≤ depth)
    (reads : Repeats ((Grammar.infixStep power).run (Rule.follow (depth + 4)))
      (s.flush.fresh.past g.last.lexeme rest g.tree) u) :
    Repeats ((Grammar.infixStep power).run (Rule.follow (depth + 4))) (s.flush.fresh.past g.chain.first.lexeme
      (moreLexemes g.chain.more ++ rest) (operand g.chain.first).tree) u := by
  -- By induction on the grouping: all operators on its left spine are read by the same loop, from below upwards.
  induction g generalizing power depth rest s u with
  | operand x => exact reads
  | joined left op right ihLeft ihRight =>
      cases well with
      | joined onLeft onRight left_le right_le =>
          have size : left.chain.more.length + right.chain.more.length + 1 ≤ depth := by
            simpa [chain, Nat.add_assoc] using deep
          obtain ⟨depth, rfl⟩ : ∃ d, depth = d + 1 := ⟨depth - 1, by omega⟩
          have strong := List.forall_mem_cons.mp strong
          have weak (p : InfixPower) (found : infixPower? (firstKind rest) = some p) :=
            List.forall_mem_cons.mp (weak p found)
          -- The right operand is an expression of its own, read with the right power of the operator.
          have value (t : Parsing) (ahead : t.ahead = right.chain.lexemes ++ rest) :
              (call (.expression op.power.right)).run (Rule.follow (depth + 5)) t =
                (true, t.past right.last.lexeme rest right.tree) :=
            Grammar.run_expression ahead (right.firstKind_not_mem ends) (fun p found => (weak p found).1) fun v =>
              ihRight onRight right_le ends (fun p found => (weak p found).2) (by omega)
          -- The left operand ends in front of the operator, so its own operators are read first.
          let behindLeft : List Lexeme := op.lexeme :: (right.chain.lexemes ++ rest)
          have noAccess : firstKind behindLeft ∉ Kind.accesses := Grammar.not_mem_accesses _ op.power op.found
          have leftFirst (p : InfixPower) (found : infixPower? (firstKind behindLeft) = some p) (other : Operator)
              (mem : other ∈ left.rightSpine) : p.left < other.power.right := by
            have same : infixPower? (firstKind behindLeft) = some op.power := op.found
            rw [same] at found
            cases found
            exact left_le other mem
          have step := @Grammar.run_infixStep s rest _ power left right op strong.1 value
          have fewer : rest.length < behindLeft.length := by
            simp only [behindLeft, List.length_cons, List.length_append]
            omega
          have first := ihLeft onLeft strong.2 noAccess leftFirst (by omega) (.next step fewer reads)
          simpa [chain, moreLexemes, Chain.lexemes, behindLeft] using first

/-- A well-grouped chain is read as an expression. -/
theorem WellGrouped.run_expression {g : Grouping} (well : g.WellGrouped) {s : Parsing} {rest : List Lexeme}
    {depth : Nat} (ahead : s.ahead = g.chain.lexemes ++ rest) (ends : firstKind rest ∉ Kind.accesses)
    (last : infixPower? (firstKind rest) = none) (deep : g.chain.more.length + 5 ≤ depth) :
    Grammar.expression.run (Rule.follow depth) s = (true, s.past g.last.lexeme rest g.tree) := by
  obtain ⟨depth, rfl⟩ : ∃ d, depth = d + 5 := ⟨depth - 5, by omega⟩
  have none {P : InfixPower → Prop} (p : InfixPower) (found : infixPower? (firstKind rest) = some p) : P p := by
    rw [last] at found
    cases found
  exact Grammar.run_expression ahead (g.firstKind_not_mem ends) none fun u =>
    repeats_infixStep well (fun _ _ => Nat.zero_le _) ends none (by omega)

/-- A chain can be grouped well in one way only: reading it has one result. -/
theorem WellGrouped.unique {g h : Grouping} (well : g.WellGrouped) (well' : h.WellGrouped) (same : g.chain = h.chain) :
    g = h := by
  -- Both trees are what one parse of the chain builds.
  let start : Parsing := ⟨[], g.chain.lexemes, 0, [], []⟩
  let depth := g.chain.more.length + 5
  have once : Grammar.expression.run (Rule.follow depth) start = (true, start.past g.last.lexeme [] g.tree) :=
    well.run_expression (List.append_nil _).symm (by decide) rfl le_rfl
  have again : Grammar.expression.run (Rule.follow depth) start = (true, start.past h.last.lexeme [] h.tree) :=
    well'.run_expression (by rw [List.append_nil, ← same]) (by decide) rfl (by rw [← same])
  have results := once.symm.trans again
  have trees := congrArg (fun result => result.2.built) results
  exact eq_of_tree same (List.cons.inj trees).1

end Grouping

/-! ## (5) Levels of precedence -/

/-- The infix operators that join two expressions by precedence, the weakest first. -/
def precedence : List (List Kind) :=
  [[.orKw], [.xorKw], [.andKw], [.eq, .assignOp], [.questionQuestion], [.pipePipe], [.ampAmp], [.pipe], [.caret],
    [.amp], [.eqEq, .eqEqEq, .bangEq, .bangEqEq, .spaceship], [.lt, .gt, .ltEq, .gtEq], [.dot], [.shl, .shr],
    [.plus, .minus], [.star, .slash, .percent], [.starStar]]

/-- The operators that associate to the right. -/
def rightAssociative : List Kind := [.eq, .assignOp, .questionQuestion, .starStar]

namespace Chain.Operator

/-- The place in the order of precedence. -/
def level (op : Operator) : Nat := precedence.findIdx (·.contains op.lexeme.token.kind)

/-- Whether the operator associates to the right. -/
def toRight (op : Operator) : Prop := op.lexeme.token.kind ∈ rightAssociative

set_option maxRecDepth 4000 in
/-- Every operator has its place. -/
theorem mem_precedence (op : Operator) : op.lexeme.token.kind ∈ precedence.flatten := by
  have all : ∀ kind ∈ Kind.all, (infixPower? kind).isSome → kind ≠ .question → kind ≠ .instanceofKw →
      kind ∈ precedence.flatten := by decide
  exact all _ (Kind.mem_all _) (by rw [op.found]; rfl) op.notQuestion op.notInstanceof

/-- What stands between two operators goes to the one on the left if this has the higher level, or if both have the same
level and associate to the left. -/
theorem power_lt_iff (op other : Operator) :
    op.power.left < other.power.right ↔ op.level < other.level ∨ op.level = other.level ∧ ¬other.toRight := by
  have all : ∀ a ∈ precedence.flatten, ∀ b ∈ precedence.flatten, ∀ p ∈ infixPower? a, ∀ q ∈ infixPower? b,
      (p.left < q.right ↔ precedence.findIdx (·.contains a) < precedence.findIdx (·.contains b) ∨
        precedence.findIdx (·.contains a) = precedence.findIdx (·.contains b) ∧ b ∉ rightAssociative) := by
    decide
  exact all _ op.mem_precedence _ other.mem_precedence _ op.found _ other.found

end Chain.Operator

namespace Grouping

/-- Precedence is respected: an operator on the right spine of a left operand has a higher level, or the same one and
associates to the left; and an operator on the left spine of a right operand has a higher level, or the same one as an
operator that associates to the right. -/
def ByPrecedence : Grouping → Prop :=
  Ordered (fun op other => op.level < other.level ∨ op.level = other.level ∧ ¬other.toRight)
    (fun op other => op.level < other.level ∨ op.level = other.level ∧ op.toRight)

/-- **The powers are those of the levels of precedence.** -/
theorem wellGrouped_iff (g : Grouping) : g.WellGrouped ↔ g.ByPrecedence := by
  have left : (fun op other : Operator => op.power.left < other.power.right) =
      fun op other => op.level < other.level ∨ op.level = other.level ∧ ¬other.toRight := by
    funext op other
    exact propext (op.power_lt_iff other)
  have right : (fun op other : Operator => op.power.right ≤ other.power.left) =
      fun op other => op.level < other.level ∨ op.level = other.level ∧ op.toRight := by
    funext op other
    refine propext ?_
    rw [← Nat.not_lt, other.power_lt_iff op]
    by_cases toRight : op.toRight
    · simp only [toRight, not_true, and_false, or_false, and_true]
      omega
    · simp only [toRight, not_false_iff, and_true, and_false, or_false]
      omega
  rw [WellGrouped, ByPrecedence, left, right]

end Grouping

/-- **A chain is read as the tree that precedence prescribes.** Wherever an expression is read, all of a chain is taken
up to a token that continues no expression, no error is recorded, and what is built is the tree of the only grouping of
the chain that respects the powers of the operators. This grouping respects precedence: operators of a higher level bind
more strongly, and in a level all operators associate to the left, or all to the right, as assignments, `??` and `**`
do. A rule is open for each operator at most, and five for an operand, which is far below the bound for a file. -/
theorem chain_precedence (chain : Chain) {s : Parsing} {rest : List Lexeme} {depth : Nat}
    (ahead : s.ahead = chain.lexemes ++ rest) (noAccess : firstKind rest ∉ Kind.accesses)
    (noOperator : infixPower? (firstKind rest) = none) (deep : chain.more.length + 5 ≤ depth) :
    ∃ g : Grouping, g.chain = chain ∧ g.WellGrouped ∧ g.ByPrecedence ∧
      (∀ other : Grouping, other.chain = chain → other.WellGrouped → other = g) ∧
      Grammar.expression.run (Rule.follow depth) s = (true, s.past g.last.lexeme rest g.tree) := by
  obtain ⟨g, rfl, well⟩ := Grouping.exists_wellGrouped chain
  exact ⟨g, rfl, well, g.wellGrouped_iff.mp well, fun other same well' => well'.unique well same,
    well.run_expression ahead noAccess noOperator deep⟩

/-- The text `$a-$b ** $c` as a chain. -/
def powerChain : Chain where
  first := ⟨⟨⟨.variable, ['$', 'a'], 0⟩, []⟩, rfl⟩
  more := [
    (⟨⟨⟨.minus, ['-'], 2⟩, []⟩, ⟨32, 33, .binaryExpr⟩, rfl, by decide, by decide⟩,
      ⟨⟨⟨.variable, ['$', 'b'], 3⟩, [⟨.whitespace, [' '], 5⟩]⟩, rfl⟩),
    (⟨⟨⟨.starStar, ['*', '*'], 6⟩, [⟨.whitespace, [' '], 8⟩]⟩, ⟨40, 39, .binaryExpr⟩, rfl, by decide, by decide⟩,
      ⟨⟨⟨.variable, ['$', 'c'], 9⟩, []⟩, rfl⟩)]

/-- It is read up to the end of the text. -/
theorem chain_precedence_powerChain :
    ∃ g : Grouping, g.chain = powerChain ∧ g.WellGrouped ∧ g.ByPrecedence ∧
      (∀ other : Grouping, other.chain = powerChain → other.WellGrouped → other = g) ∧
      Grammar.expression.run (Rule.follow (ruleDepth 5)) ⟨[], powerChain.lexemes, 11, [], []⟩ =
        (true, Parsing.past ⟨[], powerChain.lexemes, 11, [], []⟩ g.last.lexeme [] g.tree) :=
  chain_precedence powerChain (List.append_nil _).symm (by decide) rfl (by decide)

end PhpMembers
