import Mathlib.Data.ENat.Basic
import Mathlib.Data.List.MinMax
import PhpMembers.Proofs.Syntax.Places
import PhpMembers.Syntax.Parse

/-! # Where the parts of class-likes stand

In the tree of every text, damaged or not, members stand in class bodies, class bodies in class-likes,
parameters in parameter lists, and no node has two class bodies or two parameter lists. Which nodes a
production can build can be read off its steps, so this is computed once for each rule of the grammar, and
one induction shows that what is computed holds of every parse.

* `Kind.room` : how many nodes of a kind can be parts of a node of another kind.
* `Production.most`, `Production.inPlace` : what can be read off a production.
* `Production.nodes_run_le`, `Production.inPlace_run` : what is read off holds of every parse.
* `Grammar.infixStep_induction` : what a round over infix operators can read.
* `Rule.fits_all`, `Parse.inRoom_ofTokens` : the grammar keeps to `Kind.room`.
* `Cursor.length_nodesOf_le` : the same for the places in a tree. -/

namespace PhpMembers

/-! ## (1) Counting parts -/

/-- Whether a tree is a node of a kind. -/
def Tree.isNode (kind : Kind) : Tree → Bool
  | leaf _ _ => false
  | node k _ => k == kind

/-- The number of nodes of a kind among some trees. -/
def nodeCount (kind : Kind) (trees : List Tree) : ℕ∞ := (trees.countP (Tree.isNode kind) : Nat)

@[simp] theorem nodeCount_nil (kind : Kind) : nodeCount kind [] = 0 := rfl

@[simp] theorem nodeCount_append (kind : Kind) (trees others : List Tree) :
    nodeCount kind (trees ++ others) = nodeCount kind trees + nodeCount kind others := by
  rw [nodeCount, List.countP_append, Nat.cast_add, nodeCount, nodeCount]

@[simp] theorem nodeCount_reverse (kind : Kind) (trees : List Tree) :
    nodeCount kind trees.reverse = nodeCount kind trees := by
  rw [nodeCount, List.countP_reverse, nodeCount]

@[simp] theorem nodeCount_leaf_cons (kind k : Kind) (text : Text) (trees : List Tree) :
    nodeCount kind (.leaf k text :: trees) = nodeCount kind trees := by
  rw [nodeCount, List.countP_cons_of_neg Bool.false_ne_true, nodeCount]

@[simp] theorem nodeCount_node_cons (kind k : Kind) (parts trees : List Tree) :
    nodeCount kind (.node k parts :: trees) = (if k = kind then 1 else 0) + nodeCount kind trees := by
  rw [nodeCount, List.countP_cons, Nat.cast_add, nodeCount, add_comm]
  simp [Tree.isNode]

/-- Tokens are not nodes. -/
@[simp] theorem nodeCount_leaves (kind : Kind) (tokens : List Token) :
    nodeCount kind (tokens.map Token.leaf) = 0 := by
  induction tokens with
  | nil => rfl
  | cons t tokens ih => rw [List.map_cons, Token.leaf, nodeCount_leaf_cons, ih]

namespace Parsing

/-- The number of nodes of a kind among the finished parts of the open construct. -/
def nodes (s : Parsing) (kind : Kind) : ℕ∞ := nodeCount kind s.built

@[simp] theorem nodes_flush (s : Parsing) (kind : Kind) : s.flush.nodes kind = s.nodes kind := by
  simp [nodes, flush]

@[simp] theorem nodes_fresh (s : Parsing) (kind : Kind) : s.fresh.nodes kind = 0 := rfl

@[simp] theorem nodes_report (s : Parsing) (fault : Fault) (kind : Kind) :
    (s.report fault).nodes kind = s.nodes kind := rfl

@[simp] theorem nodes_take (s : Parsing) (rename : Kind → Kind) (kind : Kind) :
    (s.take rename).nodes kind = s.nodes kind := by
  rw [← s.nodes_flush, take]
  split
  · rfl
  · simp [nodes]

end Parsing

/-! ## (2) What can be read off a production -/

namespace Production

variable {ρ : Type}

/-- The larger of two numbers, by their linear order: that of their complete lattice cannot be computed. -/
local instance : Max ℕ∞ := instLinearOrderENat.toMax

/-- How many nodes of a kind a production adds at most to the open construct, if this is known of the rules
that it follows. -/
def most (leaves : ρ → Kind → ℕ∞) (kind : Kind) : Production ρ → ℕ∞
  | answer _ | look _ | bump | bumpAs _ | fault _ => 0
  | andThen first second => first.most leaves kind + second.most leaves kind
  | branch condition yes no =>
    condition.most leaves kind + max (yes.most leaves kind) (no.most leaves kind)
  | byKind cases => (Kind.all.map fun k => (cases k).most leaves kind).foldr max ⊥
  | node k _ | wrap k _ => if k = kind then 1 else 0
  | group body | advances body => body.most leaves kind
  | loop body => if body.most leaves kind = 0 then 0 else ⊤
  | call rule => leaves rule kind

/-- Whether each node that a production builds has only as many parts of the given kinds as there is room
for, when the open construct has at most `present` of them so far. -/
def inPlace (room : Kind → Kind → ℕ∞) (kinds : List Kind) (leaves : ρ → Kind → ℕ∞) :
    (Kind → ℕ∞) → Production ρ → Bool
  | _, answer _ | _, look _ | _, bump | _, bumpAs _ | _, fault _ | _, call _ => true
  | present, andThen first second =>
    first.inPlace room kinds leaves present
      && second.inPlace room kinds leaves fun k => present k + first.most leaves k
  | present, branch condition yes no =>
    condition.inPlace room kinds leaves present
      && (yes.inPlace room kinds leaves fun k => present k + condition.most leaves k)
      && no.inPlace room kinds leaves fun k => present k + condition.most leaves k
  | present, byKind cases => Kind.all.all fun k => (cases k).inPlace room kinds leaves present
  | _, node kind body =>
    body.inPlace room kinds leaves (fun _ => 0) && kinds.all fun k => body.most leaves k ≤ room kind k
  | _, group body => body.inPlace room kinds leaves fun _ => 0
  | present, wrap kind body =>
    body.inPlace room kinds leaves present
      && kinds.all fun k => present k + body.most leaves k ≤ room kind k
  | present, loop body =>
    body.inPlace room kinds leaves fun k => if body.most leaves k = 0 then present k else ⊤
  | present, advances body => body.inPlace room kinds leaves present

end Production

/-! ## (3) What is read off holds of every parse -/

/-- Every kind is listed. -/
theorem Kind.mem_all (kind : Kind) : kind ∈ Kind.all := by
  have listed : Kind.all[kind.number]? = some kind := by cases kind <;> rfl
  exact List.mem_of_getElem? listed

/-- A tree all of whose nodes satisfy a condition on their kind and parts. -/
inductive Tree.Everywhere (P : Kind → List Tree → Prop) : Tree → Prop
  /-- A leaf has no nodes. -/
  | leaf {kind : Kind} {text : Text} : Everywhere P (leaf kind text)
  /-- The condition holds of the node and below it. -/
  | node {kind : Kind} {parts : List Tree} (here : P kind parts)
      (below : ∀ part ∈ parts, Everywhere P part) : Everywhere P (node kind parts)

/-- A condition on all nodes holds below the parts of the tree. -/
theorem Tree.Everywhere.part {P : Kind → List Tree → Prop} {tree part : Tree}
    (all : tree.Everywhere P) (mem : part ∈ tree.children) : part.Everywhere P := by
  cases all with
  | leaf => cases mem
  | node here below => exact below part mem

/-- A condition on all nodes holds of the tree itself, if it is one. -/
theorem Tree.Everywhere.here {P : Kind → List Tree → Prop} {tree : Tree} (all : tree.Everywhere P)
    (node : tree.isLeaf = false) : P tree.kind tree.children := by
  cases all with
  | leaf => cases node
  | node here below => exact here

/-- `InRoom room kinds kind parts`: there is room for the parts of the given kinds in a node of kind
`kind`. -/
def InRoom (room : Kind → Kind → ℕ∞) (kinds : List Kind) (kind : Kind) (parts : List Tree) : Prop :=
  ∀ k ∈ kinds, nodeCount k parts ≤ room kind k

namespace Parsing

/-- All finished parts satisfy a condition everywhere. -/
def BuiltWith (P : Kind → List Tree → Prop) (s : Parsing) : Prop :=
  ∀ tree ∈ s.built, tree.Everywhere P

namespace BuiltWith

variable {P : Kind → List Tree → Prop} {s t : Parsing}

theorem fresh : s.fresh.BuiltWith P := fun _ mem => absurd mem List.not_mem_nil

/-- Trivia are leaves. -/
theorem flush (built : s.BuiltWith P) : s.flush.BuiltWith P := by
  intro tree mem
  rcases List.mem_append.mp mem with trivia | before
  · obtain ⟨t, -, rfl⟩ := List.mem_map.mp (List.mem_reverse.mp trivia)
    exact .leaf
  · exact built tree before

/-- Tokens are leaves. -/
theorem take (built : s.BuiltWith P) (rename : Kind → Kind) : (s.take rename).BuiltWith P := by
  rw [Parsing.take]
  split
  · exact built.flush
  · intro tree mem
    rcases List.mem_cons.mp mem with rfl | mem
    · exact .leaf
    · exact built.flush tree mem

/-- A node is built from what was read inside it. -/
theorem node {kind : Kind} (outer : s.BuiltWith P) (inner : t.BuiltWith P)
    (here : P kind t.built.reverse) :
    { t with built := .node kind t.built.reverse :: s.built : Parsing }.BuiltWith P := by
  intro tree mem
  rcases List.mem_cons.mp mem with rfl | mem
  · exact .node here fun part inside => inner part (List.mem_reverse.mp inside)
  · exact outer tree mem

/-- Parts that were read as a group stay as they are. -/
theorem group (outer : s.BuiltWith P) (inner : t.BuiltWith P) :
    { t with built := t.built ++ s.built : Parsing }.BuiltWith P := by
  intro tree mem
  rcases List.mem_append.mp mem with mem | mem
  · exact inner tree mem
  · exact outer tree mem

/-- A node is built from everything in the open construct. -/
theorem wrap {kind : Kind} (inner : t.BuiltWith P) (here : P kind t.built.reverse) :
    { t with built := [.node kind t.built.reverse] : Parsing }.BuiltWith P := by
  intro tree mem
  obtain rfl := List.mem_singleton.mp mem
  exact .node here fun part inside => inner part (List.mem_reverse.mp inside)

end BuiltWith

end Parsing

namespace Production

variable {ρ : Type} {leaves : ρ → Kind → ℕ∞} {follow : ρ → Parsing → Bool × Parsing}

/-- What each round keeps is kept by all rounds. -/
theorem iterate_induction {P : Parsing → Prop} {step : Parsing → Bool × Parsing}
    (round : ∀ s, P s → P (step s).2) (n : Nat) {s : Parsing} (start : P s) : P (iterate step n s) := by
  induction n generalizing s with
  | zero => exact start
  | succ n ih =>
      have next := round s start
      rw [iterate]
      rcases found : step s with ⟨_ | _, t⟩
      · rw [found] at next
        exact next
      · rw [found] at next
        exact ih next

/-- A branch goes on from where its condition ends. -/
theorem branch_cases {P : Bool × Parsing → Prop} {condition yes no : Production ρ} {s : Parsing}
    (onTrue : (condition.run follow s).1 = true → P (yes.run follow (condition.run follow s).2))
    (onFalse : (condition.run follow s).1 = false → P (no.run follow (condition.run follow s).2)) :
    P ((branch condition yes no).run follow s) := by
  rw [run]
  rcases found : run follow condition s with ⟨_ | _, t⟩
  · rw [found] at onFalse
    exact onFalse rfl
  · rw [found] at onTrue
    exact onTrue rfl

/-- The most that a choice by kind adds is at least what the case of a kind adds. -/
theorem most_case_le (cases : Kind → Production ρ) (kind k : Kind) :
    (cases k).most leaves kind ≤ (byKind cases).most leaves kind :=
  List.le_max_of_le (List.mem_map_of_mem (Kind.mem_all k)) le_rfl

/-- **A production adds at most as many nodes as can be read off it.** -/
theorem nodes_run_le {kind : Kind}
    (rules : ∀ rule s, (follow rule s).2.nodes kind ≤ s.nodes kind + leaves rule kind)
    (p : Production ρ) (s : Parsing) :
    (p.run follow s).2.nodes kind ≤ s.nodes kind + p.most leaves kind := by
  induction p generalizing s with
  | answer ok => exact le_self_add
  | look condition => exact le_self_add
  | bump => exact (s.nodes_take id kind).le.trans le_self_add
  | bumpAs k => exact (s.nodes_take (fun _ => k) kind).le.trans le_self_add
  | fault cause => exact le_self_add
  | andThen first second ih₁ ih₂ =>
      rw [most, ← add_assoc]
      exact (ih₂ _).trans (add_le_add_left (ih₁ s) _)
  | branch condition yes no ih ihYes ihNo =>
      have before := ih s
      rw [most, ← add_assoc]
      refine branch_cases (P := fun result => result.2.nodes kind ≤ _) (fun _ => ?_) (fun _ => ?_)
      · exact (ihYes _).trans (add_le_add before (le_max_left _ _))
      · exact (ihNo _).trans (add_le_add before (le_max_right _ _))
  | byKind cases ih =>
      exact (ih (s.kindAt 0) s).trans (add_le_add_right (most_case_le cases kind (s.kindAt 0)) _)
  | node k body ih =>
      rw [run, Parsing.nodes, nodeCount_node_cons, most, add_comm, ← s.nodes_flush]
      rfl
  | group body ih =>
      have inside := ih s.flush.fresh
      rw [Parsing.nodes_fresh, zero_add] at inside
      rw [run, Parsing.nodes, nodeCount_append, most, add_comm, ← s.nodes_flush]
      exact add_le_add_right inside _
  | wrap k body ih =>
      rw [run, Parsing.nodes, nodeCount_node_cons, nodeCount_nil, add_zero, most]
      exact le_add_self
  | loop body ih =>
      rw [run, most]
      -- A round that adds no node can be repeated; for any other one nothing is claimed.
      split
      · rename_i none
        rw [add_zero]
        refine iterate_induction (P := fun t => t.nodes kind ≤ s.nodes kind) (fun t le => ?_) _ le_rfl
        have round := ih t
        rw [none, add_zero] at round
        exact round.trans le
      · rw [add_top]
        exact le_top
  | advances body ih => exact ih s
  | call rule => exact rules rule s

/-- **What is in place when it is read off a production is in place after every parse**: there is room for
the parts of each node that is built. -/
theorem inPlace_run {room : Kind → Kind → ℕ∞} {kinds : List Kind}
    (rules : ∀ kind ∈ kinds, ∀ rule s, (follow rule s).2.nodes kind ≤ s.nodes kind + leaves rule kind)
    (follows : ∀ rule s, s.BuiltWith (InRoom room kinds) →
      (follow rule s).2.BuiltWith (InRoom room kinds))
    (p : Production ρ) {present : Kind → ℕ∞} (inPlace : p.inPlace room kinds leaves present = true)
    {s : Parsing} (known : ∀ kind ∈ kinds, s.nodes kind ≤ present kind)
    (built : s.BuiltWith (InRoom room kinds)) :
    (p.run follow s).2.BuiltWith (InRoom room kinds) := by
  -- What is present grows along the production, so it is generalized.
  induction p generalizing present s with
  | answer ok => exact built
  | look condition => exact built
  | bump => exact built.take id
  | bumpAs k => exact built.take _
  | fault cause => exact built
  | andThen first second ih₁ ih₂ =>
      obtain ⟨place₁, place₂⟩ := Bool.and_eq_true_iff.mp inPlace
      refine ih₂ place₂ (fun kind mem => ?_) (ih₁ place₁ known built)
      exact (nodes_run_le (rules kind mem) first s).trans (add_le_add_left (known kind mem) _)
  | branch condition yes no ih ihYes ihNo =>
      obtain ⟨places, placeNo⟩ := Bool.and_eq_true_iff.mp inPlace
      obtain ⟨place, placeYes⟩ := Bool.and_eq_true_iff.mp places
      have built' := ih place known built
      have known' : ∀ kind ∈ kinds,
          (run follow condition s).2.nodes kind ≤ present kind + condition.most leaves kind :=
        fun kind mem =>
          (nodes_run_le (rules kind mem) condition s).trans (add_le_add_left (known kind mem) _)
      exact branch_cases (P := fun result => result.2.BuiltWith _) (fun _ => ihYes placeYes known' built')
        (fun _ => ihNo placeNo known' built')
  | byKind cases ih =>
      exact ih (s.kindAt 0) (List.all_eq_true.mp inPlace _ (Kind.mem_all _)) known built
  | node kind body ih =>
      obtain ⟨place, fits⟩ := Bool.and_eq_true_iff.mp inPlace
      have inside := ih place (s := s.flush.fresh) (fun _ _ => le_rfl) .fresh
      refine built.flush.node inside fun k mem => ?_
      have count := nodes_run_le (rules k mem) body s.flush.fresh
      rw [Parsing.nodes_fresh, zero_add] at count
      rw [nodeCount_reverse]
      exact count.trans (of_decide_eq_true (List.all_eq_true.mp fits k mem))
  | group body ih =>
      exact built.flush.group (ih inPlace (s := s.flush.fresh) (fun _ _ => le_rfl) .fresh)
  | wrap kind body ih =>
      obtain ⟨place, fits⟩ := Bool.and_eq_true_iff.mp inPlace
      refine (ih place known built).wrap fun k mem => ?_
      rw [nodeCount_reverse]
      calc nodeCount k (run follow body s).2.built
          ≤ s.nodes k + body.most leaves k := nodes_run_le (rules k mem) body s
        _ ≤ present k + body.most leaves k := add_le_add_left (known k mem) _
        _ ≤ room kind k := of_decide_eq_true (List.all_eq_true.mp fits k mem)
  | loop body ih =>
      -- No round changes the number of the nodes that no round adds.
      let bound (k : Kind) : ℕ∞ := if body.most leaves k = 0 then present k else ⊤
      refine (iterate_induction (P := fun t => (∀ kind ∈ kinds, t.nodes kind ≤ bound kind) ∧
        t.BuiltWith (InRoom room kinds)) (fun t kept => ?_) _ ⟨fun kind mem => ?_, built⟩).2
      · obtain ⟨within, built⟩ := kept
        refine ⟨fun kind mem => ?_, ih inPlace within built⟩
        by_cases none : body.most leaves kind = 0
        · have round := nodes_run_le (rules kind mem) body t
          rw [none, add_zero] at round
          exact round.trans (within kind mem)
        · exact le_top.trans (if_neg none).ge
      · by_cases none : body.most leaves kind = 0
        · exact (known kind mem).trans (if_pos none).ge
        · exact le_top.trans (if_neg none).ge
  | advances body ih => exact ih inPlace known built
  | call rule => exact follows rule s built

end Production

/-! ## (4) The grammar -/

/-- How many nodes of a kind can be parts of a node of another kind. -/
def Kind.room (outer : Kind) : Kind → ℕ∞
  | .methodDecl | .propertyDecl | .classConstDecl | .enumCase => if outer = .classBody then ⊤ else 0
  | .classBody => if outer.isClassLike || outer == .anonClass then 1 else 0
  | .propertyElement => if outer = .propertyDecl then ⊤ else 0
  | .paramList => 1
  | .param => if outer = .paramList then ⊤ else 0
  | _ => ⊤

/-- The kinds whose places are looked at. -/
def Kind.placed : List Kind :=
  [.methodDecl, .propertyDecl, .classConstDecl, .enumCase, .classBody, .propertyElement, .paramList,
    .param, .error]

/-- How many nodes of these kinds a rule adds at most to the open construct. -/
def Rule.leaves : Rule → Kind → ℕ∞
  | .expression _ | .unary | .postfixed | .primary => fun kind => if kind = .error then ⊤ else 0
  | .classMember => fun kind =>
    if [Kind.methodDecl, .propertyDecl, .classConstDecl, .enumCase, .error].contains kind then ⊤ else 0
  | .classBody => fun kind => if kind = .classBody then 1 else 0
  | .paramList => fun kind => if kind = .paramList then 1 else 0
  | .param => fun kind => if kind = .param then 1 else 0
  | _ => fun _ => 0

/-- Whether a production keeps to the room that there is, and adds no more than it may. -/
def Grammar.fits (p : Grammar) (may : Kind → ℕ∞) : Bool :=
  p.inPlace Kind.room Kind.placed Rule.leaves (fun _ => ⊤)
    && Kind.placed.all fun k => p.most Rule.leaves k ≤ may k

namespace Grammar

open Production

/-- **A round over infix operators** stops or reads an operator with its right operand, whatever the power is. So what
holds of stopping and of each operator holds of every case of the round. -/
theorem infixStep_induction (power : Nat) (P : Kind → Grammar → Prop) (stops : ∀ operator, P operator stop)
    (reads : ∀ operator ∈ Kind.all, ∀ p ∈ infixPower? operator,
      P operator (also (wrap p.kind (andThen bump (infixOperand operator p.right))))) :
    ∃ cases : Kind → Grammar, infixStep power = byKind cases ∧ ∀ operator ∈ Kind.all, P operator (cases operator) := by
  refine ⟨_, rfl, fun operator listed => ?_⟩
  split
  · exact stops operator
  · rename_i p found
    split
    · exact stops operator
    · exact reads operator listed p found

set_option maxRecDepth 4000 in
/-- There is room for both operands of an infix operator. -/
theorem room_operands : ∀ operator ∈ Kind.all, ∀ p ∈ infixPower? operator, ∀ k ∈ Kind.placed,
    p.kind ≠ k ∧ Rule.leaves .unary k + Rule.leaves .unary k ≤ p.kind.room k := by
  decide

set_option maxRecDepth 4000 in
/-- The right operand of an infix operator adds no more than any operand. -/
theorem most_infixOperand {operator : Kind} (listed : operator ∈ Kind.all) (right : Nat) {k : Kind}
    (placed : k ∈ Kind.placed) :
    (infixOperand operator right).most Rule.leaves k ≤ Rule.leaves .unary k := by
  have least : ∀ operator ∈ Kind.all, ∀ k ∈ Kind.placed,
      (infixOperand operator 0).most Rule.leaves k ≤ Rule.leaves .unary k := by decide
  -- Expressions of different powers add the same.
  have same : (infixOperand operator right).most Rule.leaves k =
      (infixOperand operator 0).most Rule.leaves k := by
    unfold infixOperand
    split <;> rfl
  rw [same]
  exact least operator listed k placed

set_option maxRecDepth 4000 in
/-- Every node in the right operand of an infix operator is in place. -/
theorem inPlace_infixOperand (operator : Kind) (right : Nat) (present : Kind → ℕ∞) :
    (infixOperand operator right).inPlace Kind.room Kind.placed Rule.leaves present = true := by
  unfold infixOperand
  split
  · rfl
  · rfl
  · -- What stands in front of a node is not inside it.
    have inside : nameRef.inPlace Kind.room Kind.placed Rule.leaves (fun _ => 0) = true := by
      decide
    have name (present : Kind → ℕ∞) :
        nameRef.inPlace Kind.room Kind.placed Rule.leaves present = true := inside
    rw [inPlace, name]
    rfl
  · rfl

/-- An infix operator adds no node of the given kinds. -/
theorem most_infixStep (power : Nat) {k : Kind} (placed : k ∈ Kind.placed) :
    (infixStep power).most Rule.leaves k = 0 := by
  obtain ⟨cases, same, each⟩ := infixStep_induction power (fun _ p => p.most Rule.leaves k ≤ 0) (fun _ => le_rfl)
    fun operator listed p found => by
      have ne := (room_operands operator listed p found k placed).1
      simp [also, ok, most, ne]
  rw [same]
  refine le_antisymm (List.max_le_of_forall_le _ _ fun n mem => ?_) bot_le
  obtain ⟨operator, listed, rfl⟩ := List.mem_map.mp mem
  exact each operator listed

/-- Every node that an infix operator builds is in place. -/
theorem inPlace_infixStep (power : Nat) {present : Kind → ℕ∞}
    (le : ∀ k ∈ Kind.placed, present k ≤ Rule.leaves .unary k) :
    (infixStep power).inPlace Kind.room Kind.placed Rule.leaves present = true := by
  obtain ⟨cases, same, each⟩ := infixStep_induction power
    (fun _ p => p.inPlace Kind.room Kind.placed Rule.leaves present = true) (fun _ => rfl)
    fun operator listed p found => by
      have fits : Kind.placed.all fun k =>
          present k + (andThen bump (infixOperand operator p.right)).most Rule.leaves k ≤ p.kind.room k := by
        refine List.all_eq_true.mpr fun k placed => decide_eq_true ?_
        have operand := most_infixOperand listed p.right placed
        rw [most, most, zero_add]
        exact (add_le_add (le k placed) operand).trans
          (room_operands operator listed p found k placed).2
      simp [also, ok, inPlace, inPlace_infixOperand, fits]
  rw [same]
  exact List.all_eq_true.mpr each

/-- An expression keeps to the room that there is. -/
theorem fits_operatorChain (power : Nat) : (operatorChain power).fits (Rule.leaves .unary) = true := by
  have none : ∀ k ∈ Kind.placed, (infixStep power).most Rule.leaves k = 0 :=
    fun k placed => most_infixStep power placed
  have steps : (infixStep power).inPlace Kind.room Kind.placed Rule.leaves
      (fun k => if (infixStep power).most Rule.leaves k = 0 then 0 + Rule.leaves .unary k else ⊤) =
        true := by
    refine inPlace_infixStep power fun k placed => ?_
    rw [if_pos (none k placed), zero_add]
  have adds : Kind.placed.all fun k => (operatorChain power).most Rule.leaves k ≤ Rule.leaves .unary k := by
    refine List.all_eq_true.mpr fun k placed => decide_eq_true ?_
    simp [operatorChain, most, stop, none k placed]
  rw [fits, adds, Bool.and_true]
  exact (Bool.and_true _).trans ((Bool.true_and _).trans steps)

end Grammar

/-- **Every rule keeps to the room that there is.** -/
theorem Rule.fits_all (rule : Rule) : rule.production.fits rule.leaves = true := by
  cases rule with
  | expression power => exact Grammar.fits_operatorChain power
  | _ => decide +kernel

/-- What a rule adds. -/
theorem Rule.nodes_follow_le (depth : Nat) (rule : Rule) (s : Parsing) {k : Kind}
    (placed : k ∈ Kind.placed) :
    (Rule.follow depth rule s).2.nodes k ≤ s.nodes k + rule.leaves k := by
  induction depth generalizing rule s with
  | zero => exact le_self_add
  | succ depth ih =>
      obtain ⟨-, adds⟩ := Bool.and_eq_true_iff.mp rule.fits_all
      calc (Rule.follow (depth + 1) rule s).2.nodes k
          ≤ s.nodes k + rule.production.most Rule.leaves k :=
            Production.nodes_run_le (fun rule s => ih rule s) rule.production s
        _ ≤ s.nodes k + rule.leaves k :=
            add_le_add_right (of_decide_eq_true (List.all_eq_true.mp adds k placed)) _

/-- There is room for the parts of each node that a rule builds. -/
theorem Rule.follow_inRoom (depth : Nat) (rule : Rule) (s : Parsing)
    (built : s.BuiltWith (InRoom Kind.room Kind.placed)) :
    (Rule.follow depth rule s).2.BuiltWith (InRoom Kind.room Kind.placed) := by
  induction depth generalizing rule s with
  | zero => exact built
  | succ depth ih =>
      obtain ⟨inPlace, -⟩ := Bool.and_eq_true_iff.mp rule.fits_all
      exact Production.inPlace_run (fun k placed rule s => Rule.nodes_follow_le depth rule s placed)
        ih rule.production inPlace (fun _ _ => le_top) built

set_option maxRecDepth 4000 in
/-- **In the tree of a file there is room for all parts**, whatever the damage. -/
theorem Parse.inRoom_ofTokens (tokens : List Token) :
    (Parse.ofTokens tokens).tree.Everywhere (InRoom Kind.room Kind.placed) := by
  let start := Parsing.ofTokens tokens
  let depth := ruleDepth start.ahead.length
  have fits : Grammar.sourceFile.fits (Kind.room .sourceFile) = true := by decide
  obtain ⟨inPlace, adds⟩ := Bool.and_eq_true_iff.mp fits
  have rules (k : Kind) (placed : k ∈ Kind.placed) (rule : Rule) (s : Parsing) :
      (Rule.follow depth rule s).2.nodes k ≤ s.nodes k + rule.leaves k :=
    rule.nodes_follow_le depth s placed
  have built : (Grammar.sourceFile.run (Rule.follow depth) start).2.BuiltWith
      (InRoom Kind.room Kind.placed) :=
    Production.inPlace_run rules (Rule.follow_inRoom depth) Grammar.sourceFile inPlace
      (fun _ _ => le_top) fun _ mem => absurd mem List.not_mem_nil
  refine .node (fun k placed => ?_) fun part mem => built.flush part (List.mem_reverse.mp mem)
  have count := Production.nodes_run_le (rules k placed) Grammar.sourceFile start
  have nothing : start.nodes k = 0 := nodeCount_nil k
  rw [nothing, zero_add] at count
  rw [nodeCount_reverse, ← Parsing.nodes, Parsing.nodes_flush]
  exact count.trans (of_decide_eq_true (List.all_eq_true.mp adds k placed))

/-! ## (5) Places -/

namespace Cursor

/-- A condition on all nodes of a tree holds below each of its places. -/
theorem everywhere_of_mem_elements {P : Kind → List Tree → Prop} {c d : Cursor}
    (all : c.tree.Everywhere P) (mem : d ∈ c.elements) : d.tree.Everywhere P := by
  induction c using inductionOn with
  | step c ih =>
      rcases mem_elements_iff.mp mem with rfl | ⟨part, inChildren, inElements⟩
      · exact all
      · exact ih part inChildren (all.part (tree_mem_of_mem_childrenFrom inChildren)) inElements

/-- The nodes of a kind among consecutive parts are as many as in their trees. -/
theorem countP_childrenFrom (parent : Cursor) (left trees : List Tree) (start : Nat) (kind : Kind) :
    (childrenFrom parent left start trees).countP (fun d => d.kind == kind && !d.isLeaf) =
      trees.countP (Tree.isNode kind) := by
  induction trees generalizing left start with
  | nil => rfl
  | cons tree right ih =>
      rw [childrenFrom, List.countP_cons, List.countP_cons, ih]
      cases tree with
      | leaf k text => simp [Tree.isNode, isLeaf, Cursor.tree, Tree.isLeaf]
      | node k parts => simp [Tree.isNode, isLeaf, Cursor.tree, Tree.isLeaf, Cursor.kind, Tree.kind]

/-- The nodes of a kind among the parts are as many as in the tree. -/
theorem length_nodesOf (c : Cursor) (kind : Kind) :
    ((c.nodesOf kind).length : ℕ∞) = nodeCount kind c.tree.children := by
  rw [nodesOf, nodes, List.filter_filter, ← List.countP_eq_length_filter, children,
    countP_childrenFrom, nodeCount]

/-- **A place has only as many parts of a kind as there is room for.** -/
theorem length_nodesOf_le {room : Kind → Kind → ℕ∞} {kinds : List Kind} {c d : Cursor}
    (all : c.tree.Everywhere (InRoom room kinds)) (mem : d ∈ c.elements) {kind : Kind}
    (listed : kind ∈ kinds) : ((d.nodesOf kind).length : ℕ∞) ≤ room d.kind kind := by
  have everywhere := everywhere_of_mem_elements all mem
  rw [length_nodesOf, Cursor.kind]
  generalize d.tree = tree at everywhere
  cases everywhere with
  | leaf => exact zero_le
  | node here => exact here kind listed

end Cursor

end PhpMembers
