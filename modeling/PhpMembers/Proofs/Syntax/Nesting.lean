import PhpMembers.Proofs.Syntax.Leaves
import PhpMembers.Proofs.Syntax.Placement

/-! # Braces in pairs

When the braces among some tokens stand in pairs, and what this means for the nodes of a tree.

* `nestAll`, `Balanced` : the braces that are open after some tokens.
* `ownKinds`, `Paired` : the tokens of a node itself, and that the braces among them are in pairs.
* `Tree.Everywhere.balanced` : if this holds of every node, the braces below each node are in pairs. -/

namespace PhpMembers

/-! ## (1) Open braces -/

/-- Whether a kind is that of a brace. -/
def Kind.isBrace (kind : Kind) : Bool := kind == .lBrace || kind == .rBrace

/-- The number of open braces after one more token; none if it closes a brace and none is open. -/
def Kind.nest (n : Nat) (kind : Kind) : Option Nat :=
  if kind = .lBrace then some (n + 1)
  else if kind = .rBrace then (if n = 0 then none else some (n - 1))
  else some n

/-- The number of open braces after some more tokens. -/
def nestAll (n : Nat) (kinds : List Kind) : Option Nat := kinds.foldlM Kind.nest n

/-- Each opening brace is closed, and each closing brace closes one. -/
def Balanced (kinds : List Kind) : Prop := nestAll 0 kinds = some 0

instance (kinds : List Kind) : Decidable (Balanced kinds) :=
  inferInstanceAs (Decidable (nestAll 0 kinds = some 0))

/-- No token is a brace. -/
def Braceless (kinds : List Kind) : Prop := ∀ kind ∈ kinds, kind.isBrace = false

/-- Other tokens open and close nothing. -/
theorem Kind.nest_of_not_isBrace {kind : Kind} (other : kind.isBrace = false) (n : Nat) :
    kind.nest n = some n := by
  obtain ⟨notOpening, notClosing⟩ := Bool.or_eq_false_iff.mp other
  rw [nest, if_neg (beq_eq_false_iff_ne.mp notOpening), if_neg (beq_eq_false_iff_ne.mp notClosing)]

/-- Braces that are open around do not matter. -/
theorem Kind.nest_add {kind : Kind} {n m : Nat} (nest : kind.nest n = some m) (around : Nat) :
    kind.nest (n + around) = some (m + around) := by
  by_cases opening : kind = .lBrace
  · subst opening
    cases nest
    exact congrArg some (Nat.add_right_comm n around 1)
  · by_cases closing : kind = .rBrace
    · subst closing
      cases n with
      | zero => cases nest
      | succ n =>
          cases nest
          rw [Nat.add_right_comm]
          rfl
    · rw [Kind.nest, if_neg opening, if_neg closing] at nest ⊢
      cases nest
      rfl

@[simp] theorem nestAll_nil (n : Nat) : nestAll n [] = some n := rfl

@[simp] theorem nestAll_cons (n : Nat) (kind : Kind) (kinds : List Kind) :
    nestAll n (kind :: kinds) = (kind.nest n).bind fun m => nestAll m kinds := by
  rw [nestAll, List.foldlM_cons]
  rfl

theorem nestAll_append (n : Nat) (kinds others : List Kind) :
    nestAll n (kinds ++ others) = (nestAll n kinds).bind fun m => nestAll m others := by
  rw [nestAll, List.foldlM_append]
  rfl

/-- Tokens that are no braces open and close nothing. -/
theorem Braceless.nestAll {kinds : List Kind} (plain : Braceless kinds) (n : Nat) :
    nestAll n kinds = some n := by
  induction kinds with
  | nil => rfl
  | cons kind kinds ih =>
      obtain ⟨other, plain⟩ := List.forall_mem_cons.mp plain
      rw [nestAll_cons, Kind.nest_of_not_isBrace other, Option.bind_some, ih plain]

theorem braceless_nil : Braceless [] := List.forall_mem_nil _

theorem Braceless.append {kinds others : List Kind} (plain : Braceless kinds) (too : Braceless others) :
    Braceless (kinds ++ others) :=
  fun kind mem => (List.mem_append.mp mem).elim (plain kind) (too kind)

theorem Braceless.balanced {kinds : List Kind} (plain : Braceless kinds) : Balanced kinds :=
  plain.nestAll 0

/-- Braces that are open around do not matter. -/
theorem nestAll_add {kinds : List Kind} {n m : Nat} (nest : nestAll n kinds = some m) (around : Nat) :
    nestAll (n + around) kinds = some (m + around) := by
  induction kinds generalizing n with
  | nil =>
      cases nest
      rfl
  | cons kind kinds ih =>
      rw [nestAll_cons] at nest ⊢
      obtain ⟨k, first, rest⟩ := Option.bind_eq_some_iff.mp nest
      rw [Kind.nest_add first around, Option.bind_some]
      exact ih rest

/-- Braces in pairs leave the number of open braces as it is. -/
theorem Balanced.nestAll {kinds : List Kind} (balanced : Balanced kinds) (n : Nat) :
    nestAll n kinds = some n := by
  have around := nestAll_add balanced n
  rwa [Nat.zero_add] at around

theorem Balanced.append {kinds others : List Kind} (first : Balanced kinds) (second : Balanced others) :
    Balanced (kinds ++ others) := by
  rw [Balanced, nestAll_append, first, Option.bind_some, second]

/-- A pair of braces around braces in pairs. -/
theorem Balanced.enclose {kinds : List Kind} (inside : Balanced kinds) :
    Balanced (.lBrace :: (kinds ++ [.rBrace])) := by
  have opening : Kind.lBrace.nest 0 = some 1 := rfl
  have closing : PhpMembers.nestAll 1 [.rBrace] = some 0 := rfl
  rw [Balanced, nestAll_cons, opening, Option.bind_some, nestAll_append, inside.nestAll, Option.bind_some,
    closing]

/-! ## (2) The tokens of a construct -/

/-- The kind of a token, none for a node. -/
def Tree.leafKind? : Tree → Option Kind
  | leaf kind _ => some kind
  | node _ _ => none

/-- The kinds of the tokens among some parts, without what lies inside the nodes among them. -/
def ownKinds (parts : List Tree) : List Kind := parts.filterMap Tree.leafKind?

@[simp] theorem ownKinds_nil : ownKinds [] = [] := rfl

@[simp] theorem ownKinds_append (parts others : List Tree) :
    ownKinds (parts ++ others) = ownKinds parts ++ ownKinds others := List.filterMap_append

@[simp] theorem ownKinds_leaf (kind : Kind) (text : Text) (parts : List Tree) :
    ownKinds (.leaf kind text :: parts) = kind :: ownKinds parts := rfl

@[simp] theorem ownKinds_node (kind : Kind) (inside parts : List Tree) :
    ownKinds (.node kind inside :: parts) = ownKinds parts := rfl

/-- Trivia are not braces. -/
theorem Kind.isBrace_of_isTrivia {kind : Kind} (trivia : kind.isTrivia = true) : kind.isBrace = false := by
  refine Bool.eq_false_iff.mpr fun brace => ?_
  rcases Bool.or_eq_true_iff.mp brace with opening | closing
  · rw [beq_iff_eq.mp opening] at trivia
    cases trivia
  · rw [beq_iff_eq.mp closing] at trivia
    cases trivia

/-- No brace is among them. -/
theorem braceless_trivia {gap : List Token} (trivia : ∀ t ∈ gap, t.isTrivia = true) :
    Braceless (ownKinds (gap.map Token.leaf)) := by
  induction gap with
  | nil => exact braceless_nil
  | cons t gap ih =>
      obtain ⟨first, trivia⟩ := List.forall_mem_cons.mp trivia
      exact List.forall_mem_cons.mpr ⟨Kind.isBrace_of_isTrivia first, ih trivia⟩

/-- The braces of a node are in pairs. Those of a class body that are not inside its parts are its first and
its last part. -/
structure Paired (kind : Kind) (parts : List Tree) : Prop where
  /-- The braces among the parts are in pairs. -/
  balanced : Balanced (ownKinds parts)
  /-- A class body begins and ends with a brace. -/
  body : kind = .classBody → ∃ opening inside closing,
    parts = .leaf .lBrace opening :: (inside ++ [.leaf .rBrace closing]) ∧ Braceless (ownKinds inside)

/-- A class without a name has no braces other than those inside its parts. -/
def Unbraced (kind : Kind) (parts : List Tree) : Prop := kind = .anonClass → Braceless (ownKinds parts)

/-! ## (3) All tokens of a tree -/

/-- If the braces below each node among some parts are in pairs, only the braces among the parts matter. -/
theorem nestAll_leavesOfAll {parts : List Tree}
    (nodes : ∀ part ∈ parts, part.isLeaf = false → Balanced (part.leaves.map (·.1))) (n : Nat) :
    nestAll n ((Tree.leavesOfAll parts).map (·.1)) = nestAll n (ownKinds parts) := by
  induction parts generalizing n with
  | nil => rfl
  | cons part parts ih =>
      obtain ⟨first, later⟩ := List.forall_mem_cons.mp nodes
      rw [Tree.leavesOfAll_cons, List.map_append, nestAll_append]
      cases part with
      | leaf kind text =>
          rw [Tree.leaves_leaf, ownKinds_leaf, nestAll_cons, List.map_singleton, nestAll_cons]
          cases kind.nest n with
          | none => rfl
          | some m => exact ih later m
      | node kind inside =>
          rw [(first rfl).nestAll, Option.bind_some, ownKinds_node, ih later]

/-- **If the braces of every node are in pairs, so are all braces below each node.** -/
theorem Tree.Everywhere.balanced {tree : Tree} (all : tree.Everywhere Paired)
    (node : tree.isLeaf = false) : Balanced (tree.leaves.map (·.1)) := by
  induction all with
  | leaf => cases node
  | node here below ih =>
      rw [leaves_node, Balanced, nestAll_leavesOfAll ih]
      exact here.balanced

/-- Parts without braces of their own have braces in pairs only. -/
theorem Braceless.balanced_leavesOfAll {parts : List Tree} (plain : Braceless (ownKinds parts))
    (all : ∀ part ∈ parts, part.Everywhere Paired) : Balanced ((Tree.leavesOfAll parts).map (·.1)) := by
  rw [Balanced, nestAll_leavesOfAll fun part mem node => (all part mem).balanced node]
  exact plain.balanced

end PhpMembers
