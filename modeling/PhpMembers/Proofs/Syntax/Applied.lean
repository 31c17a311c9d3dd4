import PhpMembers.Proofs.Source.Parts
import PhpMembers.Proofs.Syntax.Following
import PhpMembers.Proofs.Syntax.Operators

/-! # Accesses and assignments as places

What the operator of an access or an assignment is applied to stands in front of it, and everything else behind
it. In front there is at most one expression, which is not empty.

* `Cursor.start_lt_stop` : places with leaves are not empty.
* `Cursor.Sides`, `Cursor.sides_of_operator` : the parts of a node on either side of its operator. -/

namespace PhpMembers

namespace Cursor

variable {source : Text} {c d : Cursor}

/-! ## (1) Parts as places -/

/-- The tree of a leaf. -/
theorem tree_of_isLeaf (leaf : c.isLeaf = true) : c.tree = .leaf c.kind c.text := by
  rw [isLeaf] at leaf
  rw [kind, text]
  cases tree : c.tree with
  | leaf kind text => rfl
  | node kind parts =>
      rw [tree] at leaf
      cases leaf

/-- A leaf is not a node. -/
theorem ne_of_isLeaf (leaf : c.isLeaf = true) (node : d.isLeaf = false) : c ≠ d := by
  intro same
  rw [same, node] at leaf
  cases leaf

/-- A leaf has no other elements. -/
theorem eq_of_mem_elements_of_isLeaf (mem : d ∈ c.elements) (leaf : c.isLeaf = true) : d = c := by
  rw [elements_eq, children_of_isLeaf leaf, List.flatMap_nil] at mem
  exact List.mem_singleton.mp mem

/-- What has a node inside is a node. -/
theorem isLeaf_of_mem_elements (mem : d ∈ c.elements) (node : d.isLeaf = false) : c.isLeaf = false := by
  apply Bool.eq_false_iff.mpr
  intro leaf
  exact ne_of_isLeaf leaf node (eq_of_mem_elements_of_isLeaf mem leaf).symm

/-- A part lies inside of its node. -/
theorem within_of_mem_children (placed : c.stop = c.start + utf8Length c.tree.text) (part : d ∈ c.children) :
    c.start ≤ d.start ∧ d.start ≤ d.stop ∧ d.stop ≤ c.stop :=
  within_of_mem_elements placed (children_subset_elements c.self_mem_elements part)

/-- Whether there is an expression at a place. -/
theorem isExpression_tree (c : Cursor) : c.tree.isExpression = (!c.isLeaf && c.kind.isExpression) := by
  rw [isLeaf, kind]
  cases c.tree with
  | leaf kind text => rfl
  | node kind parts => rfl

/-- The expressions among the parts, by their trees. -/
theorem expressions_eq (c : Cursor) : c.expressions = c.children.filter (·.tree.isExpression) := by
  rw [expressions, nodes, List.filter_filter]
  refine List.filter_congr fun part _ => ?_
  rw [isExpression_tree, Bool.and_comm]

/-- The first of them. -/
theorem firstExpression?_eq (c : Cursor) : c.firstExpression? = c.expressions.head? := by
  rw [firstExpression?, expressions, List.head?_filter]

/-! ## (2) Empty places -/

/-- An element lies where its text does. -/
theorem stop_of_mem_elements {tree : Tree} (mem : d ∈ (root tree).elements) :
    d.stop = d.start + utf8Length d.tree.text := by
  obtain ⟨_, _, -, -, ends⟩ := text_of_mem_elements (stop_root tree) mem
  exact ends

/-- The leaves of the tree of a text are not empty. -/
theorem text_ne_nil_of_mem_leaves {leaf : Kind × Text} (mem : leaf ∈ (Parse.ofText source).tree.leaves) :
    leaf.2 ≠ [] := by
  have texts := (Parse.records_ofTokens (tokenize source)).texts_eq
  have inTexts : leaf.2 ∈ (tokenize source).map Token.text := by
    rw [← texts]
    exact List.mem_map_of_mem mem
  obtain ⟨t, inTokens, same⟩ := List.mem_map.mp inTexts
  rw [← same]
  exact Token.text_ne_nil inTokens

/-- **A place of the tree of a text with a leaf is not empty.** -/
theorem start_lt_stop (mem : d ∈ (root (Parse.ofText source).tree).elements) (filled : d.tree.leaves ≠ []) :
    d.start < d.stop := by
  obtain ⟨leaf, rest, leaves⟩ := List.exists_cons_of_ne_nil filled
  obtain ⟨front, all, -⟩ := exists_front_of_mem_elements mem
  have all : (Parse.ofText source).tree.leaves ++ [] = front ++ (d.tree.leaves ++ d.leavesBehind) := all
  have inTree : leaf ∈ (Parse.ofText source).tree.leaves := by
    rw [← List.append_nil (Tree.leaves _), all, leaves]
    simp
  have text : d.tree.text = leaf.2 ++ rest.flatMap (·.2) := by
    rw [Tree.text, leaves, List.flatMap_cons]
  have some := utf8Length_pos (text_ne_nil_of_mem_leaves inTree)
  rw [stop_of_mem_elements mem, text, utf8Length_append]
  omega

/-- **No token of a text is empty.** -/
theorem start_lt_stop_of_isLeaf (mem : d ∈ (root (Parse.ofText source).tree).elements) (leaf : d.isLeaf = true) :
    d.start < d.stop := by
  refine start_lt_stop mem ?_
  rw [tree_of_isLeaf leaf, Tree.leaves_leaf]
  exact List.cons_ne_nil _ _

/-! ## (3) The sides of an operator -/

/-- The parts of an access or an assignment of a file. -/
theorem operated (mem : d ∈ (root (Parse.ofText source).tree).descendants) :
    Operated d.kind d.tree.children := by
  obtain ⟨inElements, node⟩ := List.mem_filter.mp mem
  have all : (root (Parse.ofText source).tree).tree.Everywhere Operated := Parse.operated_ofTokens (tokenize source)
  exact (everywhere_of_mem_elements all inElements).here (show d.isLeaf = false by simpa using node)

/-- The parts of a node in front of its operator and behind it. -/
structure Sides (c operator : Cursor) (front behind : List Cursor) : Prop where
  /-- The parts come one after the other. -/
  parts : c.children = front ++ operator :: behind
  /-- In front there is at most one expression. -/
  few : (front.filter (·.tree.isExpression)).length ≤ 1
  /-- That expression is not empty. -/
  filled : ∀ part ∈ front, part.tree.isExpression = true → part.tree.leaves ≠ []

/-- **The operator of an access or an assignment is its only token of that kind**, and in front of it is what it
is applied to. -/
theorem sides_of_operator (mem : c ∈ (root (Parse.ofText source).tree).descendants) {operator : Cursor}
    (inTokens : operator ∈ c.tokens) (listed : operator.kind ∈ c.kind.operators)
    (significant : operator.kind.isTrivia = false) :
    ∃ front behind, Sides c operator front behind := by
  obtain ⟨inChildren, leaf⟩ := List.mem_filter.mp inTokens
  have operated := operated mem
  generalize parts : c.tree.children = trees at operated
  cases operated with
  | other none =>
      rw [none] at listed
      cases listed
  | @applied front behind kind more text operand isOperator rest apart =>
      have trees : c.children.map tree = front ++ .leaf kind text :: behind := by
        rw [map_tree_children, parts]
      obtain ⟨inFront, others, split, rfl, there⟩ := List.map_eq_append_iff.mp trees
      obtain ⟨applied, inBehind, rfl, tree, rfl⟩ := List.map_eq_cons_iff.mp there
      have own {part : Cursor} {parts : List Cursor} (mem : part ∈ parts) (isLeaf : part.isLeaf = true) :
          part.kind ∈ ownKinds (parts.map Cursor.tree) := by
        refine List.mem_filterMap.mpr ⟨part.tree, List.mem_map_of_mem mem, ?_⟩
        rw [tree_of_isLeaf isLeaf]
        rfl
      rw [split] at inChildren
      rcases List.mem_append.mp inChildren with before | there
      · -- In front there is trivia only.
        have trivia := operand.trivia _ (own before leaf)
        rw [significant] at trivia
        cases trivia
      rcases List.mem_cons.mp there with rfl | after
      · refine ⟨_, _, split, ?_, fun part mem => operand.filled _ (List.mem_map_of_mem mem)⟩
        have count := operand.count
        rw [List.countP_map, List.countP_eq_length_filter] at count
        exact count
      · -- Behind it there is no further operator.
        have more := rest.subset (List.mem_filter.mpr ⟨own after leaf, by rw [significant]; rfl⟩)
        rw [List.mem_singleton.mp more] at listed
        exact absurd listed apart

namespace Sides

variable {operator : Cursor} {front behind : List Cursor}

/-- The expressions in front come before those behind. -/
theorem expressions_eq (sides : Sides c operator front behind) (leaf : operator.isLeaf = true) :
    c.expressions = front.filter (·.tree.isExpression) ++ behind.filter (·.tree.isExpression) := by
  have noExpression : operator.tree.isExpression = false := by
    rw [isExpression_tree, leaf]
    rfl
  rw [Cursor.expressions_eq, sides.parts, List.filter_append, List.filter_cons_of_neg (by simp [noExpression])]

/-- The parts in front end where the operator begins, and those behind begin where it ends. -/
theorem apart (sides : Sides c operator front behind) :
    (∀ part ∈ front, part.stop ≤ operator.start) ∧ ∀ part ∈ behind, operator.stop ≤ part.start := by
  have inOrder := childrenFrom_pairwise_le c [] c.tree.children c.start
  have same : childrenFrom c [] c.start c.tree.children = front ++ operator :: behind := sides.parts
  rw [same, List.pairwise_append, List.pairwise_cons] at inOrder
  obtain ⟨-, ⟨later, -⟩, earlier⟩ := inOrder
  exact ⟨fun part inFront => earlier part inFront operator List.mem_cons_self, later⟩

/-- A node that ends where the operator begins stands in front. -/
theorem mem_front (sides : Sides c operator front behind) (leaf : operator.isLeaf = true)
    (mem : c ∈ (root (Parse.ofText source).tree).elements) (part : d ∈ c.children) (node : d.isLeaf = false)
    (before : d.stop ≤ operator.start) : d ∈ front := by
  have isOperator : operator ∈ c.children := by
    rw [sides.parts]
    exact List.mem_append_right _ List.mem_cons_self
  have filled := start_lt_stop_of_isLeaf (children_subset_elements mem isOperator) leaf
  have placed := within_of_mem_children (stop_of_mem_elements mem) part
  rw [sides.parts] at part
  rcases List.mem_append.mp part with inFront | there
  · exact inFront
  rcases List.mem_cons.mp there with same | inBehind
  · exact absurd same.symm (ne_of_isLeaf leaf node)
  · -- What stands behind the operator does not end in front of it.
    have begins := sides.apart.2 d inBehind
    omega

/-- The operand in front is the first expression. -/
theorem firstExpression? (sides : Sides c operator front behind) (leaf : operator.isLeaf = true)
    (inFront : d ∈ front) (expression : d.tree.isExpression = true) : c.firstExpression? = some d := by
  have mem : d ∈ front.filter (·.tree.isExpression) := List.mem_filter.mpr ⟨inFront, expression⟩
  rw [firstExpression?_eq, sides.expressions_eq leaf]
  cases found : front.filter (·.tree.isExpression) with
  | nil =>
      rw [found] at mem
      cases mem
  | cons first others =>
      have few := sides.few
      rw [found, List.length_cons] at few
      have alone : others = [] := List.length_eq_zero_iff.mp (by omega)
      rw [found, alone] at mem
      rw [List.mem_singleton.mp mem]
      rfl

/-- The first expression stands in front, unless all expressions stand behind the operator. -/
theorem stop_le_of_firstExpression? (sides : Sides c operator front behind) (leaf : operator.isLeaf = true)
    (first : c.firstExpression? = some d) (whole : ¬∀ part ∈ c.expressions, operator.stop ≤ part.start) :
    d ∈ c.nodes ∧ d.stop ≤ operator.start := by
  obtain ⟨part, inParts, early⟩ : ∃ part ∈ c.expressions, ¬operator.stop ≤ part.start := by
    simpa only [not_forall, exists_prop] using whole
  rw [sides.expressions_eq leaf] at inParts
  rcases List.mem_append.mp inParts with inFront | inBehind
  · obtain ⟨here, expression⟩ := List.mem_filter.mp inFront
    obtain rfl : part = d := Option.some.inj ((sides.firstExpression? leaf here expression).symm.trans first)
    rw [isExpression_tree, Bool.and_eq_true] at expression
    have isPart : part ∈ c.children := by
      rw [sides.parts]
      exact List.mem_append_left _ here
    exact ⟨List.mem_filter.mpr ⟨isPart, expression.1⟩, sides.apart.1 part here⟩
  · exact absurd (sides.apart.2 part (List.mem_of_mem_filter inBehind)) early

end Sides

end Cursor

end PhpMembers
