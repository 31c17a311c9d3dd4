import PhpMembers.Proofs.Search.Names
import PhpMembers.Proofs.Syntax.Applied
import PhpMembers.Typing.Inference

/-! # The receivers of accesses

The type of a receiver is asked for by the offset at which it ends. The leaf that ends there lies in the
receiver, everything around it up to the receiver ends there, too, and the access itself ends later: so what is
found at the offset is the receiver.

* `Cursor.leafEnding?_of_mem_elements`, `Cursor.exists_leafEnding?` : the leaf that ends at an offset.
* `Cursor.expressionEndingAt?_stop` : the expression that is found where an expression ends.
* `expressionEndingAt?_receiver` : the receivers of accesses. -/

namespace PhpMembers

namespace Cursor

variable {c d : Cursor} {offset : Nat}

/-! ## (1) The leaf that ends at an offset -/

/-- Whether an offset is behind the start of a place and not behind its end. -/
def reaches (c : Cursor) (offset : Nat) : Bool := c.start < offset && offset ≤ c.stop

theorem reaches_iff : c.reaches offset = true ↔ c.start < offset ∧ offset ≤ c.stop := by
  rw [reaches, Bool.and_eq_true, decide_eq_true_eq, decide_eq_true_eq]

/-- Of consecutive parts the first one that reaches an offset is looked through. -/
theorem leafEndingAmong?_eq (trees : List Tree) (parent : Cursor) (left : List Tree) (start : Nat) :
    leafEndingAmong? offset trees parent left start =
      ((childrenFrom parent left start trees).find? (·.reaches offset)).bind fun d => leafEnding? offset d.tree d := by
  induction trees generalizing left start with
  | nil => rfl
  | cons tree trees ih =>
      rw [leafEndingAmong?, childrenFrom, List.find?_cons, ih]
      by_cases here : start < offset ∧ offset ≤ start + tree.length
      · have reaches : (child parent left tree trees start (start + tree.length)).reaches offset = true :=
          reaches_iff.mpr here
        rw [if_pos here, reaches]
        rfl
      · have beside : (child parent left tree trees start (start + tree.length)).reaches offset = false :=
          Bool.eq_false_iff.mpr fun reaches => here (reaches_iff.mp reaches)
        rw [if_neg here, beside]

/-- In a node the first part that reaches the offset is looked through. -/
theorem leafEnding?_of_mem_children (mem : d ∈ c.children) : leafEnding? offset c.tree c =
    (c.children.find? (·.reaches offset)).bind fun d => leafEnding? offset d.tree d := by
  rw [children]
  cases tree : c.tree with
  | node kind parts => rw [leafEnding?, leafEndingAmong?_eq, Tree.children]
  | leaf kind text =>
      have leaf : c.isLeaf = true := by rw [isLeaf, tree, Tree.isLeaf]
      rw [children_of_isLeaf leaf] at mem
      cases mem

/-- Only one part reaches an offset. -/
theorem find?_reaches (mem : d ∈ c.children) (reaches : d.reaches offset = true) :
    c.children.find? (·.reaches offset) = some d := by
  obtain ⟨before, after, split⟩ := List.append_of_mem mem
  have inOrder : c.children.Pairwise fun a b => a.stop ≤ b.start := childrenFrom_pairwise_le c [] _ _
  rw [split, List.pairwise_append] at inOrder
  refine List.find?_eq_some_iff_append.mpr ⟨reaches, before, after, split, fun part inFront => ?_⟩
  have ends := inOrder.2.2 part inFront d List.mem_cons_self
  have here := reaches_iff.mp reaches
  have beside : part.reaches offset = false := Bool.eq_false_iff.mpr fun reaches => by
    have there := reaches_iff.mp reaches
    omega
  rw [beside]
  rfl

/-- **The leaf that ends at an offset is looked for in each element that reaches it.** -/
theorem leafEnding?_of_mem_elements (placed : c.stop = c.start + utf8Length c.tree.text) (mem : d ∈ c.elements)
    (reaches : d.reaches offset = true) : leafEnding? offset c.tree c = leafEnding? offset d.tree d := by
  induction c using inductionOn with
  | step c ih =>
      rcases mem_elements_iff.mp mem with rfl | ⟨part, inChildren, inElements⟩
      · rfl
      · obtain ⟨_, _, -, -, ends⟩ := text_of_mem_childrenFrom inChildren
        have within := within_of_mem_elements ends inElements
        have here := reaches_iff.mp reaches
        have around : part.reaches offset = true := reaches_iff.mpr (by omega)
        rw [leafEnding?_of_mem_children inChildren, find?_reaches inChildren around, Option.bind_some]
        exact ih part inChildren ends inElements

/-- Some part reaches the end of a node, if the node is not empty. -/
theorem exists_mem_childrenFrom_reaches {parent : Cursor} {left trees : List Tree} {start : Nat}
    (behind : start < offset) (ends : offset = start + utf8Length (Tree.textOfAll trees)) :
    ∃ d ∈ childrenFrom parent left start trees, d.reaches offset = true := by
  induction trees generalizing left start with
  | nil =>
      rw [Tree.textOfAll_nil, utf8Length_nil, Nat.add_zero] at ends
      omega
  | cons tree trees ih =>
      rw [Tree.textOfAll_cons, utf8Length_append, ← Tree.length_eq] at ends
      by_cases here : offset ≤ start + tree.length
      · exact ⟨_, List.mem_cons_self, reaches_iff.mpr ⟨behind, here⟩⟩
      · obtain ⟨d, mem, reaches⟩ := @ih (tree :: left) (start + tree.length) (by omega) (by omega)
        exact ⟨d, List.mem_cons_of_mem _ mem, reaches⟩

/-- **Where a place ends that is not empty, a leaf of it ends**, and that leaf is found. -/
theorem exists_leafEnding? (placed : c.stop = c.start + utf8Length c.tree.text) (filled : c.start < c.stop) :
    ∃ leaf ∈ c.elements, leaf.isLeaf = true ∧ leaf.stop = c.stop ∧ leafEnding? c.stop c.tree c = some leaf := by
  induction c using inductionOn with
  | step c ih =>
      cases tree : c.tree with
      | leaf kind text =>
          refine ⟨c, c.self_mem_elements, by rw [isLeaf, tree, Tree.isLeaf], rfl, ?_⟩
          rw [leafEnding?, if_pos rfl]
      | node kind parts =>
          have ends : c.stop = c.start + utf8Length (Tree.textOfAll c.tree.children) := by
            rw [placed, tree, Tree.text_node, Tree.children]
          -- Of the parts, the first that reaches to the end is the one to go into.
          obtain ⟨part, inChildren, reaches⟩ :=
            exists_mem_childrenFrom_reaches filled ends
          have inChildren : part ∈ c.children := inChildren
          obtain ⟨_, _, -, -, partEnds⟩ := text_of_mem_childrenFrom inChildren
          have within := within_of_mem_children placed inChildren
          have bounds := reaches_iff.mp reaches
          have same : part.stop = c.stop := by omega
          obtain ⟨leaf, inElements, isLeaf, stop, found⟩ := ih part inChildren partEnds (by omega)
          refine ⟨leaf, mem_elements_iff.mpr (.inr ⟨part, inChildren, inElements⟩), isLeaf, stop.trans same, ?_⟩
          rw [← tree, leafEnding?_of_mem_children inChildren, find?_reaches inChildren reaches, Option.bind_some,
            ← same, found]

/-! ## (2) The expression that ends at an offset -/

/-- Everything between a place and a node that ends with it ends there. -/
theorem stop_of_mem_between {x leaf : Cursor} (placed : c.stop = c.start + utf8Length c.tree.text)
    (inElements : x ∈ c.elements) (contains : leaf ∈ x.elements) (ends : leaf.stop = c.stop) : x.stop = c.stop := by
  obtain ⟨_, _, -, -, xEnds⟩ := text_of_mem_elements placed inElements
  have outer := within_of_mem_elements placed inElements
  have inner := within_of_mem_elements xEnds contains
  omega

/-- **Where an expression ends that is not empty, it is found**, if what is around it ends later. -/
theorem expressionEndingAt?_stop {tree : Tree} (mem : d ∈ (root tree).elements)
    (expression : d.kind.isExpression = true) (node : d.isLeaf = false) (filled : d.start < d.stop)
    {parent : Cursor} (part : d ∈ parent.children) (later : parent.stop ≠ d.stop) :
    (root tree).expressionEndingAt? d.stop = some d := by
  have placed := stop_of_mem_elements mem
  obtain ⟨leaf, inElements, isLeaf, ends, found⟩ := exists_leafEnding? placed filled
  have reaches : d.reaches d.stop = true := reaches_iff.mpr ⟨filled, Nat.le_refl _⟩
  have start : (root tree).start < d.stop := Nat.lt_of_le_of_lt (Nat.zero_le _) filled
  have leafFound : (root tree).leafEndingAt? d.stop = some leaf := by
    rw [leafEndingAt?, if_pos start, leafEnding?_of_mem_elements (stop_root tree) mem reaches, found]
  obtain ⟨between, around, inside⟩ := exists_ancestors_of_mem_elements inElements
  obtain ⟨outer, parents⟩ := parent.exists_ancestors_eq_cons
  rw [ancestors_of_mem_children part, parents] at around
  -- The leaf itself is no node, so it is the first of the places in between.
  obtain ⟨first, nodes, rfl⟩ : ∃ first nodes, between = first :: nodes := by
    cases between with
    | cons first nodes => exact ⟨first, nodes, rfl⟩
    | nil =>
        obtain ⟨_, own⟩ := leaf.exists_ancestors_eq_cons
        rw [own, List.nil_append] at around
        exact absurd (List.cons.inj around).1 (ne_of_isLeaf isLeaf node)
  have ending : leaf.ancestors.tail.takeWhile (·.stop == d.stop) = nodes ++ [d] := by
    have endHere : ∀ x ∈ nodes ++ [d], (x.stop == d.stop) = true := by
      refine List.forall_mem_append.mpr ⟨fun x inNodes => ?_, List.forall_mem_singleton.mpr (beq_self_eq_true _)⟩
      obtain ⟨below, contains⟩ := inside x (List.mem_cons_of_mem _ inNodes)
      exact beq_iff_eq.mpr (stop_of_mem_between placed below contains ends)
    have tail : leaf.ancestors.tail = (nodes ++ [d]) ++ parent :: outer := by
      rw [around, List.cons_append, List.tail_cons, List.append_assoc, List.singleton_append]
    rw [tail, List.takeWhile_append_of_pos endHere, List.takeWhile_cons_of_neg (by simpa using later), List.append_nil]
  rw [expressionEndingAt?, leafFound]
  simp only [ending]
  rw [List.filter_append, List.filter_cons_of_pos (by rw [expression]), List.filter_nil, List.getLast?_concat]

end Cursor

/-! ## (3) Receivers -/

/-- **Types are asked for the receiver itself.** For every text, damaged or not, and every access with an arrow:
if an expression stands in front of the arrow, it is what is found at the offset at which it ends, neither an
expression inside of it nor one around it. It is also what the access is on, so the type at that offset is
the type of the receiver, whatever the types depend on. -/
theorem expressionEndingAt?_receiver (source : Text) {access receiver arrow : Cursor}
    (mem : access ∈ (Cursor.ofText source).descendants) (isAccess : access.kind = .memberAccessExpr)
    (part : receiver ∈ access.nodes) (expression : receiver.kind.isExpression = true)
    (inTokens : arrow ∈ access.tokens) (isArrow : arrow.kind = .arrow ∨ arrow.kind = .nullsafeArrow)
    (before : receiver.stop ≤ arrow.start) :
    (Cursor.ofText source).expressionEndingAt? receiver.stop = some receiver ∧
      access.firstExpression? = some receiver ∧
      ∀ t : Typing, t.typeAt (Cursor.ofText source) receiver.stop = t.typeOf typingLevels receiver := by
  obtain ⟨inChildren, isNode⟩ := List.mem_filter.mp part
  obtain ⟨arrowInChildren, leaf⟩ := List.mem_filter.mp inTokens
  have inElements : access ∈ (Cursor.ofText source).elements := (List.mem_filter.mp mem).1
  have node : receiver.isLeaf = false := by simpa using isNode
  have isExpression : receiver.tree.isExpression = true := by
    rw [receiver.isExpression_tree, node, expression]
    rfl
  obtain ⟨front, behind, sides⟩ : ∃ front behind, Cursor.Sides access arrow front behind := by
    refine Cursor.sides_of_operator mem inTokens ?_ ?_
    · rw [isAccess]
      rcases isArrow with isArrow | isArrow <;> rw [isArrow] <;> decide
    · rcases isArrow with isArrow | isArrow <;> rw [isArrow] <;> rfl
  have receiverInFile := Cursor.children_subset_elements inElements inChildren
  have inFront := sides.mem_front leaf inElements inChildren node before
  -- The arrow is not empty, so the access ends behind its receiver.
  have filled := Cursor.start_lt_stop_of_isLeaf (Cursor.children_subset_elements inElements arrowInChildren) leaf
  have within := Cursor.within_of_mem_children (Cursor.stop_of_mem_elements inElements) arrowInChildren
  have found : (Cursor.ofText source).expressionEndingAt? receiver.stop = some receiver := by
    refine Cursor.expressionEndingAt?_stop receiverInFile expression node ?_ inChildren (by omega)
    exact Cursor.start_lt_stop receiverInFile (sides.filled receiver inFront isExpression)
  refine ⟨found, sides.firstExpression? leaf inFront isExpression, fun t => ?_⟩
  rw [Typing.typeAt, found]

/-- An assignment with a chain on its right side. -/
def assignedChain : Text := "<?php $x = $a->b () ->c;".toList

/-- The receiver of the second access is the call, although the call ends where its arguments do. -/
theorem expressionEndingAt?_receiver_assignedChain :
    ∃ receiver, receiver.kind = .callExpr ∧ receiver.span = ⟨11, 19⟩ ∧
      (Cursor.ofText assignedChain).expressionEndingAt? 19 = some receiver := by
  obtain ⟨access, mem, isAccess, receiver, part, arrow, inTokens, call, span, stop, isArrow, before⟩ :
      ∃ access ∈ (Cursor.ofText assignedChain).descendants, access.kind = .memberAccessExpr ∧
        ∃ receiver ∈ access.nodes, ∃ arrow ∈ access.tokens, receiver.kind = .callExpr ∧
          receiver.span = ⟨11, 19⟩ ∧ receiver.stop = 19 ∧ arrow.kind = .arrow ∧ receiver.stop ≤ arrow.start := by
    decide +kernel
  have found := (expressionEndingAt?_receiver assignedChain mem isAccess part (by rw [call]; rfl) inTokens
    (.inl isArrow) before).1
  rw [stop] at found
  exact ⟨receiver, call, span, found⟩

end PhpMembers
