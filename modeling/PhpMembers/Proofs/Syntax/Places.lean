import Mathlib.Data.List.Nodup
import PhpMembers.Proofs.Syntax.Leaves
import PhpMembers.Syntax.Cursor

/-! # Where the elements of a tree stand

The elements of a tree are the tree itself and then the elements of its parts, so facts about them are
inductions from the parts of a node to the node.

* `Cursor.inductionOn`, `Cursor.elements_eq` : the induction and the recursion of elements.
* `Cursor.nodup_elements` : no place is listed twice.
* `Span.Holds`, `Cursor.holds_of_mem_elements` : an element stands where its text does.
* `Cursor.elements_pairwise` : of two elements the later one lies inside the earlier one or behind it.
* `Cursor.leaves`, `Cursor.leaves_pairwise` : the leaves as places, which lie one after the other.
* `Cursor.exists_ancestors_of_mem_elements`, `Cursor.eq_of_mem_ancestors` : the nodes around a place. -/

namespace PhpMembers

/-- `span.Holds source text`: the bytes of `source` in the range are those of `text`. -/
def Span.Holds (span : Span) (source text : Text) : Prop :=
  ∃ before after, source = before ++ text ++ after ∧ span.start = utf8Length before ∧
    span.stop = span.start + utf8Length text

namespace Cursor

/-! ## (1) The parts of a node -/

/-- The tree of a part is among the trees of the parts. -/
theorem tree_mem_of_mem_childrenFrom {parent : Cursor} {left trees : List Tree} {start : Nat}
    {d : Cursor} (mem : d ∈ childrenFrom parent left start trees) : d.tree ∈ trees := by
  induction trees generalizing left start with
  | nil => cases mem
  | cons tree right ih =>
      rcases List.mem_cons.mp mem with rfl | mem
      · exact List.mem_cons_self
      · exact List.mem_cons_of_mem _ (ih mem)

/-- The parts on either side of a part. -/
theorem exists_sides_of_mem_childrenFrom {parent : Cursor} {left trees : List Tree} {start : Nat}
    {d : Cursor} (mem : d ∈ childrenFrom parent left start trees) :
    ∃ before after, trees = before ++ d.tree :: after ∧ d.left = before.reverse ++ left := by
  induction trees generalizing left start with
  | nil => cases mem
  | cons tree right ih =>
      rcases List.mem_cons.mp mem with rfl | mem
      · exact ⟨[], right, rfl, rfl⟩
      · obtain ⟨before, after, all, sides⟩ := ih mem
        refine ⟨tree :: before, after, by rw [all, List.cons_append], ?_⟩
        rw [sides, List.reverse_cons, List.append_assoc, List.singleton_append]

/-- A part knows the node it is a part of. -/
theorem parent?_of_mem_childrenFrom {parent : Cursor} {left trees : List Tree} {start : Nat}
    {d : Cursor} (mem : d ∈ childrenFrom parent left start trees) : d.parent? = some parent := by
  induction trees generalizing left start with
  | nil => cases mem
  | cons tree right ih =>
      rcases List.mem_cons.mp mem with rfl | mem
      · rfl
      · exact ih mem

/-- A part knows the node it is a part of. -/
theorem parent?_of_mem_children {c d : Cursor} (mem : d ∈ c.children) : d.parent? = some c :=
  parent?_of_mem_childrenFrom mem

/-- A leaf has no parts. -/
theorem children_of_isLeaf {c : Cursor} (leaf : c.isLeaf = true) : c.children = [] := by
  rw [isLeaf] at leaf
  rw [children]
  cases tree : c.tree with
  | leaf kind text => rfl
  | node kind parts =>
      rw [tree] at leaf
      cases leaf

/-- The tree of a part is smaller than that of the node. -/
theorem sizeOf_lt_of_mem_children {c d : Cursor} (mem : d ∈ c.children) :
    sizeOf d.tree < sizeOf c.tree := by
  have inTrees := tree_mem_of_mem_childrenFrom mem
  cases tree : c.tree with
  | leaf kind text =>
      rw [tree] at inTrees
      cases inTrees
  | node kind parts =>
      rw [tree] at inTrees
      have smaller := List.sizeOf_lt_of_mem inTrees
      rw [Tree.node.sizeOf_spec]
      simp only [Tree.children] at smaller
      omega

/-- Induction from the parts of a node to the node. -/
@[elab_as_elim]
theorem inductionOn {P : Cursor → Prop} (c : Cursor)
    (step : ∀ c, (∀ d ∈ c.children, P d) → P c) : P c :=
  step c fun d mem =>
    have := sizeOf_lt_of_mem_children mem
    inductionOn d step
termination_by sizeOf c.tree

/-! ## (2) Elements -/

/-- What lies below consecutive parts is what lies below each of them in turn. -/
theorem walkAll_eq (trees : List Tree) (parent : Cursor) (left : List Tree) (start : Nat) :
    walkAll (fun _ => true) trees parent left start =
      (childrenFrom parent left start trees).flatMap elements := by
  induction trees generalizing left start with
  | nil => rw [walkAll, childrenFrom, List.flatMap_nil]
  | cons tree right ih =>
      rw [walkAll, if_pos rfl, ih, childrenFrom, List.flatMap_cons, elements, elementsWithin]
      rfl

/-- **The elements are the cursor and then the elements of each part.** -/
theorem elements_eq (c : Cursor) : c.elements = c :: c.children.flatMap elements := by
  rw [elements, elementsWithin]
  cases tree : c.tree with
  | leaf kind text =>
      have leaf : c.isLeaf = true := by rw [isLeaf, tree, Tree.isLeaf]
      rw [walk, children_of_isLeaf leaf, List.flatMap_nil]
  | node kind parts => rw [walk, walkAll_eq, children, tree, Tree.children]

/-- A cursor is one of its elements. -/
theorem self_mem_elements (c : Cursor) : c ∈ c.elements := by
  rw [elements_eq]
  exact List.mem_cons_self

/-- An element is the cursor itself or an element of a part. -/
theorem mem_elements_iff {c d : Cursor} :
    d ∈ c.elements ↔ d = c ∨ ∃ part ∈ c.children, d ∈ part.elements := by
  rw [elements_eq, List.mem_cons, List.mem_flatMap]

/-- The parts of an element are elements. -/
theorem children_subset_elements {c d part : Cursor} (mem : d ∈ c.elements)
    (below : part ∈ d.children) : part ∈ c.elements := by
  induction c using inductionOn with
  | step c ih =>
      rcases mem_elements_iff.mp mem with rfl | ⟨e, inChildren, inElements⟩
      · exact mem_elements_iff.mpr (Or.inr ⟨part, below, part.self_mem_elements⟩)
      · exact mem_elements_iff.mpr (Or.inr ⟨e, inChildren, ih e inChildren inElements⟩)

/-- What lies below an element is below the cursor. -/
theorem mem_elements_trans {c d e : Cursor} (inner : e ∈ d.elements) (outer : d ∈ c.elements) : e ∈ c.elements := by
  induction c using inductionOn with
  | step c ih =>
      rcases mem_elements_iff.mp outer with rfl | ⟨part, inChildren, inElements⟩
      · exact inner
      · exact mem_elements_iff.mpr (.inr ⟨part, inChildren, ih part inChildren inElements⟩)

/-! ## (3) No place twice -/

/-- The way from a cursor up to the top: its number among the parts of each node. -/
def path : Cursor → List Nat
  | root _ => []
  | child parent left _ _ _ _ => left.length :: parent.path

/-- The paths of consecutive parts count on. -/
theorem path_of_mem_childrenFrom {parent : Cursor} {left trees : List Tree} {start : Nat}
    {d : Cursor} (mem : d ∈ childrenFrom parent left start trees) :
    ∃ i, left.length ≤ i ∧ d.path = i :: parent.path := by
  induction trees generalizing left start with
  | nil => cases mem
  | cons tree right ih =>
      rcases List.mem_cons.mp mem with rfl | mem
      · exact ⟨left.length, Nat.le_refl _, rfl⟩
      · obtain ⟨i, le, path⟩ := ih mem
        exact ⟨i, Nat.le_of_succ_le le, path⟩

/-- The way up from an element leads through the cursor. -/
theorem path_suffix_of_mem_elements {c d : Cursor} (mem : d ∈ c.elements) : c.path <:+ d.path := by
  induction c using inductionOn with
  | step c ih =>
      rcases mem_elements_iff.mp mem with rfl | ⟨part, inChildren, inElements⟩
      · exact List.suffix_refl _
      · obtain ⟨i, -, path⟩ := path_of_mem_childrenFrom inChildren
        have below : c.path <:+ part.path := ⟨[i], path.symm⟩
        exact below.trans (ih part inChildren inElements)

/-- Different parts have no element in common. -/
theorem childrenFrom_pairwise_disjoint (parent : Cursor) (left trees : List Tree) (start : Nat) :
    (childrenFrom parent left start trees).Pairwise fun a b => a.elements.Disjoint b.elements := by
  induction trees generalizing left start with
  | nil => exact List.Pairwise.nil
  | cons tree right ih =>
      rw [childrenFrom]
      refine List.Pairwise.cons (fun b inRest e inFirst inOther => ?_) (ih _ _)
      obtain ⟨i, le, path⟩ := path_of_mem_childrenFrom inRest
      have first := path_suffix_of_mem_elements inFirst
      have other := path_suffix_of_mem_elements inOther
      rw [path] at other
      -- A common element would have a way up through two different parts.
      have same := (List.suffix_of_suffix_length_le first other (Nat.le_refl _)).eq_of_length rfl
      have number : left.length = i := (List.cons.inj same).1
      rw [List.length_cons] at le
      omega

/-- **No place is listed twice.** -/
theorem nodup_elements (c : Cursor) : c.elements.Nodup := by
  induction c using inductionOn with
  | step c ih =>
      rw [elements_eq, List.nodup_cons]
      constructor
      · intro mem
        obtain ⟨part, inChildren, inElements⟩ := List.mem_flatMap.mp mem
        obtain ⟨i, -, path⟩ := path_of_mem_childrenFrom inChildren
        -- The way up from below a node is longer than the way up from the node.
        have longer := (path_suffix_of_mem_elements inElements).length_le
        rw [path, List.length_cons] at longer
        omega
      · exact List.nodup_flatMap.mpr ⟨ih, childrenFrom_pairwise_disjoint c [] _ _⟩

/-! ## (4) The text at a place -/

/-- Where a part stands among consecutive parts, and which text stands there. -/
theorem text_of_mem_childrenFrom {parent : Cursor} {left trees : List Tree} {start : Nat}
    {d : Cursor} (mem : d ∈ childrenFrom parent left start trees) :
    ∃ before after, Tree.textOfAll trees = before ++ d.tree.text ++ after ∧
      d.start = start + utf8Length before ∧ d.stop = d.start + utf8Length d.tree.text := by
  induction trees generalizing left start with
  | nil => cases mem
  | cons tree right ih =>
      rcases List.mem_cons.mp mem with rfl | mem
      · refine ⟨[], Tree.textOfAll right, Tree.textOfAll_cons tree right, rfl, ?_⟩
        rw [← Tree.length_eq]
        rfl
      · obtain ⟨before, after, text, begins, ends⟩ := ih mem
        refine ⟨tree.text ++ before, after, ?_, ?_, ends⟩
        · rw [Tree.textOfAll_cons, text]
          simp only [List.append_assoc]
        · rw [begins, utf8Length_append, Tree.length_eq, Nat.add_assoc]

/-- Where an element stands in the text of a cursor, and which text stands there. -/
theorem text_of_mem_elements {c d : Cursor} (placed : c.stop = c.start + utf8Length c.tree.text)
    (mem : d ∈ c.elements) :
    ∃ before after, c.tree.text = before ++ d.tree.text ++ after ∧
      d.start = c.start + utf8Length before ∧ d.stop = d.start + utf8Length d.tree.text := by
  induction c using inductionOn with
  | step c ih =>
      rcases mem_elements_iff.mp mem with rfl | ⟨part, inChildren, inElements⟩
      · exact ⟨[], [], by simp, rfl, placed⟩
      · obtain ⟨before, after, text, begins, ends⟩ := text_of_mem_childrenFrom inChildren
        obtain ⟨before', after', text', begins', ends'⟩ := ih part inChildren ends inElements
        refine ⟨before ++ before', after' ++ after, ?_, ?_, ends'⟩
        · have parts : c.tree.text = Tree.textOfAll c.tree.children := by
            cases tree : c.tree with
            | leaf kind text =>
                have leaf : c.isLeaf = true := by rw [isLeaf, tree, Tree.isLeaf]
                rw [children_of_isLeaf leaf] at inChildren
                cases inChildren
            | node kind parts => rw [Tree.text_node, Tree.children]
          rw [parts, text, text']
          simp only [List.append_assoc]
        · rw [begins', begins, utf8Length_append, Nat.add_assoc]

/-- The text at a cursor is that of its tree. -/
theorem text_eq (c : Cursor) : c.text = c.tree.text := by
  rw [text]
  cases c.tree with
  | leaf kind text => rw [Tree.text_leaf]
  | node kind parts => rfl

/-- A whole tree is as long as its text. -/
theorem stop_root (tree : Tree) :
    (root tree).stop = (root tree).start + utf8Length (root tree).tree.text := by
  rw [stop, start, Tree.length_eq, Nat.zero_add]
  rfl

/-- **An element of a tree stands where its text does.** -/
theorem holds_of_mem_elements {tree : Tree} {d : Cursor} (mem : d ∈ (root tree).elements) :
    d.span.Holds tree.text d.text := by
  obtain ⟨before, after, text, begins, ends⟩ := text_of_mem_elements (stop_root tree) mem
  rw [text_eq]
  refine ⟨before, after, text, ?_, ends⟩
  rw [span, begins, start, Nat.zero_add]

/-! ## (5) Elements one after the other -/

/-- An element lies inside the cursor. -/
theorem within_of_mem_elements {c d : Cursor} (placed : c.stop = c.start + utf8Length c.tree.text)
    (mem : d ∈ c.elements) : c.start ≤ d.start ∧ d.start ≤ d.stop ∧ d.stop ≤ c.stop := by
  obtain ⟨before, after, text, begins, ends⟩ := text_of_mem_elements placed mem
  rw [text, utf8Length_append, utf8Length_append] at placed
  omega

/-- Consecutive parts lie one after the other. -/
theorem childrenFrom_pairwise_le (parent : Cursor) (left trees : List Tree) (start : Nat) :
    (childrenFrom parent left start trees).Pairwise fun a b => a.stop ≤ b.start := by
  induction trees generalizing left start with
  | nil => exact List.Pairwise.nil
  | cons tree right ih =>
      rw [childrenFrom]
      refine List.Pairwise.cons (fun b mem => ?_) (ih _ _)
      obtain ⟨before, after, -, begins, -⟩ := text_of_mem_childrenFrom mem
      rw [begins]
      exact Nat.le_add_right _ _

/-- **Of two elements the later one lies inside the earlier one or behind it.** -/
theorem elements_pairwise (c : Cursor) :
    c.elements.Pairwise fun a b => b ∈ a.elements ∨ a.stop ≤ b.start := by
  induction c using inductionOn with
  | step c ih =>
      rw [elements_eq]
      refine List.pairwise_cons.mpr ⟨fun b mem => .inl ?_, List.pairwise_flatMap.mpr ⟨ih, ?_⟩⟩
      · rw [elements_eq]
        exact List.mem_cons_of_mem _ mem
      · refine (childrenFrom_pairwise_le c [] _ _).imp_of_mem ?_
        intro a b aMem bMem before x inA y inB
        obtain ⟨_, _, _, _, aEnds⟩ := text_of_mem_childrenFrom aMem
        obtain ⟨_, _, _, _, bEnds⟩ := text_of_mem_childrenFrom bMem
        have first := within_of_mem_elements aEnds inA
        have second := within_of_mem_elements bEnds inB
        exact .inr (by omega)

/-! ## (6) Leaves as places -/

/-- The leaves among the elements. -/
def leaves (c : Cursor) : List Cursor := c.elements.filter isLeaf

/-- A leaf has only itself, a node the leaves of its parts. -/
theorem leaves_eq (c : Cursor) :
    c.leaves = if c.isLeaf then [c] else c.children.flatMap leaves := by
  rw [leaves, elements_eq, List.filter_cons]
  split
  · rename_i leaf
    rw [children_of_isLeaf leaf, List.flatMap_nil, List.filter_nil]
  · rw [List.filter_flatMap]
    rfl

/-- The leaves of consecutive parts, if those of each part are known. -/
theorem leaves_map_childrenFrom {parent : Cursor} {left trees : List Tree} {start : Nat}
    (each : ∀ d ∈ childrenFrom parent left start trees,
      d.leaves.map (fun d => (d.kind, d.text)) = d.tree.leaves) :
    ((childrenFrom parent left start trees).flatMap leaves).map (fun d => (d.kind, d.text)) =
      Tree.leavesOfAll trees := by
  induction trees generalizing left start with
  | nil => rw [childrenFrom, List.flatMap_nil, List.map_nil, Tree.leavesOfAll_nil]
  | cons tree right ih =>
      rw [childrenFrom] at each ⊢
      rw [List.flatMap_cons, List.map_append, each _ List.mem_cons_self, Tree.leavesOfAll_cons,
        ih fun d mem => each d (List.mem_cons_of_mem _ mem)]
      rfl

/-- The leaves of the tree are those found at the places. -/
theorem leaves_map (c : Cursor) : c.leaves.map (fun d => (d.kind, d.text)) = c.tree.leaves := by
  induction c using inductionOn with
  | step c ih =>
      have below := leaves_map_childrenFrom ih
      rw [leaves_eq, isLeaf]
      cases tree : c.tree with
      | leaf kind text => simp [Tree.isLeaf, Cursor.kind, Cursor.text, Tree.kind, tree]
      | node kind parts =>
          rw [tree] at below
          rw [Tree.leaves_node, if_neg (by simp [Tree.isLeaf]), children, tree]
          exact below

/-- **Leaves lie one after the other.** -/
theorem leaves_pairwise (c : Cursor) : c.leaves.Pairwise fun a b => a.stop ≤ b.start := by
  have apart := (c.elements_pairwise.and c.nodup_elements).filter isLeaf
  refine apart.imp_of_mem ?_
  rintro a b inLeaves - ⟨inside | behind, ne⟩
  · have leaf := (List.mem_filter.mp inLeaves).2
    rw [elements_eq, children_of_isLeaf leaf, List.flatMap_nil, List.mem_singleton] at inside
    exact absurd inside.symm ne
  · exact behind

/-! ## (7) The nodes around a place -/

/-- A place comes first among the nodes around it. -/
theorem exists_ancestors_eq_cons (c : Cursor) : ∃ outer, c.ancestors = c :: outer := by
  cases c with
  | root tree => exact ⟨[], rfl⟩
  | child parent left tree right start stop => exact ⟨parent.ancestors, rfl⟩

/-- Around a part are the nodes around the node. -/
theorem ancestors_of_mem_children {c d : Cursor} (mem : d ∈ c.children) :
    d.ancestors = d :: c.ancestors := by
  have parent := parent?_of_mem_children mem
  cases d with
  | root tree => cases parent
  | child p left tree right start stop =>
      obtain rfl := Option.some.inj parent
      rfl

/-- **Around an element are the nodes around the cursor**, and in between other elements. -/
theorem exists_ancestors_of_mem_elements {c d : Cursor} (mem : d ∈ c.elements) :
    ∃ between, d.ancestors = between ++ c.ancestors ∧ ∀ x ∈ between, x ∈ c.elements ∧ d ∈ x.elements := by
  induction c using inductionOn with
  | step c ih =>
      rcases mem_elements_iff.mp mem with rfl | ⟨part, inChildren, inElements⟩
      · exact ⟨[], rfl, by simp⟩
      · obtain ⟨between, around, inside⟩ := ih part inChildren inElements
        refine ⟨between ++ [part], ?_, fun x inBetween => ?_⟩
        · rw [around, ancestors_of_mem_children inChildren, List.append_assoc]
          rfl
        · rcases List.mem_append.mp inBetween with deeper | atPart
          · obtain ⟨below, contains⟩ := inside x deeper
            exact ⟨mem_elements_iff.mpr (.inr ⟨part, inChildren, below⟩), contains⟩
          · obtain rfl := List.mem_singleton.mp atPart
            exact ⟨mem_elements_iff.mpr (.inr ⟨x, inChildren, x.self_mem_elements⟩), inElements⟩

/-- The nodes around a node around a place are the further ones around the place. -/
theorem ancestors_eq_of_append {c d : Cursor} {inner outer : List Cursor}
    (around : d.ancestors = inner ++ c :: outer) : c.ancestors = c :: outer := by
  induction d generalizing inner with
  | root tree =>
      cases inner with
      | nil =>
          obtain ⟨rfl, rfl⟩ := List.cons.inj around
          rfl
      | cons x rest => simp [ancestors] at around
  | child parent left tree right start stop ih =>
      cases inner with
      | nil =>
          obtain ⟨rfl, rfl⟩ := List.cons.inj around
          rfl
      | cons x rest => exact ih (List.cons.inj around).2

/-- They are the last ones around the place. -/
theorem ancestors_suffix {c d : Cursor} (mem : c ∈ d.ancestors) : c.ancestors <:+ d.ancestors := by
  obtain ⟨inner, outer, around⟩ := List.append_of_mem mem
  exact ⟨inner, by rw [ancestors_eq_of_append around, around]⟩

/-- Two places around each other are one. -/
theorem eq_of_mem_ancestors {c d : Cursor} (outside : c ∈ d.ancestors) (inside : d ∈ c.ancestors) : c = d := by
  have le := (ancestors_suffix inside).length_le
  have same := (ancestors_suffix outside).eq_of_length_le le
  obtain ⟨outer, first⟩ := c.exists_ancestors_eq_cons
  obtain ⟨outer', first'⟩ := d.exists_ancestors_eq_cons
  rw [first, first'] at same
  exact (List.cons.inj same).1

end Cursor

end PhpMembers
