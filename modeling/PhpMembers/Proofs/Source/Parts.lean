import PhpMembers.Proofs.Syntax.Parents
import PhpMembers.Source.Declaration
import PhpMembers.Source.DocComment

/-! # What is found among the parts of a node

A cursor knows its place, but what it finds among its parts is settled by the tree alone.

* `Tree.nodesAmong`, `Tree.tokensOf`, `Tree.nameText` : what is found.
* `Cursor.map_tree_nodesOf`, `Cursor.map_text_token?`, `Cursor.nameText_eq` : it is the same for a cursor.
* `Cursor.documentation?_of_mem_children` : where nothing is documented.
* `Tree.Avoids` : kinds that do not occur; `Cursor.classLikes_eq` : the class-likes below a node. -/

namespace PhpMembers

/-! ## (1) Parts of trees -/

namespace Tree

/-- The nodes of a kind among trees. -/
def nodesAmong (kind : Kind) (trees : List Tree) : List Tree :=
  trees.filter fun tree => tree.kind == kind && !tree.isLeaf

@[simp] theorem nodesAmong_nil (kind : Kind) : nodesAmong kind [] = [] := rfl

@[simp] theorem nodesAmong_append (kind : Kind) (trees others : List Tree) :
    nodesAmong kind (trees ++ others) = nodesAmong kind trees ++ nodesAmong kind others :=
  List.filter_append ..

theorem nodesAmong_cons_leaf {tree : Tree} (leaf : tree.isLeaf = true) (kind : Kind) (trees : List Tree) :
    nodesAmong kind (tree :: trees) = nodesAmong kind trees :=
  List.filter_cons_of_neg (by simp [leaf])

@[simp] theorem nodesAmong_cons_node (kind inner : Kind) (parts trees : List Tree) :
    nodesAmong kind (node inner parts :: trees) =
      if inner = kind then node inner parts :: nodesAmong kind trees else nodesAmong kind trees := by
  simp [nodesAmong, List.filter_cons, Tree.kind, isLeaf]

/-- The leaves of a kind among the parts. -/
def tokensOf (tree : Tree) (kind : Kind) : List Tree :=
  tree.children.filter fun part => part.kind == kind && part.isLeaf

/-- The text of a written name. -/
def nameText (tree : Tree) : Text :=
  (tree.children.filter fun part => !part.kind.isTrivia && part.isLeaf).flatMap text

end Tree

namespace Cursor

/-- The trees of consecutive parts. -/
theorem map_tree_childrenFrom (parent : Cursor) (left : List Tree) (start : Nat) (trees : List Tree) :
    (childrenFrom parent left start trees).map tree = trees := by
  induction trees generalizing left start with
  | nil => rfl
  | cons part right ih =>
      rw [childrenFrom, List.map_cons, ih]
      rfl

/-- The trees of the parts. -/
theorem map_tree_children (c : Cursor) : c.children.map tree = c.tree.children :=
  map_tree_childrenFrom c [] c.start c.tree.children

/-- The trees of some of the parts. -/
theorem map_tree_filter (c : Cursor) (test : Tree → Bool) :
    (c.children.filter fun d => test d.tree).map tree = c.tree.children.filter test := by
  rw [← map_tree_children, List.filter_map]
  rfl

/-- The trees of the nodes of a kind. -/
theorem map_tree_nodesOf (c : Cursor) (kind : Kind) :
    (c.nodesOf kind).map tree = Tree.nodesAmong kind c.tree.children := by
  rw [nodesOf, nodes, List.filter_filter]
  exact c.map_tree_filter fun part => part.kind == kind && !part.isLeaf

/-- The tree of the first node of a kind. -/
theorem map_tree_node? (c : Cursor) (kind : Kind) :
    (c.node? kind).map tree = (Tree.nodesAmong kind c.tree.children).head? := by
  rw [← map_tree_nodesOf, List.head?_map, nodesOf, List.head?_filter]
  rfl

/-- The text of the first leaf of a kind. -/
theorem map_text_token? (c : Cursor) (kind : Kind) :
    (c.token? kind).map text = (c.tree.tokensOf kind).head?.map Tree.text := by
  have trees := c.map_tree_filter fun part => part.kind == kind && part.isLeaf
  have first : c.token? kind = (c.children.filter fun d => d.kind == kind && d.isLeaf).head? := by
    rw [token?, tokens, ← List.head?_filter, List.filter_filter]
  rw [Tree.tokensOf, ← trees, List.head?_map, Option.map_map, first]
  exact Option.map_congr fun d _ => d.text_eq

/-- Whether there is a leaf of a kind. -/
theorem hasToken_eq (c : Cursor) (kind : Kind) :
    c.hasToken kind = c.tree.children.any fun part => part.isLeaf && part.kind == kind := by
  rw [hasToken, tokens, List.any_filter, ← map_tree_children, List.any_map]
  rfl

end Cursor

/-! ## (2) Names and documentation -/

namespace Cursor

/-- The text of a written name. -/
theorem nameText_eq (c : Cursor) : c.nameText = c.tree.nameText := by
  rw [nameText, tokens, List.filter_filter, Tree.nameText, ← map_tree_filter, List.flatMap_map]
  exact List.flatMap_congr fun d _ => d.text_eq

/-- The written names among the parts. -/
theorem map_nameText_names (c : Cursor) :
    c.names.map nameText = (Tree.nodesAmong .nameRef c.tree.children).map Tree.nameText := by
  rw [← map_tree_nodesOf, List.map_map]
  exact List.map_congr_left fun d _ => d.nameText_eq

/-- The written names in nodes. -/
theorem map_nameText_flatMap_names {nodes : List Cursor} {trees : List Tree} (same : nodes.map tree = trees) :
    (nodes.flatMap names).map nameText =
      trees.flatMap fun part => (Tree.nodesAmong .nameRef part.children).map Tree.nameText := by
  rw [List.map_flatMap, ← same, List.flatMap_map]
  exact List.flatMap_congr fun d _ => d.map_nameText_names

/-- Without a comment to the left, nothing is documented. -/
theorem documentationAmong?_eq_none {left : List Tree} (silent : ∀ part ∈ left, part.kind ≠ .docComment) :
    documentationAmong? left = none := by
  fun_induction documentationAmong? left with
  | case1 comment rest | case2 comment rest => exact (silent _ List.mem_cons_self rfl).elim
  | case3 _ rest ih | case4 _ rest ih | case5 _ rest ih | case6 _ rest ih =>
      exact ih fun part mem => silent part (List.mem_cons_of_mem _ mem)
  | case7 => rfl

/-- Without a comment among the parts of a node, none of them is documented. -/
theorem documentation?_of_mem_children {c d : Cursor} (mem : d ∈ c.children)
    (silent : ∀ part ∈ c.tree.children, part.kind ≠ .docComment) : d.documentation? = none := by
  obtain ⟨before, after, all, sides⟩ := exists_sides_of_mem_childrenFrom mem
  refine documentationAmong?_eq_none fun part inLeft => silent part ?_
  rw [sides, List.append_nil, List.mem_reverse] at inLeft
  rw [all]
  exact List.mem_append_left _ inLeft

end Cursor

/-! ## (3) Kinds that do not occur -/

/-- No node has one of the kinds. -/
def Tree.Avoids (kinds : List Kind) (tree : Tree) : Prop := tree.Everywhere fun kind _ => kind ∉ kinds

namespace Tree

variable {kinds : List Kind}

theorem avoids_node {kind : Kind} {parts : List Tree} :
    (node kind parts).Avoids kinds ↔ kind ∉ kinds ∧ ∀ part ∈ parts, part.Avoids kinds := by
  refine ⟨fun avoids => ?_, fun both => .node both.1 both.2⟩
  cases avoids with
  | node here below => exact ⟨here, below⟩

/-- Less is to be avoided. -/
theorem Avoids.mono {few many : List Kind} {tree : Tree} (avoids : tree.Avoids many) (some : few ⊆ many) :
    tree.Avoids few := by
  induction avoids with
  | leaf => exact .leaf
  | node here below ih => exact .node (fun mem => here (some mem)) ih

end Tree

/-- The kinds of class-likes, namespaces and imports. -/
def outerKinds : List Kind := [.classDecl, .interfaceDecl, .traitDecl, .enumDecl, .namespaceDef, .useDecl]

namespace Cursor

variable {c d : Cursor} {kinds : List Kind}

/-- No node below has one of the kinds. -/
theorem kind_notMem (avoids : c.tree.Avoids kinds) (mem : d ∈ c.descendants) : d.kind ∉ kinds := by
  obtain ⟨inElements, node⟩ := List.mem_filter.mp mem
  exact (everywhere_of_mem_elements avoids inElements).here (Bool.not_eq_true' _ ▸ node)

/-- No node of such a kind is found. -/
theorem ofKind_eq_nil (avoids : c.tree.Avoids kinds) {kind : Kind} (listed : kind ∈ kinds) :
    c.ofKind kind = [] :=
  List.filter_eq_nil_iff.mpr fun _ mem same => kind_notMem avoids mem (beq_iff_eq.mp same ▸ listed)

/-- The class-likes below a cursor are the cursor itself, if it is one, and those below the parts. -/
theorem classLikes_eq (c : Cursor) :
    c.classLikes = ([c].filter fun d => d.kind.isClassLike && !d.isLeaf) ++ c.children.flatMap classLikes := by
  rw [classLikes, descendants, List.filter_filter, elements_eq, ← List.singleton_append, List.filter_append,
    List.filter_flatMap]
  refine congrArg _ (List.flatMap_congr fun d _ => ?_)
  rw [classLikes, descendants, List.filter_filter]

/-- Where there is no node of these kinds, there is no class-like. -/
theorem classLikes_eq_nil (avoids : c.tree.Avoids outerKinds) : c.classLikes = [] := by
  refine List.filter_eq_nil_iff.mpr fun d mem isClassLike => kind_notMem avoids mem ?_
  revert isClassLike
  generalize d.kind = kind
  cases kind <;> decide

/-- No class-like begins at a leaf. -/
theorem flatMap_classLikes_cons {t : Tree} (leaf : t.isLeaf = true) (parent : Cursor) (left : List Tree)
    (start : Nat) (trees : List Tree) :
    (childrenFrom parent left start (t :: trees)).flatMap classLikes =
      (childrenFrom parent (t :: left) (start + t.length) trees).flatMap classLikes := by
  have avoids : t.Avoids outerKinds := by
    cases t with
    | leaf kind text => exact .leaf
    | node kind parts => cases leaf
  have none : classLikes (child parent left t trees start (start + t.length)) = [] := classLikes_eq_nil avoids
  rw [childrenFrom, List.flatMap_cons, none, List.nil_append]

end Cursor

end PhpMembers
