import PhpMembers.Syntax.Tree

/-! # The leaves of a syntax tree

The leaves and the text of a list of trees are those of the trees one after the other, and the length of a
tree is that of its text.

* `Tree.leavesOfAll_append`, `Tree.leavesOfAll_eq_flatMap` : the leaves of several trees.
* `Tree.textOfAll` : the text of several trees.
* `Tree.length_eq`, `Tree.lengthOfAll_append` : lengths are those of texts, and those of several trees add up. -/

namespace PhpMembers

namespace Tree

@[simp] theorem leaves_leaf (kind : Kind) (text : Text) : (leaf kind text).leaves = [(kind, text)] := by
  rw [leaves]

@[simp] theorem leaves_node (kind : Kind) (children : List Tree) :
    (node kind children).leaves = leavesOfAll children := by
  rw [leaves]

@[simp] theorem leavesOfAll_nil : leavesOfAll [] = [] := by
  rw [leavesOfAll]

@[simp] theorem leavesOfAll_cons (tree : Tree) (trees : List Tree) :
    leavesOfAll (tree :: trees) = tree.leaves ++ leavesOfAll trees := by
  rw [leavesOfAll]

/-- The leaves of several trees are those of each in turn. -/
theorem leavesOfAll_eq_flatMap (trees : List Tree) : leavesOfAll trees = trees.flatMap leaves := by
  induction trees with
  | nil => rw [leavesOfAll_nil, List.flatMap_nil]
  | cons tree trees ih => rw [leavesOfAll_cons, List.flatMap_cons, ih]

@[simp] theorem leavesOfAll_append (trees others : List Tree) :
    leavesOfAll (trees ++ others) = leavesOfAll trees ++ leavesOfAll others := by
  rw [leavesOfAll_eq_flatMap, leavesOfAll_eq_flatMap, leavesOfAll_eq_flatMap, List.flatMap_append]

/-- The text of several trees. -/
def textOfAll (trees : List Tree) : Text := (leavesOfAll trees).flatMap (·.2)

@[simp] theorem text_leaf (kind : Kind) (text : Text) : (leaf kind text).text = text := by
  rw [Tree.text, leaves_leaf, List.flatMap_singleton]

@[simp] theorem text_node (kind : Kind) (children : List Tree) :
    (node kind children).text = textOfAll children := by
  rw [Tree.text, leaves_node, textOfAll]

@[simp] theorem textOfAll_nil : textOfAll [] = [] := by
  rw [textOfAll, leavesOfAll_nil, List.flatMap_nil]

@[simp] theorem textOfAll_cons (tree : Tree) (trees : List Tree) :
    textOfAll (tree :: trees) = tree.text ++ textOfAll trees := by
  rw [textOfAll, leavesOfAll_cons, List.flatMap_append, Tree.text, textOfAll]

mutual

/-- The length of a tree is that of its text. -/
theorem length_eq : ∀ tree : Tree, tree.length = utf8Length tree.text
  | leaf kind text => by rw [length, text_leaf]
  | node kind children => by rw [length, text_node, lengthOfAll_eq]

/-- The length of several trees is that of their text. -/
theorem lengthOfAll_eq : ∀ trees : List Tree, lengthOfAll trees = utf8Length (textOfAll trees)
  | [] => by rw [lengthOfAll, textOfAll_nil, utf8Length_nil]
  | tree :: trees => by
      rw [lengthOfAll, textOfAll_cons, utf8Length_append, length_eq tree, lengthOfAll_eq trees]

end

/-- The length of several trees is that of each in turn. -/
theorem lengthOfAll_append (trees others : List Tree) :
    lengthOfAll (trees ++ others) = lengthOfAll trees + lengthOfAll others := by
  induction trees with
  | nil => rw [List.nil_append, lengthOfAll, Nat.zero_add]
  | cons tree trees ih => rw [List.cons_append, lengthOfAll, ih, lengthOfAll, Nat.add_assoc]

end Tree

end PhpMembers
