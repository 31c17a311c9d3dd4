import PhpMembers.Syntax.Tree

/-! # Places in a syntax tree

A cursor is a tree together with its place in a larger one: the node it is a part of, its siblings on
either side and its offsets. From a cursor one can go down, up and sideways. Leaves have cursors, too.

* `Cursor` : places; `Cursor.parent?`, `Cursor.ancestors` lead up.
* `Cursor.children`, `Cursor.nodes`, `Cursor.tokens` : the parts of a node.
* `Cursor.elements`, `Cursor.descendants` : everything below a node, from left to right, each node before
  its parts.
* `Cursor.elementsWithin` : the same without what lies in nodes of certain kinds.
* `Cursor.leafEndingAt?` : the leaf that ends at an offset.
-/

namespace PhpMembers

/-- A place in a syntax tree. -/
inductive Cursor
  /-- The whole tree, which begins at offset `0`. -/
  | root (tree : Tree)
  /-- A part of the node at `parent`: the parts to its left (nearest first), the part itself, the parts to
  its right, and the offsets between which it lies. -/
  | child (parent : Cursor) (left : List Tree) (tree : Tree) (right : List Tree) (start stop : Nat)

namespace Cursor

/-- The tree at the cursor. -/
def tree : Cursor → Tree
  | root tree => tree
  | child _ _ tree _ _ _ => tree

/-- The kind of the tree at the cursor. -/
def kind (c : Cursor) : Kind := c.tree.kind

/-- Whether the cursor is at a leaf. -/
def isLeaf (c : Cursor) : Bool := c.tree.isLeaf

/-- The text at the cursor. -/
def text (c : Cursor) : Text :=
  match c.tree with
  | .leaf _ text => text
  | tree => tree.text

/-- The offset of the first byte. -/
def start : Cursor → Nat
  | root _ => 0
  | child _ _ _ _ start _ => start

/-- The offset after the last byte. -/
def stop : Cursor → Nat
  | root tree => tree.length
  | child _ _ _ _ _ stop => stop

/-- The range of bytes at the cursor. -/
def span (c : Cursor) : Span := ⟨c.start, c.stop⟩

/-- The node that the cursor is a part of. -/
def parent? : Cursor → Option Cursor
  | root _ => none
  | child parent _ _ _ _ _ => some parent

/-- The parts of the same node to the left, nearest first. -/
def left : Cursor → List Tree
  | root _ => []
  | child _ left _ _ _ _ => left

/-- The cursor itself and the nodes around it, from the inside to the outside. -/
def ancestors : Cursor → List Cursor
  | root tree => [root tree]
  | child parent left tree right start stop =>
    child parent left tree right start stop :: parent.ancestors

/-- The outermost node. -/
def top : Cursor → Cursor
  | root tree => root tree
  | child parent _ _ _ _ _ => parent.top

/-! ## Going down -/

/-- Cursors for consecutive parts of a node, from the offset at which they begin. -/
def childrenFrom (parent : Cursor) (left : List Tree) (start : Nat) : List Tree → List Cursor
  | [] => []
  | tree :: right =>
    let stop := start + tree.length
    child parent left tree right start stop :: childrenFrom parent (tree :: left) stop right

/-- The parts of the node. -/
def children (c : Cursor) : List Cursor := childrenFrom c [] c.start c.tree.children

/-- The parts that are nodes. -/
def nodes (c : Cursor) : List Cursor := c.children.filter fun d => !d.isLeaf

/-- The parts that are leaves. -/
def tokens (c : Cursor) : List Cursor := c.children.filter isLeaf

/-- The cursors of the parts to the right, nearest first. -/
def following : Cursor → List Cursor
  | root _ => []
  | child parent left tree right _ stop => childrenFrom parent (tree :: left) stop right

/-- The first leaf of a kind among the parts. -/
def token? (c : Cursor) (kind : Kind) : Option Cursor := c.tokens.find? (·.kind == kind)

/-- Whether there is a leaf of a kind among the parts. -/
def hasToken (c : Cursor) (kind : Kind) : Bool := c.tokens.any (·.kind == kind)

/-- The first node of a kind among the parts. -/
def node? (c : Cursor) (kind : Kind) : Option Cursor := c.nodes.find? (·.kind == kind)

/-- The nodes of a kind among the parts. -/
def nodesOf (c : Cursor) (kind : Kind) : List Cursor := c.nodes.filter (·.kind == kind)

mutual

/-- A cursor at `tree` and everything below it, except the parts whose kind is not to be entered. -/
def walk (enter : Kind → Bool) : Tree → Cursor → List Cursor
  | .leaf _ _, c => [c]
  | .node _ children, c => c :: walkAll enter children c [] c.start

/-- The same for consecutive parts of a node. -/
def walkAll (enter : Kind → Bool) : List Tree → Cursor → List Tree → Nat → List Cursor
  | [], _, _, _ => []
  | tree :: right, parent, left, start =>
    let stop := start + tree.length
    let rest := walkAll enter right parent (tree :: left) stop
    if enter tree.kind then walk enter tree (child parent left tree right start stop) ++ rest else rest

end

/-- The cursor and what lies below it, without the parts whose kind fails the test and what lies below
those. -/
def elementsWithin (c : Cursor) (enter : Kind → Bool) : List Cursor := walk enter c.tree c

/-- The cursor and everything below it. -/
def elements (c : Cursor) : List Cursor := c.elementsWithin fun _ => true

/-- The nodes among the elements. -/
def descendants (c : Cursor) : List Cursor := c.elements.filter fun d => !d.isLeaf

mutual

/-- The leaf of `tree` that ends at the offset, when the cursor is at `tree`. -/
def leafEnding? (offset : Nat) : Tree → Cursor → Option Cursor
  | .leaf _ _, c => if c.stop = offset then some c else none
  | .node _ children, c => leafEndingAmong? offset children c [] c.start

/-- The same for consecutive parts of a node. -/
def leafEndingAmong? (offset : Nat) : List Tree → Cursor → List Tree → Nat → Option Cursor
  | [], _, _, _ => none
  | tree :: right, parent, left, start =>
    let stop := start + tree.length
    if start < offset ∧ offset ≤ stop then
      leafEnding? offset tree (child parent left tree right start stop)
    else leafEndingAmong? offset right parent (tree :: left) stop

end

/-- The leaf that is not empty and ends at the offset, if there is one. -/
def leafEndingAt? (c : Cursor) (offset : Nat) : Option Cursor :=
  if c.start < offset then leafEnding? offset c.tree c else none

end Cursor

end PhpMembers
