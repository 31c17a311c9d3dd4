import PhpMembers.Syntax.Token

/-! # Syntax trees

A tree keeps every token of the source, trivia included, so its text is the source. A node may be empty:
it then stands for something that is missing.

* `Tree` : leaves and nodes.
* `Tree.text`, `Tree.length` : the text below a tree and its length in bytes.
* `Tree.leaves` : the leaves from left to right.
-/

namespace PhpMembers

/-- A concrete syntax tree. -/
inductive Tree
  /-- A token. -/
  | leaf (kind : Kind) (text : Text)
  /-- A construct with its parts in order. -/
  | node (kind : Kind) (children : List Tree)
deriving Inhabited

namespace Tree

/-- The kind of a leaf or node. -/
def kind : Tree → Kind
  | leaf kind _ => kind
  | node kind _ => kind

/-- The parts of a node; a leaf has none. -/
def children : Tree → List Tree
  | leaf _ _ => []
  | node _ children => children

/-- Whether the tree is a leaf. -/
def isLeaf : Tree → Bool
  | leaf _ _ => true
  | node _ _ => false

mutual

/-- The leaves from left to right, as pairs of kind and text. -/
def leaves : Tree → List (Kind × Text)
  | leaf kind text => [(kind, text)]
  | node _ children => leavesOfAll children

/-- The leaves of several trees. -/
def leavesOfAll : List Tree → List (Kind × Text)
  | [] => []
  | tree :: trees => leaves tree ++ leavesOfAll trees

end

mutual

/-- The length of the text in bytes. -/
def length : Tree → Nat
  | leaf _ text => utf8Length text
  | node _ children => lengthOfAll children

/-- The length in bytes of the text of several trees. -/
def lengthOfAll : List Tree → Nat
  | [] => 0
  | tree :: trees => length tree + lengthOfAll trees

end

/-- The text of a tree. -/
def text (tree : Tree) : Text := tree.leaves.flatMap (·.2)

end Tree

end PhpMembers
