import Mathlib.Data.List.Forall2
import PhpMembers.Proofs.Source.Imports
import PhpMembers.Proofs.Syntax.Applied

/-! # Trees in which one node is replaced

Another tree is put in the place of one node. All other places stay as they are, apart from their offsets: what ends
in front of the node keeps its offsets, and what begins behind it moves with the end of the node. Nodes around the
replaced one keep their tokens, and the parts in which they differ are the replaced nodes themselves.

* `Tree.Alike`, `Tree.Exchangeable` : trees that differ in one node only.
* `Cursor.bindings_of_alike` : use declarations that are alike bind the same.
* `Cursor.replaced` : the place of the other tree.
* `Moved` : offsets outside of the node.
* `Cursor.Beside`, `Cursor.exists_elements_replaced` : the places outside of the node correspond. -/

namespace PhpMembers

/-! ## (1) Trees that differ in one node -/

namespace Tree

/-- `Alike old new tree tree'`: the second tree is the first one, or has `new` in one place of `old`. -/
inductive Alike (old new : Tree) : Tree → Tree → Prop
  /-- The replaced node is not in it. -/
  | same (tree : Tree) : Alike old new tree tree
  /-- It is the replaced node. -/
  | here : Alike old new old new
  /-- The replaced node is in one of its parts. -/
  | inside {kind : Kind} {left right : List Tree} {tree tree' : Tree} (below : Alike old new tree tree') :
      Alike old new (.node kind (left ++ tree :: right)) (.node kind (left ++ tree' :: right))

/-- Nodes of the same kind. -/
structure Exchangeable (old new : Tree) : Prop where
  /-- The kind is kept. -/
  kind : new.kind = old.kind
  /-- What is replaced is no token. -/
  node : old.isLeaf = false
  /-- Neither is what stands in its place. -/
  node' : new.isLeaf = false

mutual

/-- Whether two trees are the same. -/
def decideEq : (tree tree' : Tree) → Decidable (tree = tree')
  | leaf kind text, leaf kind' text' => decidable_of_iff (kind = kind' ∧ text = text') (by rw [leaf.injEq])
  | node kind parts, node kind' parts' =>
    match decideEqAll parts parts' with
    | isTrue same => decidable_of_iff (kind = kind') (by rw [node.injEq, and_iff_left same])
    | isFalse differ => isFalse fun same => differ (node.inj same).2
  | leaf _ _, node _ _ => isFalse Tree.noConfusion
  | node _ _, leaf _ _ => isFalse Tree.noConfusion

/-- Whether two lists of trees are the same. -/
def decideEqAll : (trees trees' : List Tree) → Decidable (trees = trees')
  | [], [] => isTrue rfl
  | tree :: right, tree' :: right' =>
    match decideEq tree tree', decideEqAll right right' with
    | isTrue first, isTrue rest => isTrue (by rw [first, rest])
    | isFalse differ, _ => isFalse fun same => differ (List.cons.inj same).1
    | _, isFalse differ => isFalse fun same => differ (List.cons.inj same).2
  | [], _ :: _ => isFalse (List.cons_ne_nil _ _).symm
  | _ :: _, [] => isFalse (List.cons_ne_nil _ _)

end

instance : DecidableEq Tree := decideEq

variable {old new tree tree' : Tree} {trees trees' : List Tree}

namespace Alike

theorem kind_eq (fit : Exchangeable old new) (alike : Alike old new tree tree') : tree'.kind = tree.kind := by
  cases alike with
  | same => rfl
  | here => exact fit.kind
  | inside => rfl

theorem isLeaf_eq (fit : Exchangeable old new) (alike : Alike old new tree tree') : tree'.isLeaf = tree.isLeaf := by
  cases alike with
  | same => rfl
  | here => exact fit.node'.trans fit.node.symm
  | inside => rfl

theorem eq_of_isLeaf (fit : Exchangeable old new) (alike : Alike old new tree tree') (leaf : tree.isLeaf = true) :
    tree' = tree := by
  cases alike with
  | same => rfl
  | here => exact absurd (leaf.symm.trans fit.node) (by decide)
  | inside => cases leaf

/-- The parts of a tree with another kind are alike in turn. -/
theorem children (alike : Alike old new tree tree') (other : tree.kind ≠ old.kind) :
    List.Forall₂ (Alike old new) tree.children tree'.children := by
  cases alike with
  | same => exact List.forall₂_same.mpr fun part _ => .same part
  | here => exact absurd rfl other
  | inside below =>
      refine List.rel_append (List.forall₂_same.mpr fun part _ => .same part) (.cons below ?_)
      exact List.forall₂_same.mpr fun part _ => .same part

end Alike

/-- The tokens are the same. -/
theorem filter_isLeaf_of_alike (fit : Exchangeable old new) (alike : List.Forall₂ (Alike old new) trees trees') :
    trees'.filter isLeaf = trees.filter isLeaf := by
  induction alike with
  | nil => rfl
  | @cons tree tree' _ _ first _ ih =>
      by_cases leaf : tree.isLeaf = true
      · rw [first.eq_of_isLeaf fit leaf, List.filter_cons_of_pos leaf, List.filter_cons_of_pos leaf, ih]
      · rw [List.filter_cons_of_neg leaf, List.filter_cons_of_neg (first.isLeaf_eq fit ▸ leaf), ih]

/-- The nodes of a kind correspond. -/
theorem nodesAmong_of_alike (fit : Exchangeable old new) (alike : List.Forall₂ (Alike old new) trees trees')
    (kind : Kind) : List.Forall₂ (Alike old new) (nodesAmong kind trees) (nodesAmong kind trees') := by
  refine List.rel_filter (fun tree tree' alike => ?_) alike
  beta_reduce
  rw [alike.kind_eq fit, alike.isLeaf_eq fit]

/-- Names that are alike are spelled the same. -/
theorem nameText_of_alike (fit : Exchangeable old new) (alike : Alike old new tree tree')
    (other : tree.kind ≠ old.kind) : tree'.nameText = tree.nameText := by
  rw [nameText, ← List.filter_filter, filter_isLeaf_of_alike fit (alike.children other), List.filter_filter, nameText]

end Tree

/-! ## (2) What is read from places that are alike -/

namespace Cursor

open PhpMembers.Tree (Alike Exchangeable)

variable {old new : Tree} {d d' : Cursor}

theorem map_tree_tokens_of_alike (fit : Exchangeable old new) (alike : Alike old new d.tree d'.tree)
    (other : d.kind ≠ old.kind) : d'.tokens.map tree = d.tokens.map tree := by
  have read (c : Cursor) : c.tokens.map tree = c.tree.children.filter Tree.isLeaf := c.map_tree_filter Tree.isLeaf
  rw [read, read, Tree.filter_isLeaf_of_alike fit (alike.children other)]

theorem hasToken_of_alike (fit : Exchangeable old new) (alike : Alike old new d.tree d'.tree)
    (other : d.kind ≠ old.kind) (kind : Kind) : d'.hasToken kind = d.hasToken kind := by
  have read (c : Cursor) : c.hasToken kind = (c.tokens.map tree).any fun part => part.kind == kind := by
    rw [List.any_map]
    rfl
  rw [read, read, map_tree_tokens_of_alike fit alike other]

theorem map_text_alias?_of_alike (fit : Exchangeable old new) (alike : Alike old new d.tree d'.tree)
    (other : d.kind ≠ old.kind) : d'.alias?.map text = d.alias?.map text := by
  have read (c : Cursor) : c.alias?.map text =
      (((c.tokens.map tree).dropWhile fun part => part.kind != .asKw).find? fun part => part.kind == .ident).map
        Tree.text := by
    rw [List.dropWhile_map, List.find?_map, Option.map_map, alias?]
    exact Option.map_congr fun token _ => token.text_eq
  rw [read, read, map_tree_tokens_of_alike fit alike other]

/-- What is read in the same way from parts that are alike is the same for all parts of a kind. -/
theorem map_nodesOf_of_alike {β : Type} (fit : Exchangeable old new) (alike : Alike old new d.tree d'.tree)
    (other : d.kind ≠ old.kind) {kind : Kind} {f : Cursor → β}
    (same : ∀ part part' : Cursor, part.kind = kind → Alike old new part.tree part'.tree → f part' = f part) :
    (d'.nodesOf kind).map f = (d.nodesOf kind).map f := by
  have parts := Tree.nodesAmong_of_alike fit (alike.children other) kind
  rw [← map_tree_nodesOf, ← map_tree_nodesOf, List.forall₂_map_left_iff, List.forall₂_map_right_iff] at parts
  have kinds : ∀ part ∈ d.nodesOf kind, part.kind = kind := fun part mem => (parent?_of_mem_nodesOf mem).2
  revert parts kinds
  generalize d.nodesOf kind = found
  generalize d'.nodesOf kind = found'
  intro parts kinds
  induction parts with
  | nil => rfl
  | cons first _ ih =>
      obtain ⟨isKind, kinds⟩ := List.forall_mem_cons.mp kinds
      rw [List.map_cons, List.map_cons, same _ _ isKind first, ih kinds]

theorem isSome_block?_of_alike (fit : Exchangeable old new) (alike : Alike old new d.tree d'.tree)
    (other : d.kind ≠ old.kind) : d'.block?.isSome = d.block?.isSome := by
  have read (c : Cursor) : c.block?.isSome = ((c.nodesOf .block).map fun _ => ()).head?.isSome := by
    rw [List.head?_map, Option.isSome_map, nodesOf, List.head?_filter]
    rfl
  rw [read, read, map_nodesOf_of_alike fit alike other fun _ _ _ _ => rfl]

section

variable (fit : Exchangeable old new) (isClassLike : old.kind.isClassLike = true)

include isClassLike in
/-- Other nodes than class-likes are not replaced. -/
theorem ne_of_kind {kind : Kind} (isKind : d.kind = kind) (plain : kind.isClassLike = false) : d.kind ≠ old.kind := by
  intro same
  rw [← same, isKind, plain] at isClassLike
  cases isClassLike

include fit isClassLike

theorem map_nameText_name?_of_alike (alike : Alike old new d.tree d'.tree) (other : d.kind ≠ old.kind) :
    d'.name?.map nameText = d.name?.map nameText := by
  have read (c : Cursor) : c.name?.map nameText = ((c.nodesOf .nameRef).map nameText).head? := by
    rw [List.head?_map, nodesOf, List.head?_filter]
    rfl
  rw [read, read, map_nodesOf_of_alike fit alike other fun part part' isName alike => ?_]
  rw [nameText_eq, nameText_eq, Tree.nameText_of_alike fit alike (ne_of_kind isClassLike isName rfl)]

theorem plainName?_of_alike (alike : Alike old new d.tree d'.tree) (other : d.kind ≠ old.kind) :
    d'.plainName? = d.plainName? := by
  have read (c : Cursor) : c.plainName? = (c.name?.map nameText).map (dropLeading '\\') := by
    rw [plainName?, Option.map_map]
    rfl
  rw [read, read, map_nameText_name?_of_alike fit isClassLike alike other]

theorem importedAs?_of_alike (alike : Alike old new d.tree d'.tree) (other : d.kind ≠ old.kind) :
    d'.importedAs? = d.importedAs? := by
  have read (c : Cursor) : c.importedAs? = (c.alias?.map text).or ((c.name?.map nameText).map lastSegment) := by
    rw [importedAs?, Option.map_map]
    cases c.alias? with
    | none => rfl
    | some token => rfl
  rw [read, read, map_text_alias?_of_alike fit alike other, map_nameText_name?_of_alike fit isClassLike alike other]

theorem filterMap_binding?_of_alike (alike : Alike old new d.tree d'.tree) (other : d.kind ≠ old.kind)
    (common : Option Text) :
    (d'.nodesOf .useClause).filterMap (binding? common) = (d.nodesOf .useClause).filterMap (binding? common) := by
  have read (c : Cursor) : (c.nodesOf .useClause).filterMap (binding? common) =
      ((c.nodesOf .useClause).map (binding? common)).filterMap id := by
    rw [List.filterMap_map]
    rfl
  rw [read, read, map_nodesOf_of_alike fit alike other fun clause clause' isClause alike => ?_]
  have other := ne_of_kind isClassLike isClause rfl
  rw [binding?, plainName?_of_alike fit isClassLike alike other, importedAs?_of_alike fit isClassLike alike other,
    binding?]

/-- **Use declarations that are alike bind the same.** -/
theorem bindings_of_alike (alike : Alike old new d.tree d'.tree) (other : d.kind ≠ old.kind) :
    d'.bindings = d.bindings := by
  let grouped (group : Cursor) : List (Text × Text) :=
    (group.nodesOf .useClause).filterMap (binding? (some group.commonPart))
  have groups : (d'.nodesOf .useGroup).map grouped = (d.nodesOf .useGroup).map grouped := by
    refine map_nodesOf_of_alike fit alike other fun group group' isGroup alike => ?_
    have other := ne_of_kind isClassLike isGroup rfl
    simp only [grouped, commonPart, plainName?_of_alike fit isClassLike alike other,
      filterMap_binding?_of_alike fit isClassLike alike other]
  rw [PhpMembers.Cursor.bindings, importsClasses, hasToken_of_alike fit alike other, hasToken_of_alike fit alike other,
    filterMap_binding?_of_alike fit isClassLike alike other, List.flatMap_def, groups]
  rfl

end

/-! ## (3) The place of the other tree -/

/-- The place of `c` in the tree in which another tree stands there. -/
def replaced : Cursor → Tree → Cursor
  | root _, new => root new
  | child parent left _ right start _, new =>
    child (parent.replaced (.node parent.kind (left.reverse ++ new :: right))) left new right start
      (start + new.length)

@[simp] theorem tree_replaced (c : Cursor) (new : Tree) : (c.replaced new).tree = new := by
  cases c <;> rfl

@[simp] theorem start_replaced (c : Cursor) (new : Tree) : (c.replaced new).start = c.start := by
  cases c <;> rfl

/-- The outermost node is a whole tree. -/
theorem top_eq (c : Cursor) : c.top = root c.top.tree := by
  induction c with
  | root tree => rfl
  | child parent left tree right start stop ih => exact ih

/-- The other tree ends where its length says. -/
theorem stop_replaced {tree : Tree} {c : Cursor} (mem : c ∈ (root tree).elements) (new : Tree) :
    (c.replaced new).stop = c.start + new.length := by
  cases c with
  | root tree => exact (Nat.zero_add _).symm
  | child parent left tree right start stop => rfl

end Cursor

/-! ## (4) Places outside of the node -/

/-- `Moved a b b' o o'`: the offsets are at the same place outside of a part that lies between `a` and `b` in the one
text and between `a` and `b'` in the other one. -/
inductive Moved (a b b' : Nat) : Nat → Nat → Prop
  /-- In front of the part nothing moves. -/
  | before {o : Nat} (le : o ≤ a) : Moved a b b' o o
  /-- What is behind the part moves with its end. -/
  | behind (k : Nat) : Moved a b b' (b + k) (b' + k)

/-- What is outside of a part is outside of the parts of this part. -/
theorem Moved.inner {a b b' o o' start stop stop' : Nat} (moved : Moved a b b' o o') (starts : a ≤ start)
    {rest : Nat} (stops : b = stop + rest) (stops' : b' = stop' + rest) : Moved start stop stop' o o' := by
  cases moved with
  | before le => exact .before (le.trans starts)
  | behind k =>
      rw [stops, stops', Nat.add_assoc, Nat.add_assoc]
      exact .behind (rest + k)

/-- What is different in a part is different in the whole. -/
theorem Tree.Alike.outer {old new tree tree' : Tree} {kind : Kind} {left right : List Tree}
    (alike : Alike (.node kind (left ++ old :: right)) (.node kind (left ++ new :: right)) tree tree') :
    Alike old new tree tree' := by
  generalize outer : Tree.node kind (left ++ old :: right) = whole at alike
  generalize outer' : Tree.node kind (left ++ new :: right) = whole' at alike
  induction alike with
  | same tree => exact .same tree
  | here =>
      rw [← outer, ← outer']
      exact .inside .here
  | inside _ ih => exact .inside ih

namespace Cursor

mutual

/-- The places in a tree are the same wherever it stands, apart from their offsets. -/
theorem forall₂_walk {M : Nat → Nat → Prop} : ∀ (tree : Tree) (c c' : Cursor), c.tree = tree → c'.tree = tree →
    c.stop = c.start + tree.length → c'.stop = c'.start + tree.length →
    (∀ k ≤ tree.length, M (c.start + k) (c'.start + k)) →
    List.Forall₂ (fun d d' => d'.tree = d.tree ∧ M d.start d'.start ∧ M d.stop d'.stop)
      (walk (fun _ => true) tree c) (walk (fun _ => true) tree c')
  | .leaf kind text, c, c', isTree, isTree', ends, ends', moved => by
      rw [walk, walk]
      refine .cons ⟨isTree'.trans isTree.symm, moved 0 (Nat.zero_le _), ?_⟩ .nil
      rw [ends, ends']
      exact moved _ (Nat.le_refl _)
  | .node kind parts, c, c', isTree, isTree', ends, ends', moved => by
      rw [walk, walk]
      refine .cons ⟨isTree'.trans isTree.symm, moved 0 (Nat.zero_le _), ?_⟩ ?_
      · rw [ends, ends']
        exact moved _ (Nat.le_refl _)
      · exact forall₂_walkAll parts c c' [] [] c.start c'.start fun k le => moved k (by rwa [Tree.length])

/-- So are the places in the parts of a node. -/
theorem forall₂_walkAll {M : Nat → Nat → Prop} : ∀ (trees : List Tree) (c c' : Cursor) (left left' : List Tree)
    (start start' : Nat), (∀ k ≤ Tree.lengthOfAll trees, M (start + k) (start' + k)) →
    List.Forall₂ (fun d d' => d'.tree = d.tree ∧ M d.start d'.start ∧ M d.stop d'.stop)
      (walkAll (fun _ => true) trees c left start) (walkAll (fun _ => true) trees c' left' start')
  | [], c, c', left, left', start, start', moved => by
      rw [walkAll, walkAll]
      exact .nil
  | tree :: right, c, c', left, left', start, start', moved => by
      rw [Tree.lengthOfAll] at moved
      rw [walkAll, walkAll]
      refine List.rel_append (forall₂_walk tree _ _ rfl rfl rfl rfl fun k le => moved k (by omega)) ?_
      refine forall₂_walkAll right c c' _ _ _ _ fun k le => ?_
      rw [Nat.add_assoc, Nat.add_assoc]
      exact moved _ (by omega)

end

/-- `Beside old new a b b' d d'`: the places correspond outside of the part. -/
structure Beside (old new : Tree) (a b b' : Nat) (d d' : Cursor) : Prop where
  /-- Their trees differ at most in the part. -/
  alike : Tree.Alike old new d.tree d'.tree
  /-- They begin in the same place. -/
  start : Moved a b b' d.start d'.start
  /-- They end in the same place. -/
  stop : Moved a b b' d.stop d'.stop

/-- Parts are the same beside another one. -/
theorem exists_walkAll_around {old new : Tree} (after : List Tree) (c c' : Cursor) {a : Nat} (before left : List Tree)
    {start : Nat} (starts : a = start + Tree.lengthOfAll before) :
    ∃ front back front' back',
      walkAll (fun _ => true) (before ++ old :: after) c left start =
        front ++ ((child c (before.reverse ++ left) old after a (a + old.length)).elements ++ back) ∧
      walkAll (fun _ => true) (before ++ new :: after) c' left start =
        front' ++ ((child c' (before.reverse ++ left) new after a (a + new.length)).elements ++ back') ∧
      List.Forall₂ (Beside old new a (a + old.length) (a + new.length)) front front' ∧
      List.Forall₂ (Beside old new a (a + old.length) (a + new.length)) back back' := by
  have beside {ds ds' : List Cursor} (same : List.Forall₂ (fun d d' : Cursor => d'.tree = d.tree ∧
      Moved a (a + old.length) (a + new.length) d.start d'.start ∧
      Moved a (a + old.length) (a + new.length) d.stop d'.stop) ds ds') :
      List.Forall₂ (Beside old new a (a + old.length) (a + new.length)) ds ds' :=
    same.imp fun d d' ⟨tree, starts, stops⟩ => ⟨tree ▸ .same _, starts, stops⟩
  -- The parts in front keep their places, those behind move by the difference of the lengths.
  induction before generalizing left start with
  | nil =>
      obtain rfl : a = start := starts
      refine ⟨[], _, [], _, ?_, ?_, .nil, beside (forall₂_walkAll after c c' (old :: left) (new :: left) _ _
        fun k _ => .behind k)⟩
      · rw [List.nil_append, walkAll, if_pos rfl]
        rfl
      · rw [List.nil_append, walkAll, if_pos rfl]
        rfl
  | cons tree before ih =>
      rw [Tree.lengthOfAll, ← Nat.add_assoc] at starts
      obtain ⟨front, back, front', back', here, here', inFront, behind⟩ := ih (tree :: left) starts
      have first := forall₂_walk tree (child c left tree (before ++ old :: after) start (start + tree.length))
        (child c' left tree (before ++ new :: after) start (start + tree.length)) rfl rfl rfl rfl
        fun k le => @Moved.before a (a + old.length) (a + new.length) _ (show start + k ≤ a by omega)
      refine ⟨_, back, _, back', ?_, ?_, List.rel_append (beside first) inFront, behind⟩
      · rw [List.cons_append, walkAll, if_pos rfl, here, List.append_assoc, List.reverse_cons, List.append_assoc]
        rfl
      · rw [List.cons_append, walkAll, if_pos rfl, here', List.append_assoc, List.reverse_cons, List.append_assoc]
        rfl

/-- The length of the parts of a node. -/
theorem lengthOfAll_around (before after : List Tree) (tree : Tree) :
    Tree.lengthOfAll (before ++ tree :: after) =
      Tree.lengthOfAll before + tree.length + Tree.lengthOfAll after := by
  rw [Tree.lengthOfAll_append, Tree.lengthOfAll, Nat.add_assoc]

/-- A part of a node in a tree, and its place. -/
theorem child_of_mem_elements {whole : Tree} {parent : Cursor} {left : List Tree} {tree : Tree} {right : List Tree}
    {start stop : Nat} (mem : child parent left tree right start stop ∈ (root whole).elements) :
    parent ∈ (root whole).elements ∧ parent.tree = .node parent.kind (left.reverse ++ tree :: right) ∧
      start = parent.start + Tree.lengthOfAll left.reverse ∧ stop = start + tree.length := by
  obtain ⟨parentInFile, part⟩ := mem_elements_of_parent? mem rfl
  obtain ⟨before, after, parts, same, begins⟩ := exists_eq_child_of_mem_children part
  obtain ⟨-, -, -, -, ends⟩ := text_of_mem_childrenFrom part
  obtain ⟨rfl, rfl⟩ : before.reverse = left ∧ after = right := by
    injection same with _ isLeft _ isRight
    exact ⟨isLeft.symm, isRight.symm⟩
  rw [List.reverse_reverse]
  refine ⟨parentInFile, ?_, begins.trans (by rw [Tree.lengthOfAll_eq]), ends.trans (by rw [Tree.length_eq]; rfl)⟩
  cases node : parent.tree with
  | leaf kind text =>
      rw [node] at parts
      exact absurd parts.symm (List.append_ne_nil_of_right_ne_nil _ (List.cons_ne_nil _ _))
  | node kind all =>
      rw [node] at parts
      rw [Cursor.kind, node]
      exact congrArg (Tree.node kind) parts

/-- **Outside of a replaced node the places of both trees correspond.** -/
theorem exists_elements_replaced {whole : Tree} {c : Cursor} (mem : c ∈ (root whole).elements) (new : Tree) :
    ∃ front back front' back', (root whole).elements = front ++ (c.elements ++ back) ∧
      (c.replaced new).top.elements = front' ++ ((c.replaced new).elements ++ back') ∧
      List.Forall₂ (Beside c.tree new c.start c.stop (c.replaced new).stop) front front' ∧
      List.Forall₂ (Beside c.tree new c.start c.stop (c.replaced new).stop) back back' := by
  -- From the place upwards: to replace a node is to replace its parent by a node with the new part.
  induction c generalizing new with
  | root tree =>
      have atTop : root tree = root whole := by
        by_contra below
        obtain ⟨parent, -, part⟩ := exists_parent_of_mem_elements mem below
        cases parent?_of_mem_children part
      refine ⟨[], [], [], [], ?_, ?_, .nil, .nil⟩
      · rw [atTop, List.append_nil, List.nil_append]
      · rw [List.append_nil, List.nil_append]
        rfl
  | child parent left tree right start stop ih =>
      obtain ⟨parentInFile, node, starts, rfl⟩ := child_of_mem_elements mem
      let outer : Cursor := parent.replaced (.node parent.kind (left.reverse ++ new :: right))
      have stops : parent.stop = start + tree.length + Tree.lengthOfAll right := by
        rw [stop_of_mem_elements parentInFile, ← Tree.length_eq, node, Tree.length, lengthOfAll_around]
        omega
      have stops' : outer.stop = start + new.length + Tree.lengthOfAll right := by
        rw [stop_replaced parentInFile, Tree.length, lengthOfAll_around]
        omega
      have inner {d d' : Cursor} (beside : Beside parent.tree (.node parent.kind (left.reverse ++ new :: right))
          parent.start parent.stop outer.stop d d') :
          Beside tree new start (start + tree.length) (start + new.length) d d' := by
        obtain ⟨alike, begins, ends⟩ := beside
        rw [node] at alike
        exact ⟨alike.outer, begins.inner (by omega) stops stops', ends.inner (by omega) stops stops'⟩
      -- Outside of the parent by induction, inside of it among its parts.
      obtain ⟨front, back, front', back', here, here', inFront, behind⟩ := ih parentInFile _
      obtain ⟨near, far, near', far', inside, inside', between, beyond⟩ :=
        @exists_walkAll_around tree new right parent outer _ left.reverse [] _ starts
      rw [List.reverse_reverse, List.append_nil] at inside inside'
      have around : Beside tree new start (start + tree.length) (start + new.length) parent outer := by
        refine ⟨?_, ?_, ?_⟩
        · rw [node, tree_replaced]
          exact .inside .here
        · rw [start_replaced]
          exact .before (by omega)
        · rw [stops, stops']
          exact .behind _
      refine ⟨front ++ parent :: near, far ++ back, front' ++ outer :: near', far' ++ back', ?_, ?_,
        List.rel_append (inFront.imp fun _ _ => inner) (.cons around between),
        List.rel_append beyond (behind.imp fun _ _ => inner)⟩
      · rw [here, elements, elementsWithin, node, walk, inside]
        simp only [List.append_assoc, List.cons_append]
      · have parts : outer.elements =
            outer :: walkAll (fun _ => true) (left.reverse ++ new :: right) outer [] outer.start := by
          rw [elements, elementsWithin, tree_replaced, walk]
        rw [replaced, top, here', parts, start_replaced, inside']
        simp only [List.append_assoc, List.cons_append]
        rfl

end Cursor

end PhpMembers
