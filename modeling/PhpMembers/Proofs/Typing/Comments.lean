import PhpMembers.Proofs.Search.Names
import PhpMembers.Proofs.Syntax.Applied
import PhpMembers.Proofs.Typing.Scopes
import PhpMembers.Proofs.Typing.Latest

/-! # The documentation in effect

A statement is documented by the nearest comment in front of it, also if further comments stand in front of that
one. All of them bind a variable at the same place, so the nearest one wins: no node begins in between.

* `Cursor.nextNode?`, `Cursor.documentation_eq_or_nearer` : comments and the statements behind them.
* `Cursor.stop_le_start_of_siblings` : where nodes can begin.
* `Cursor.documentation_of_latestBinding?` : the documentation in effect is that of its comment.
* `exists_latest_of_documentedAt?` : documentation that is found through all scopes is in effect in one of them. -/

namespace PhpMembers

namespace Cursor

variable {source name doc : Text} {c d parent comment statement scope viewer : Cursor}

/-! ## (1) Comments in front of statements -/

/-- The first node behind a place in the same node. -/
def nextNode? (c : Cursor) : Option Cursor := c.following.find? fun d => !d.isLeaf

/-- What stands on either side of a part. -/
theorem following_of_childrenFrom {left trees : List Tree} {start : Nat} {before after : List Cursor}
    (split : childrenFrom parent left start trees = before ++ c :: after) :
    c.following = after ∧ c.left = (before.map tree).reverse ++ left := by
  induction before generalizing left start trees with
  | nil =>
      cases trees with
      | nil => cases split
      | cons tree right =>
          obtain ⟨rfl, rfl⟩ := List.cons.inj split
          exact ⟨rfl, rfl⟩
  | cons first before ih =>
      cases trees with
      | nil => cases split
      | cons tree right =>
          obtain ⟨rfl, rest⟩ := List.cons.inj split
          obtain ⟨behind, inFront⟩ := ih rest
          refine ⟨behind, ?_⟩
          rw [inFront, List.map_cons, List.reverse_cons, List.append_assoc, List.singleton_append]
          rfl

/-- What stands on either side of a part of a node. -/
theorem following_of_children {before after : List Cursor} (split : parent.children = before ++ c :: after) :
    c.following = after ∧ c.left = (before.map tree).reverse := by
  have sides := following_of_childrenFrom split
  rwa [List.append_nil] at sides

end Cursor

/-- The first hit in a list is a known one or stands in front of it. -/
theorem eq_or_front_of_first {α : Type} {p : α → Prop} {front back xs ys : List α} {x y : α}
    (same : xs ++ x :: ys = front ++ y :: back) (hit : p x) (first : ∀ z ∈ front, ¬p z) :
    y = x ∨ ∃ more, xs = front ++ y :: more := by
  rcases List.append_eq_append_iff.mp same with ⟨more, rfl, here⟩ | ⟨more, rfl, here⟩
  · cases more with
    | nil => exact .inl (List.cons.inj here).1.symm
    | cons z more =>
        obtain ⟨rfl, -⟩ := List.cons.inj here
        exact absurd hit (first _ (List.mem_append_right _ List.mem_cons_self))
  · cases more with
    | nil => exact .inl (List.cons.inj here).1
    | cons z more =>
        obtain ⟨rfl, -⟩ := List.cons.inj here
        exact .inr ⟨more, rfl⟩

/-- Documentation is that of the nearest comment. -/
theorem exists_of_documentationAmong? {trees : List Tree} {doc : Text} (found : documentationAmong? trees = some doc) :
    ∃ front text back, trees = front ++ .leaf .docComment text :: back ∧ doc = documentation text ∧
      ∀ part ∈ front, part.kind ≠ .docComment := by
  fun_induction documentationAmong? trees with
  | case1 => cases found
  | case2 comment rest text some =>
      obtain rfl := Option.some.inj found
      exact ⟨[], comment, rest, rfl, rfl, List.forall_mem_nil _⟩
  | case3 text rest ih | case4 text rest ih | case5 text rest ih | case6 parts rest ih =>
      obtain ⟨front, text', back, rfl, same, plain⟩ := ih found
      exact ⟨_ :: front, text', back, rfl, same, List.forall_mem_cons.mpr ⟨by simp [Tree.kind], plain⟩⟩
  | case7 => cases found

namespace Cursor

variable {source name doc : Text} {c d parent comment statement scope viewer : Cursor}

/-- **The documentation of a statement behind a comment is that of the comment**, or a nearer comment stands in
between. -/
theorem documentation_eq_or_nearer {before after : List Cursor} (split : parent.children = before ++ comment :: after)
    (leaf : comment.isLeaf = true) (isComment : comment.kind = .docComment)
    (next : comment.nextNode? = some statement) (documented : statement.documentation? = some doc) :
    doc = documentation comment.text ∨ ∃ between nearer rest, after = between ++ nearer :: rest ∧
      (∀ d ∈ between, d.isLeaf = true) ∧ nearer.isLeaf = true ∧ nearer.kind = .docComment ∧
        nearer.nextNode? = some statement := by
  rw [nextNode?, (following_of_children split).1, List.find?_eq_some_iff_append] at next
  obtain ⟨isNode, leaves, rest, rfl, allLeaves⟩ := next
  have allLeaves : ∀ d ∈ leaves, d.isLeaf = true := fun d mem => by simpa using allLeaves d mem
  have around : parent.children = (before ++ comment :: leaves) ++ statement :: rest := by
    rw [split, List.append_assoc, List.cons_append]
  have left : statement.left =
      (leaves.map tree).reverse ++ .leaf .docComment comment.text :: (before.map tree).reverse := by
    rw [(following_of_children around).2, List.map_append, List.map_cons, List.reverse_append, List.reverse_cons,
      List.append_assoc, List.singleton_append, tree_of_isLeaf leaf, isComment]
  obtain ⟨front, text, back, nearest, rfl, plain⟩ := exists_of_documentationAmong? documented
  rw [left] at nearest
  rcases eq_or_front_of_first (p := fun part => part.kind = .docComment) nearest rfl plain with same | ⟨more, inLeaves⟩
  · rw [(Tree.leaf.inj same).2]
    exact .inl rfl
  · -- The nearest comment stands in between, and behind it are only leaves up to the statement.
    have trees : leaves.map tree = more.reverse ++ .leaf .docComment text :: front.reverse := by
      rw [← List.reverse_reverse (leaves.map tree), inLeaves, List.reverse_append, List.reverse_cons,
        List.append_assoc, List.singleton_append]
    obtain ⟨between, others, rfl, -, there⟩ := List.map_eq_append_iff.mp trees
    obtain ⟨nearer, near, rfl, nearerTree, -⟩ := List.map_eq_cons_iff.mp there
    obtain ⟨leavesBetween, leafNearer, leavesNear⟩ := by
      simpa only [List.forall_mem_append, List.forall_mem_cons] using allLeaves
    have splitNearer : parent.children =
        (before ++ comment :: between) ++ nearer :: (near ++ statement :: rest) := by
      rw [split]
      simp only [List.append_assoc, List.cons_append]
    refine .inr ⟨between, nearer, near ++ statement :: rest, by simp, leavesBetween, leafNearer, ?_, ?_⟩
    · rw [kind, nearerTree]
      rfl
    · rw [nextNode?, (following_of_children splitNearer).1, List.find?_eq_some_iff_append]
      exact ⟨isNode, near, rest, rfl, fun d mem => by simpa using leavesNear d mem⟩

/-! ## (2) Where nodes can begin -/

/-- Two elements lie inside each other or apart. -/
theorem nested_or_apart {c d : Cursor} (inFirst : c ∈ scope.elements) (inSecond : d ∈ scope.elements) :
    d ∈ c.elements ∨ c ∈ d.elements ∨ c.stop ≤ d.start ∨ d.stop ≤ c.start := by
  let Nested (a b : Cursor) : Prop := b ∈ a.elements ∨ a ∈ b.elements ∨ a.stop ≤ b.start ∨ b.stop ≤ a.start
  have swap : Std.Symm Nested := by
    constructor
    rintro a b (inside | around | behind | before)
    · exact .inr (.inl inside)
    · exact .inl around
    · exact .inr (.inr (.inr behind))
    · exact .inr (.inr (.inl before))
  have either : scope.elements.Pairwise Nested := by
    refine scope.elements_pairwise.imp ?_
    rintro a b (inside | behind)
    · exact .inl inside
    · exact .inr (.inr (.inl behind))
  exact either.forall_of_forall (fun a _ => .inl a.self_mem_elements) inFirst inSecond

/-- What is around a part and is not the part itself is around the node. -/
theorem mem_elements_of_part (mem : d ∈ c.elements) (ne : d ≠ c) (part : d ∈ parent.children) :
    parent ∈ c.elements := by
  obtain ⟨other, inElements, isPart⟩ := exists_parent_of_mem_elements mem ne
  have same := (parent?_of_mem_children part).symm.trans (parent?_of_mem_children isPart)
  rw [Option.some.inj same]
  exact inElements

/-- Between two parts with only leaves in between no node lies. -/
theorem not_between_siblings {tree : Tree} {first second node : Cursor} {before between after : List Cursor}
    (inFile : parent ∈ (root tree).elements)
    (split : parent.children = before ++ first :: (between ++ second :: after))
    (leaves : ∀ d ∈ between, d.isLeaf = true) (mem : node ∈ parent.elements) (isNode : node.isLeaf = false)
    (filled : node.start < node.stop) (behind : first.stop ≤ node.start) (early : node.stop ≤ second.start)
    (proper : parent ≠ node) : False := by
  have firstWithin := within_of_mem_children (d := first) (stop_of_mem_elements inFile) (by rw [split]; simp)
  have secondWithin := within_of_mem_children (d := second) (stop_of_mem_elements inFile) (by rw [split]; simp)
  have inOrder : parent.children.Pairwise fun a b => a.stop ≤ b.start := childrenFrom_pairwise_le parent [] _ _
  rw [split, List.pairwise_append, List.pairwise_cons, List.pairwise_append, List.pairwise_cons] at inOrder
  obtain ⟨-, ⟨-, -, ⟨afterSecond, -⟩, -⟩, toFirst⟩ := inOrder
  obtain same | ⟨part, isPart, inPart⟩ := mem_elements_iff.mp mem
  · exact proper same.symm
  have within := within_of_mem_elements (stop_of_mem_elements (children_subset_elements inFile isPart)) inPart
  -- The node lies in a part, and wherever that stands, it is in the way.
  rw [split] at isPart
  rcases List.mem_append.mp isPart with inBefore | there
  · have ends := toFirst part inBefore first List.mem_cons_self
    omega
  rcases List.mem_cons.mp there with rfl | there
  · omega
  rcases List.mem_append.mp there with inBetween | there
  · have leaf := leaves part inBetween
    exact ne_of_isLeaf leaf isNode (eq_of_mem_elements_of_isLeaf inPart leaf).symm
  rcases List.mem_cons.mp there with rfl | inAfter
  · omega
  · have begins := afterSecond part inAfter
    omega

/-- **Between two parts with only leaves in between no node begins** that is not empty. -/
theorem stop_le_start_of_siblings {tree : Tree} {first second node : Cursor} {before between after : List Cursor}
    (inFile : parent ∈ (root tree).elements)
    (split : parent.children = before ++ first :: (between ++ second :: after))
    (leaves : ∀ d ∈ between, d.isLeaf = true) (leaf : second.isLeaf = true) (firstFilled : first.start < first.stop)
    (mem : node ∈ (root tree).elements) (isNode : node.isLeaf = false) (filled : node.start < node.stop)
    (behind : first.stop ≤ node.start) : second.stop ≤ node.start := by
  have isFirst : first ∈ parent.children := by
    rw [split]
    simp
  have isSecond : second ∈ parent.children := by
    rw [split]
    simp
  -- The node begins behind the first part, so it is not around it.
  have notParent : parent ∉ node.elements := by
    intro inside
    have within := within_of_mem_elements (stop_of_mem_elements mem) (children_subset_elements inside isFirst)
    omega
  have firstWithin := within_of_mem_children (stop_of_mem_elements inFile) isFirst
  have secondWithin := within_of_mem_children (stop_of_mem_elements inFile) isSecond
  rcases nested_or_apart mem (children_subset_elements inFile isSecond) with inside | around | early | late
  · exact absurd (mem_elements_of_part inside (ne_of_isLeaf leaf isNode) isSecond) notParent
  · exact absurd (eq_of_mem_elements_of_isLeaf around leaf).symm (ne_of_isLeaf leaf isNode)
  · rcases nested_or_apart mem inFile with inside | around | before | after
    · exact absurd inside notParent
    · have proper : parent ≠ node := by
        intro same
        rw [same] at notParent
        exact notParent node.self_mem_elements
      exact (not_between_siblings inFile split leaves around isNode filled behind early proper).elim
    · omega
    · omega
  · exact late

/-! ## (3) The documentation in effect in a scope -/

/-- What a comment binds, and where. -/
theorem commentBinding?_eq_some {offset position : Nat} {binding : Binding}
    (found : c.commentBinding? name offset = some (position, binding)) :
    c.isLeaf = true ∧ c.kind = .docComment ∧ c.stop ≤ offset ∧
      ∃ statement type, c.documentedVariable? name = some (statement, type) ∧
        position = (if statement.stop ≤ offset then statement.stop else c.stop) ∧
        binding = .documented type c.start := by
  obtain ⟨test, found⟩ := Option.ite_none_right_eq_some.mp found
  rw [Bool.and_eq_true, Bool.and_eq_true, decide_eq_true_eq, beq_iff_eq] at test
  obtain ⟨⟨leaf, isComment⟩, le⟩ := test
  obtain ⟨⟨statement, type⟩, documents, same⟩ := Option.map_eq_some_iff.mp found
  obtain ⟨rfl, rfl⟩ := Prod.mk.inj same
  exact ⟨leaf, isComment, le, statement, type, documents, rfl, rfl⟩

/-- What a comment documents depends only on the statement behind it. -/
theorem documentedVariable?_congr (same : c.nextNode? = d.nextNode?) (name : Text) :
    c.documentedVariable? name = d.documentedVariable? name := by
  rw [nextNode?, nextNode?] at same
  rw [documentedVariable?, documentedVariable?, same]

/-- How a comment gives a type to a variable. -/
theorem documentedVariable?_eq_some {type : Text} (found : c.documentedVariable? name = some (statement, type)) :
    c.nextNode? = some statement ∧ ∃ doc, statement.documentation? = some doc ∧
      (occursIn ('$' :: name) doc = true ∨ ∃ e, statement.firstExpression? = some e ∧ e.assignsTo name = true) ∧
      taggedType? doc varTag (some name) = some type := by
  rw [documentedVariable?] at found
  split at found
  · cases found
  · rename_i next behind
    split at found
    · cases found
    · rename_i doc documented
      obtain ⟨test, found⟩ := Option.ite_none_right_eq_some.mp found
      obtain ⟨type', tagged, same⟩ := Option.map_eq_some_iff.mp found
      obtain ⟨rfl, rfl⟩ := Prod.mk.inj same
      refine ⟨behind, doc, documented, ?_, tagged⟩
      -- The comment names the variable, or the statement behind it assigns to it.
      rcases Bool.or_eq_true_iff.mp test with occurs | assigned
      · exact .inl occurs
      · cases first : next.firstExpression? with
        | none =>
            rw [first] at assigned
            cases assigned
        | some e =>
            rw [first] at assigned
            exact .inr ⟨e, rfl, assigned⟩

/-- A part beside another part belongs to the same scopes, if it hides nothing itself. -/
theorem belongsTo_of_sibling {sibling : Cursor} (belongs : c.BelongsTo scope) (leaf : c.isLeaf = true)
    (isNode : scope.isLeaf = false) (isPart : c ∈ parent.children) (isSibling : sibling ∈ parent.children)
    (plain : sibling.kind.opensScope = false) : sibling.BelongsTo scope := by
  have notScope := ne_of_isLeaf leaf isNode
  refine ⟨children_subset_elements (mem_elements_of_part belongs.1 notScope isPart) isSibling, ?_⟩
  intro x inElements contains opens
  have notSibling : sibling ≠ x := by
    rintro rfl
    rw [plain] at opens
    cases opens
  exact belongs.2 x inElements
    (children_subset_elements (mem_elements_of_part contains notSibling isSibling) isPart) opens

/-- Assignments and handlers are no documentation. -/
theorem nodeBinding?_ne_documented {offset position at' : Nat} {type : Text} :
    c.nodeBinding? name offset ≠ some (position, .documented type at') := by
  intro found
  rw [nodeBinding?] at found
  split at found
  · obtain ⟨-, same⟩ := Option.ite_none_right_eq_some.mp found
    cases same
  · obtain ⟨-, same⟩ := Option.ite_none_right_eq_some.mp found
    cases same
  · cases found

open scoped Classical in
/-- What belongs to a scope and begins behind a leaf of the scope comes after it. -/
theorem mem_after_of_stop_le {before after : List Cursor} {later : Cursor}
    (split : scope.withinScope = before ++ c :: after) (leaf : later.isLeaf = true) (filled : c.start < c.stop)
    (belongs : later.BelongsTo scope) (placed : later.start ≤ later.stop) (behind : c.stop ≤ later.start) :
    later ∈ after := by
  have inWithin : later ∈ scope.withinScope := by
    rw [withinScope_eq, List.mem_filter, decide_eq_true_eq]
    exact ⟨belongs.1, belongs⟩
  have inOrder : scope.withinScope.Pairwise fun a b => b ∈ a.elements ∨ a.stop ≤ b.start := by
    rw [withinScope_eq]
    exact scope.elements_pairwise.filter _
  rw [split] at inWithin inOrder
  rcases List.mem_append.mp inWithin with inBefore | there
  · rcases (List.pairwise_append.mp inOrder).2.2 later inBefore c List.mem_cons_self with inside | apart
    · rw [eq_of_mem_elements_of_isLeaf inside leaf] at filled behind
      omega
    · omega
  rcases List.mem_cons.mp there with rfl | inAfter
  · omega
  · exact inAfter

/-- **A nearer comment wins**: it binds the same variable at the same place or further to the right. -/
theorem commentBinding?_of_nearer {offset position : Nat} {binding : Binding} {nearer : Cursor}
    (found : c.commentBinding? name offset = some (position, binding)) (leaf : nearer.isLeaf = true)
    (isComment : nearer.kind = .docComment) (next : nearer.nextNode? = c.nextNode?) (le : nearer.stop ≤ offset)
    (behind : c.stop ≤ nearer.stop) :
    ∃ position' binding', nearer.commentBinding? name offset = some (position', binding') ∧ position ≤ position' := by
  obtain ⟨-, -, -, statement, type, documents, rfl, rfl⟩ := commentBinding?_eq_some found
  rw [commentBinding?, leaf, isComment, decide_eq_true le, documentedVariable?_congr next, documents]
  refine ⟨_, _, rfl, ?_⟩
  split
  · exact Nat.le_refl _
  · exact behind

/-- Documentation in effect comes from a comment of the scope, and no comment behind that one binds the variable as
far to the right. -/
theorem exists_comment_of_latestBinding? {offset at' : Nat} {type : Text}
    (found : latestBinding? scope name offset = some (.documented type at')) :
    ∃ before comment after position, scope.withinScope = before ++ comment :: after ∧
      comment.commentBinding? name offset = some (position, .documented type at') ∧
        ∀ later ∈ after, ∀ position' binding, later.commentBinding? name offset = some (position', binding) →
          position' < position := by
  obtain ⟨⟨position, _⟩, greatest, rfl⟩ := Option.map_eq_some_iff.mp found
  obtain ⟨lower, higher, all, -, highest⟩ := exists_split_of_lastGreatest? greatest
  -- The pair is not that of an assignment or handler, so it stands among those of comments.
  obtain ⟨lowerComments, comments⟩ : ∃ lower, scope.withinScope.filterMap (·.commentBinding? name offset) =
      lower ++ (position, .documented type at') :: higher := by
    rcases List.append_eq_append_iff.mp all with ⟨more, -, comments⟩ | ⟨more, nodes, comments⟩
    · exact ⟨more, comments⟩
    · cases more with
      | nil => exact ⟨[], comments.symm⟩
      | cons x more =>
          obtain ⟨rfl, -⟩ := List.cons.inj comments
          have inNodes : (position, Binding.documented type at') ∈
              scope.withinScope.filterMap (·.nodeBinding? name offset) := by
            rw [nodes]
            simp
          obtain ⟨c, -, binds⟩ := List.mem_filterMap.mp inNodes
          exact absurd binds nodeBinding?_ne_documented
  obtain ⟨front, rest, within, -, others⟩ := List.filterMap_eq_append_iff.mp comments
  obtain ⟨skipped, comment, after, rfl, -, binds, laterPairs⟩ := List.filterMap_eq_cons_iff.mp others
  rw [← List.append_assoc] at within
  refine ⟨_, comment, after, position, within, binds, ?_⟩
  intro later inAfter position' binding bindsLater
  have inHigher : (position', binding) ∈ higher := by
    rw [← laterPairs]
    exact List.mem_filterMap.mpr ⟨later, inAfter, bindsLater⟩
  exact highest _ inHigher

/-- **The documentation that is in effect is that of its comment**: where several comments stand in front of a
statement, only the nearest one is ever in effect. -/
theorem documentation_of_latestBinding? (inFile : scope ∈ (ofText source).elements) {node : Cursor}
    (inScope : node ∈ scope.elements) (isNode : node.isLeaf = false) (filled : node.start < node.stop)
    {type : Text} {at' : Nat} (found : latestBinding? scope name node.start = some (.documented type at')) :
    ∃ comment ∈ (ofText source).leaves, comment.kind = .docComment ∧ comment.start = at' ∧
      ∃ statement, comment.documentedVariable? name = some (statement, type) ∧
        statement.documentation? = some (documentation comment.text) := by
  classical
  obtain ⟨front, comment, back, position, within, binds, lower⟩ := exists_comment_of_latestBinding? found
  have belongs : comment.BelongsTo scope := by
    have inWithin : comment ∈ scope.withinScope := by
      rw [within]
      simp
    rw [withinScope_eq, List.mem_filter, decide_eq_true_eq] at inWithin
    exact inWithin.2
  obtain ⟨leaf, isComment, le, statement, _, documents, -, same⟩ := commentBinding?_eq_some binds
  obtain ⟨rfl, rfl⟩ := Binding.documented.inj same
  have commentInFile := mem_elements_trans belongs.1 inFile
  obtain ⟨next, doc, documented, -, -⟩ := documentedVariable?_eq_some documents
  refine ⟨comment, List.mem_filter.mpr ⟨commentInFile, leaf⟩, isComment, rfl, statement, documents, ?_⟩
  have isScopeNode := isLeaf_of_mem_elements inScope isNode
  obtain ⟨parent, parentInScope, part⟩ :=
    exists_parent_of_mem_elements belongs.1 (ne_of_isLeaf leaf isScopeNode)
  have parentInFile := mem_elements_trans parentInScope inFile
  obtain ⟨before, after, split⟩ := List.append_of_mem part
  rcases documentation_eq_or_nearer split leaf isComment next documented with
    rfl | ⟨between, nearer, others, rfl, leaves, leafNearer, isCommentNearer, nextNearer⟩
  · exact documented
  · -- A nearer comment would bind the variable further to the right.
    have isPart : nearer ∈ parent.children := by
      rw [split]
      simp
    have inOrder : parent.children.Pairwise fun a b => a.stop ≤ b.start := childrenFrom_pairwise_le parent [] _ _
    rw [split, List.pairwise_append, List.pairwise_cons] at inOrder
    have apart := inOrder.2.1.1 nearer (by simp)
    have placed := stop_of_mem_elements (children_subset_elements parentInFile isPart)
    have commentFilled := start_lt_stop_of_isLeaf commentInFile leaf
    have ends := stop_le_start_of_siblings parentInFile split leaves leafNearer commentFilled
      (mem_elements_trans inScope inFile) isNode filled le
    obtain ⟨position', binding, bindsNearer, higher⟩ := commentBinding?_of_nearer binds leafNearer isCommentNearer
      (nextNearer.trans next.symm) ends (by omega)
    have belongsNearer := belongsTo_of_sibling belongs leaf isScopeNode part isPart (by rw [isCommentNearer]; rfl)
    have inBack := mem_after_of_stop_le within leafNearer commentFilled belongsNearer (by omega) apart
    have lower' := lower nearer inBack position' binding bindsNearer
    omega

end Cursor

/-! ## (4) The documentation in effect through all scopes -/

/-- The offset of the documentation that a binding comes from. -/
def Binding.documentedAt? : Binding → Option Nat
  | .documented _ at' => some at'
  | _ => none

/-- **A documented variable is documented in one of the scopes**, where a node in it begins. -/
theorem exists_latest_of_documentedAt? {source name : Text} {viewer node : Cursor} {crossed at' : Nat}
    {found : Resolution} (mem : viewer ∈ (Cursor.ofText source).elements) (inside : node ∈ viewer.elements)
    (isNode : node.isLeaf = false) (filled : node.start < node.stop)
    (resolved : bindingAmong? name viewer.scopes viewer node.start crossed = some found)
    (documented : found.binding.documentedAt? = some at') :
    ∃ scope ∈ (Cursor.ofText source).elements, ∃ node ∈ scope.elements, node.isLeaf = false ∧
      node.start < node.stop ∧ ∃ type, latestBinding? scope name node.start = some (.documented type at') := by
  -- What is kept on the way outwards: the offset is that of a node with a text.
  let begins (viewer : Cursor) (offset : Nat) : Prop :=
    ∃ node ∈ viewer.elements, node.isLeaf = false ∧ node.start < node.stop ∧ node.start = offset
  have outward : ∀ viewer offset scope parent, begins viewer offset → scope.IsScopeOf viewer →
      scope ∈ (Cursor.ofText source).elements → viewer ∈ scope.elements → scope.parent? = some parent →
        begins parent scope.start := by
    rintro viewer _ scope parent ⟨node, inside, isNode, filled, rfl⟩ - inFile below parents
    have inScope := Cursor.mem_elements_trans inside below
    have placed := Cursor.within_of_mem_elements (Cursor.stop_of_mem_elements inFile) inScope
    have part := (Cursor.mem_elements_of_parent? inFile parents).2
    exact ⟨scope, Cursor.children_subset_elements parent.self_mem_elements part,
      Cursor.isLeaf_of_mem_elements inScope isNode, by omega, rfl⟩
  obtain ⟨viewer, _, scope, ⟨node, inside, isNode, filled, rfl⟩, inFile, below, latest | ⟨param, isParam⟩⟩ :=
    exists_scope_of_bindingAmong? outward mem ⟨node, inside, isNode, filled, rfl⟩ resolved
  · refine ⟨scope, inFile, node, Cursor.mem_elements_trans inside below, isNode, filled, ?_⟩
    rw [latest]
    cases same : found.binding with
    | documented type offset =>
        rw [same] at documented
        obtain rfl := Option.some.inj documented
        exact ⟨type, rfl⟩
    | _ =>
        rw [same] at documented
        cases documented
  · rw [isParam] at documented
    cases documented

end PhpMembers
