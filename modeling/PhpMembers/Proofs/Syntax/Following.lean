import Mathlib.Data.List.Find
import PhpMembers.Proofs.Syntax.Callees
import PhpMembers.Proofs.Syntax.Parents
import PhpMembers.Proofs.Syntax.Tokens
import PhpMembers.Source.Expression

/-! # The token behind a place

The tokens of a text lie one after the other, and the leaves of its tree stand for them in order. So what
follows a place in the tree are the tokens from the end of the place on, and an access is called if and only
if the first of them that is not trivia is a parenthesis.

* `Cursor.leavesBehind` : the leaves behind a place.
* `tokenizeFrom_starts` : the tokens up to an offset and those from there on.
* `nextSignificant?` : the first token from an offset on that is not trivia.
* `Cursor.opens_behind` : leaves and tokens agree on whether a parenthesis opens.
* `Cursor.isCallee_eq` : which accesses are called. -/

namespace PhpMembers

/-! ## (1) Leaves behind a place -/

namespace Cursor

/-- The leaves behind a place, up to the end of the tree. -/
def leavesBehind : Cursor → List (Kind × Text)
  | root _ => []
  | child parent _ _ right _ _ => Tree.leavesOfAll right ++ parent.leavesBehind

/-- A part knows the parts on either side of it, and it begins where those in front of it end. -/
theorem exists_eq_child_of_mem_childrenFrom {parent : Cursor} {left trees : List Tree} {start : Nat} {d : Cursor}
    (mem : d ∈ childrenFrom parent left start trees) :
    ∃ before after, trees = before ++ d.tree :: after ∧
      d = child parent (before.reverse ++ left) d.tree after d.start d.stop ∧
        d.start = start + utf8Length (Tree.textOfAll before) := by
  induction trees generalizing left start with
  | nil => cases mem
  | cons tree right ih =>
      rcases List.mem_cons.mp mem with rfl | mem
      · exact ⟨[], right, rfl, rfl, rfl⟩
      · obtain ⟨before, after, all, same, begins⟩ := ih mem
        refine ⟨tree :: before, after, by rw [all, List.cons_append], ?_, ?_⟩
        · rw [List.reverse_cons, List.append_assoc, List.singleton_append]
          exact same
        · rw [begins, Tree.textOfAll_cons, utf8Length_append, Tree.length_eq, Nat.add_assoc]

/-- Where a part stands among the parts of a node. -/
theorem exists_eq_child_of_mem_children {c d : Cursor} (mem : d ∈ c.children) :
    ∃ before after, c.tree.children = before ++ d.tree :: after ∧
      d = child c before.reverse d.tree after d.start d.stop ∧
        d.start = c.start + utf8Length (Tree.textOfAll before) := by
  obtain ⟨before, after, all, same, begins⟩ := exists_eq_child_of_mem_childrenFrom mem
  rw [List.append_nil] at same
  exact ⟨before, after, all, same, begins⟩

/-- A cursor with parts has the leaves of its parts. -/
theorem leaves_of_mem_children {c d : Cursor} (mem : d ∈ c.children) :
    c.tree.leaves = Tree.leavesOfAll c.tree.children := by
  cases tree : c.tree with
  | node kind parts => rw [Tree.leaves_node, Tree.children]
  | leaf kind text =>
      have leaf : c.isLeaf = true := by rw [isLeaf, tree, Tree.isLeaf]
      rw [children_of_isLeaf leaf] at mem
      cases mem

/-- The leaves from the start of a cursor on are those in front of an element, those of the element and those
behind it. -/
theorem exists_front_of_mem_elements {c d : Cursor} (mem : d ∈ c.elements) :
    ∃ front, c.tree.leaves ++ c.leavesBehind = front ++ (d.tree.leaves ++ d.leavesBehind) ∧
      d.start = c.start + utf8Length (front.flatMap (·.2)) := by
  induction c using inductionOn with
  | step c ih =>
      rcases mem_elements_iff.mp mem with rfl | ⟨part, inChildren, inElements⟩
      · exact ⟨[], rfl, rfl⟩
      · obtain ⟨before, after, parts, same, partBegins⟩ := exists_eq_child_of_mem_children inChildren
        obtain ⟨front, leaves, begins⟩ := ih part inChildren inElements
        refine ⟨Tree.leavesOfAll before ++ front, ?_, ?_⟩
        · have behindPart : part.leavesBehind = Tree.leavesOfAll after ++ c.leavesBehind := by
            rw [same]
            rfl
          rw [List.append_assoc, ← leaves, behindPart, leaves_of_mem_children inChildren, parts,
            Tree.leavesOfAll_append, Tree.leavesOfAll_cons]
          simp only [List.append_assoc]
        · rw [begins, partBegins, List.flatMap_append, utf8Length_append, Tree.textOfAll, Nat.add_assoc]

/-- The leaves of a tree up to the end of an element, and those behind it. -/
theorem exists_leaves_eq_append_behind {tree : Tree} {d : Cursor} (mem : d ∈ (root tree).elements) :
    ∃ front, tree.leaves = front ++ d.leavesBehind ∧ d.stop = utf8Length (front.flatMap (·.2)) := by
  obtain ⟨front, leaves, begins⟩ := exists_front_of_mem_elements mem
  obtain ⟨_, _, -, -, ends⟩ := text_of_mem_elements (stop_root tree) mem
  refine ⟨front ++ d.tree.leaves, ?_, ?_⟩
  · have all : tree.leaves ++ [] = front ++ (d.tree.leaves ++ d.leavesBehind) := leaves
    rw [List.append_nil] at all
    rw [all, List.append_assoc]
  · have atStart : (root tree).start = 0 := rfl
    rw [ends, begins, atStart, List.flatMap_append, utf8Length_append, Nat.zero_add, Tree.text]

end Cursor

/-! ## (2) Tokens from an offset on -/

/-- Leaves in two parts stand for tokens in two parts. -/
theorem Records.split {before tokens : List Token} {front behind : List (Kind × Text)}
    (records : Records before tokens (front ++ behind)) :
    ∃ taken rest, tokens = taken ++ rest ∧ Records before taken front ∧ Records (before ++ taken) rest behind := by
  induction front generalizing before tokens with
  | nil => exact ⟨[], tokens, rfl, .nil, by rwa [List.append_nil]⟩
  | cons leaf front ih =>
      cases records with
      | @cons _ tokens t kind _ first later =>
          obtain ⟨taken, rest, all, recordsFront, recordsRest⟩ := ih later
          refine ⟨t :: taken, rest, by rw [all, List.cons_append], .cons first recordsFront, ?_⟩
          rwa [List.append_assoc, List.singleton_append] at recordsRest

/-- No token is empty. -/
theorem Token.text_ne_nil {source : Text} {t : Token} (mem : t ∈ tokenize source) : t.text ≠ [] := by
  obtain ⟨c, cs, -, text⟩ := exists_scan_of_mem_tokenizeFrom mem
  rw [text]
  exact List.cons_ne_nil _ _

/-- A text that is not empty has a length. -/
theorem utf8Length_pos {text : Text} (some : text ≠ []) : 0 < utf8Length text := by
  cases text with
  | nil => exact absurd rfl some
  | cons c cs => exact Nat.add_pos_left c.utf8Size_pos _

/-- No token begins before the text that it is a token of. -/
theorem le_start_of_mem_tokenizeFrom {offset : Nat} {source : Text} {t : Token}
    (mem : t ∈ tokenizeFrom offset source) : offset ≤ t.start := by
  induction offset, source using tokenizeFrom.induct with
  | case1 offset =>
      rw [tokenizeFrom] at mem
      cases mem
  | case2 offset c cs found text ih =>
      rw [tokenizeFrom] at mem
      rcases List.mem_cons.mp mem with rfl | mem
      · exact Nat.le_refl _
      · exact (Nat.le_add_right _ _).trans (ih mem)

/-- **Tokens lie one after the other**: those in front begin before the offset at which their texts end, the
others there or behind it. -/
theorem tokenizeFrom_starts {offset : Nat} {source : Text} {front behind : List Token}
    (split : tokenizeFrom offset source = front ++ behind) :
    (∀ t ∈ front, t.start < offset + utf8Length (front.flatMap Token.text)) ∧
      ∀ t ∈ behind, offset + utf8Length (front.flatMap Token.text) ≤ t.start := by
  -- The tokens in front are cut off one by one; each has a text, so the next one begins behind it.
  induction front generalizing offset source with
  | nil =>
      refine ⟨List.forall_mem_nil _, fun t mem => ?_⟩
      rw [List.flatMap_nil, utf8Length_nil, Nat.add_zero]
      rw [← List.nil_append behind, ← split] at mem
      exact le_start_of_mem_tokenizeFrom mem
  | cons first front ih =>
      cases source with
      | nil =>
          rw [tokenizeFrom] at split
          cases split
      | cons c cs =>
          rw [tokenizeFrom, List.cons_append] at split
          obtain ⟨rfl, rest⟩ := List.cons.inj split
          obtain ⟨before, after⟩ := ih rest
          have positive : 0 < utf8Length (c :: cs.take (scan c cs).2) := utf8Length_pos (List.cons_ne_nil _ _)
          rw [List.flatMap_cons, utf8Length_append, ← Nat.add_assoc]
          refine ⟨List.forall_mem_cons.mpr ⟨?_, before⟩, after⟩
          simp only
          omega

/-- The first token of a source from an offset on that is not trivia. -/
def nextSignificant? (source : Text) (offset : Nat) : Option Token :=
  (tokenize source).find? fun t => offset ≤ t.start && !t.isTrivia

set_option maxRecDepth 4000 in
/-- What is recorded as a token that is not trivia stands for one. -/
theorem Recorded.isTrivia_eq {before : List Token} {t : Token} {kind : Kind} (recorded : Recorded before t kind) :
    kind.isTrivia = t.isTrivia := by
  have name : ∀ kind ∈ Kind.all, kind.isMemberName = true → kind.isTrivia = false := by decide
  cases recorded with
  | own => rfl
  | reserved keyword =>
      have isName : t.kind.isMemberName = true := by rw [Kind.isMemberName, keyword, Bool.or_true]
      exact (name t.kind (Kind.mem_all _) isName).symm
  | relative isName after => exact (name t.kind (Kind.mem_all _) isName).symm

set_option maxRecDepth 4000 in
/-- What is recorded as a parenthesis is one, and no other token is. -/
theorem Recorded.beq_lParen {before : List Token} {t : Token} {kind : Kind} (recorded : Recorded before t kind) :
    (kind == .lParen) = (t.kind == .lParen) := by
  have name : ∀ kind ∈ Kind.all, kind.isMemberName = true → (kind == .lParen) = false := by decide
  cases recorded with
  | own => rfl
  | reserved keyword =>
      have isName : t.kind.isMemberName = true := by rw [Kind.isMemberName, keyword, Bool.or_true]
      exact (name t.kind (Kind.mem_all _) isName).symm
  | relative isName after => exact (name t.kind (Kind.mem_all _) isName).symm

/-- Leaves and the tokens that they stand for agree on whether a parenthesis comes first. -/
theorem Records.opens_eq {before tokens : List Token} {leaves : List (Kind × Text)}
    (records : Records before tokens leaves) :
    opens false leaves = (tokens.find? fun t => !t.isTrivia).any fun t => t.kind == .lParen := by
  induction records with
  | nil => rfl
  | @cons before tokens t kind leaves recorded later ih =>
      rw [opens_cons, recorded.isTrivia_eq, recorded.beq_lParen, ih]
      cases trivia : t.isTrivia with
      | true => rw [if_pos rfl, List.find?_cons_of_neg (by rw [trivia]; decide)]
      | false => rw [if_neg Bool.false_ne_true, List.find?_cons_of_pos (by rw [trivia]; rfl), Option.any_some]

/-- **A parenthesis opens behind a place of the tree if it is the next token there that is not trivia.** -/
theorem Cursor.opens_behind {source : Text} {d : Cursor} (mem : d ∈ (root (Parse.ofText source).tree).elements) :
    opens false d.leavesBehind = (nextSignificant? source d.stop).any fun t => t.kind == .lParen := by
  obtain ⟨front, leaves, ends⟩ := exists_leaves_eq_append_behind mem
  have records : Records [] (tokenize source) (Parse.ofText source).tree.leaves :=
    Parse.records_ofTokens (tokenize source)
  rw [leaves] at records
  obtain ⟨taken, rest, tokens, recordsFront, recordsBehind⟩ := records.split
  -- The leaves up to the end of the place have the texts of the tokens that begin before it.
  have texts : utf8Length (taken.flatMap Token.text) = d.stop := by
    rw [ends, List.flatMap_def, List.flatMap_def, recordsFront.texts_eq]
  have fromStart : tokenizeFrom 0 source = taken ++ rest := tokens
  obtain ⟨inFront, after⟩ := tokenizeFrom_starts fromStart
  rw [Nat.zero_add, texts] at inFront after
  have none : taken.find? (fun t => d.stop ≤ t.start && !t.isTrivia) = none := by
    refine List.find?_eq_none.mpr fun t inTaken => ?_
    have begins := inFront t inTaken
    simp only [Bool.and_eq_true, decide_eq_true_eq, not_and]
    intro behind
    omega
  have same : rest.find? (fun t => d.stop ≤ t.start && !t.isTrivia) = rest.find? fun t => !t.isTrivia := by
    refine List.find?_congr fun t inRest => ?_
    rw [decide_eq_true (after t inRest), Bool.true_and]
  rw [recordsBehind.opens_eq, nextSignificant?, tokens, List.find?_append, none, Option.none_or, same]

/-! ## (3) Called accesses as places -/

/-- What holds of consecutive parts holds of each of them, with what follows it. -/
theorem CalledAmong.part {callee next : Bool} {before after : List Tree} {part : Tree}
    (called : CalledAmong callee next (before ++ part :: after)) :
    Called (opens next (Tree.leavesOfAll after)) part ∧
      (part.isAccess = true →
        if callee && before.all Tree.isLeaf then opens false (Tree.leavesOfAll after) = true
        else opens next (Tree.leavesOfAll after) = false) := by
  induction before generalizing callee with
  | nil =>
      obtain ⟨here, access, -⟩ := calledAmong_cons.mp called
      rw [List.all_nil, Bool.and_true]
      exact ⟨here, access⟩
  | cons first before ih =>
      obtain ⟨-, -, rest⟩ := calledAmong_cons.mp called
      rw [List.all_cons, ← Bool.and_assoc]
      exact ih rest

namespace Cursor

/-- An element other than the cursor itself is a part of an element. -/
theorem exists_parent_of_mem_elements {c d : Cursor} (mem : d ∈ c.elements) (ne : d ≠ c) :
    ∃ parent ∈ c.elements, d ∈ parent.children := by
  have found := (elements_perm c).mem_iff.mp mem
  exact List.mem_flatMap.mp ((List.mem_cons.mp found).resolve_left ne)

/-- What is around a place of a tree directly is a place of the tree, too, and the place is a part of it. -/
theorem mem_elements_of_parent? {tree : Tree} {c parent : Cursor} (mem : c ∈ (root tree).elements)
    (parents : c.parent? = some parent) : parent ∈ (root tree).elements ∧ c ∈ parent.children := by
  have notRoot : c ≠ root tree := by
    rintro rfl
    cases parents
  obtain ⟨other, inElements, part⟩ := exists_parent_of_mem_elements mem notRoot
  have same := parents.symm.trans (parent?_of_mem_children part)
  rw [Option.some.inj same]
  exact ⟨inElements, part⟩

/-- The parts of a called tree are called, with what follows them. -/
theorem called_part {c d : Cursor} (called : Called (opens false c.leavesBehind) c.tree) (mem : d ∈ c.children) :
    Called (opens false d.leavesBehind) d.tree ∧
      (d.tree.isAccess = true → d.isCallee = opens false d.leavesBehind) := by
  obtain ⟨before, after, parts, same, -⟩ := exists_eq_child_of_mem_children mem
  have behind : d.leavesBehind = Tree.leavesOfAll after ++ c.leavesBehind := by
    rw [same]
    rfl
  have callee : d.isCallee = ((c.kind == .callExpr) && before.all Tree.isLeaf) := by
    rw [same, isCallee, parent?, left, List.all_reverse]
  cases tree : c.tree with
  | leaf kind text =>
      have leaf : c.isLeaf = true := by rw [isLeaf, tree, Tree.isLeaf]
      rw [children_of_isLeaf leaf] at mem
      cases mem
  | node kind inside =>
      rw [tree] at called parts
      have kind : c.kind = kind := by rw [Cursor.kind, tree, Tree.kind]
      have parts : inside = before ++ d.tree :: after := parts
      rw [parts] at called
      obtain ⟨here, access⟩ := (called_node.mp called).part
      -- What follows the part are first the parts behind it and then what follows the node.
      rw [behind, opens_append]
      refine ⟨here, fun isAccess => ?_⟩
      have follows := access isAccess
      rw [callee, kind]
      split at follows
      · rename_i isCallee
        rw [isCallee, opens_mono (fun falsity => absurd falsity Bool.false_ne_true) _ follows]
      · rename_i other
        rw [Bool.eq_false_iff.mpr other, follows]

/-- What is called below a cursor is called at each of its elements, with what follows them. -/
theorem called_of_mem_elements {c d : Cursor} (called : Called (opens false c.leavesBehind) c.tree)
    (mem : d ∈ c.elements) : Called (opens false d.leavesBehind) d.tree := by
  induction c using inductionOn with
  | step c ih =>
      rcases mem_elements_iff.mp mem with rfl | ⟨part, inChildren, inElements⟩
      · exact called
      · exact ih part inChildren (called_part called inChildren).1 inElements

/-- **An access is what a call calls if the next token that is not trivia is a parenthesis, and only then.** -/
theorem isCallee_eq {source : Text} {access : Cursor} (mem : access ∈ (root (Parse.ofText source).tree).elements)
    (isAccess : access.tree.isAccess = true) :
    access.isCallee = (nextSignificant? source access.stop).any fun t => t.kind == .lParen := by
  let file := root (Parse.ofText source).tree
  have called : Called (opens false file.leavesBehind) file.tree := Parse.called_ofTokens (tokenize source)
  have notRoot : access ≠ file := by
    rintro rfl
    cases isAccess
  obtain ⟨parent, inElements, part⟩ := exists_parent_of_mem_elements mem notRoot
  rw [← opens_behind mem]
  exact (called_part (called_of_mem_elements called inElements) part).2 isAccess

end Cursor

end PhpMembers
