import PhpMembers.Proofs.Classes.Declared
import PhpMembers.Proofs.Syntax.Pairing

/-! # Members between braces

In a text without errors every class body stands between two braces that match, and every member belongs to
the class-like whose braces are the innermost ones around it. In a damaged text neither has to be so: a
modifier with no member behind it swallows the brace that would close the body.

* `Cursor.NamelessUnbraced` : no brace stands in the place of the keyword of a class without a name.
* `Cursor.Between` : the innermost braces around a part of a class body are those of the body.
* `braces_enclose_members` : the braces of class bodies, and the class-likes of members. -/

namespace PhpMembers

namespace Cursor

/-! ## (1) Nodes and their parts -/

/-- A condition that holds at the place of every node holds everywhere in the tree. -/
theorem everywhere_of_descendants {P : Kind → List Tree → Prop} {c : Cursor}
    (all : ∀ d ∈ c.descendants, P d.kind d.tree.children) : c.tree.Everywhere P := by
  induction c using inductionOn with
  | step c ih =>
      cases tree : c.tree with
      | leaf kind text => exact .leaf
      | node kind parts =>
          have node : c.isLeaf = false := by rw [isLeaf, tree, Tree.isLeaf]
          have here := all c (List.mem_filter.mpr ⟨self_mem_elements c, by rw [node]; rfl⟩)
          rw [Cursor.kind, tree] at here
          refine .node here fun part mem => ?_
          obtain ⟨d, inParts, rfl⟩ := exists_mem_childrenFrom mem c [] c.start
          have inChildren : d ∈ c.children := by
            rw [children, tree]
            exact inParts
          refine ih d inChildren fun e mem => all e ?_
          obtain ⟨inElements, node⟩ := List.mem_filter.mp mem
          exact List.mem_filter.mpr ⟨mem_elements_iff.mpr (.inr ⟨d, inChildren, inElements⟩), node⟩

/-- Each token of a node stands at the place of a part. -/
theorem exists_token_of_mem_ownKinds {c : Cursor} {kind : Kind}
    (mem : kind ∈ ownKinds c.tree.children) : ∃ token ∈ c.tokens, token.kind = kind := by
  obtain ⟨part, inParts, isKind⟩ := List.mem_filterMap.mp mem
  obtain ⟨token, inChildren, rfl⟩ := exists_mem_childrenFrom inParts c [] c.start
  cases tree : token.tree with
  | leaf k text =>
      rw [tree] at isKind
      cases isKind
      exact ⟨token, List.mem_filter.mpr ⟨inChildren, by rw [isLeaf, tree, Tree.isLeaf]⟩,
        by rw [Cursor.kind, tree, Tree.kind]⟩
  | node k parts =>
      rw [tree] at isKind
      cases isKind

/-! ## (2) Between braces -/

/-- No class without a name has braces other than those of its body: none stands in the place of its
keyword. -/
def NamelessUnbraced (file : Cursor) : Prop :=
  ∀ c ∈ file.descendants, c.kind = .anonClass → ∀ token ∈ c.tokens, token.kind.isBrace = false

instance (file : Cursor) : Decidable file.NamelessUnbraced :=
  inferInstanceAs (Decidable (∀ c ∈ file.descendants, c.kind = .anonClass →
    ∀ token ∈ c.tokens, token.kind.isBrace = false))

/-- The body begins and ends with a brace, and these are the innermost braces around the part: all braces
between them and the part are in pairs. -/
structure Between (body d : Cursor) : Prop where
  /-- It is a part of the body. -/
  part : d ∈ body.children
  /-- The braces of the body and those on either side of the part. -/
  braces : ∃ opening before after closing,
    body.tree.children = .leaf .lBrace opening :: (before ++ d.tree :: (after ++ [.leaf .rBrace closing])) ∧
    d.left.reverse = .leaf .lBrace opening :: before ∧
    Balanced ((Tree.leavesOfAll before).map (·.1)) ∧ Balanced ((Tree.leavesOfAll after).map (·.1))

/-- **The innermost braces around a node in a class body are those of the body.** -/
theorem between_of_paired {body d : Cursor} (paired : body.tree.Everywhere Paired)
    (isBody : body.kind = .classBody) (mem : d ∈ body.children) (node : d.isLeaf = false) :
    Between body d := by
  have bodyNode : body.tree.isLeaf = false := by
    refine Bool.eq_false_iff.mpr fun leaf => ?_
    rw [children_of_isLeaf leaf] at mem
    cases mem
  obtain ⟨opening, inside, closing, parts, plain⟩ := (paired.here bodyNode).body isBody
  obtain ⟨front, back, all, left⟩ := exists_sides_of_mem_childrenFrom mem
  rw [List.append_nil] at left
  rw [isLeaf] at node
  -- The braces of the body are its first and its last part, and the node is neither.
  have both := all
  rw [parts] at both
  cases front with
  | nil =>
      obtain ⟨first, -⟩ := List.cons.inj both
      rw [← first] at node
      cases node
  | cons first before =>
      obtain ⟨rfl, rest⟩ := List.cons.inj both
      rcases List.eq_nil_or_concat back with rfl | ⟨after, last, rfl⟩
      · obtain ⟨-, ends⟩ := List.append_inj' rest rfl
        rw [← (List.cons.inj ends).1] at node
        cases node
      · have rest : inside ++ [.leaf .rBrace closing] = before ++ d.tree :: after.concat last := rest
        rw [List.concat_eq_append, ← List.cons_append, ← List.append_assoc] at rest
        obtain ⟨rfl, ends⟩ := List.append_inj' rest rfl
        obtain rfl := (List.cons.inj ends).1
        have below (part : Tree) (mem : part ∈ before ++ d.tree :: after) : part.Everywhere Paired := by
          refine paired.part ?_
          rw [parts]
          exact List.mem_cons_of_mem _ (List.mem_append_left _ mem)
        rw [ownKinds_append] at plain
        have plainAfter : Braceless (ownKinds after) := fun kind mem => by
          refine plain kind (List.mem_append_right _ ?_)
          exact (List.sublist_cons_self d.tree after).filterMap _ |>.subset mem
        refine ⟨mem, opening, before, after, closing, ?_, ?_, ?_, ?_⟩
        · rw [parts, List.append_assoc, List.cons_append]
        · rw [left, List.reverse_reverse]
        · exact Braceless.balanced_leavesOfAll (fun kind mem => plain kind (List.mem_append_left _ mem))
            fun part mem => below part (List.mem_append_left _ mem)
        · exact plainAfter.balanced_leavesOfAll fun part mem =>
            below part (List.mem_append_right _ (List.mem_cons_of_mem _ mem))

end Cursor

/-! ## (3) Texts without errors -/

namespace CleanFile

variable {file c : Cursor}

/-- A node other than the root is a part of a node in which there is room for it. -/
theorem exists_parent (clean : CleanFile file) (mem : c ∈ file.descendants)
    (placed : c.kind ∈ Kind.placed) :
    ∃ p ∈ file.descendants, c ∈ p.nodesOf c.kind ∧ p.kind.room c.kind ≠ 0 := by
  have notRoot : c ≠ file := by
    rintro rfl
    rw [clean.root] at placed
    exact absurd placed (by decide)
  obtain ⟨p, inFile, part⟩ : ∃ p ∈ file.descendants, c ∈ p.nodes := by
    have found := (Cursor.descendants_perm clean.node).mem_iff.mp mem
    exact List.mem_flatMap.mp ((List.mem_cons.mp found).resolve_left notRoot)
  have ofKind : c ∈ p.nodesOf c.kind := List.mem_filter.mpr ⟨part, beq_self_eq_true _⟩
  refine ⟨p, inFile, ofKind, fun none => ?_⟩
  rw [Cursor.nodesOf_eq_nil clean.room (List.mem_of_mem_filter inFile) placed none] at ofKind
  cases ofKind

/-- A member stands in a class body. -/
theorem exists_body (clean : CleanFile file) (mem : c ∈ file.descendants) (member : c.kind ∈ Kind.members) :
    ∃ body ∈ file.descendants, body.kind = .classBody ∧ c ∈ body.nodesOf c.kind := by
  have placed : ∀ kind ∈ Kind.members, kind ∈ Kind.placed := by decide
  obtain ⟨body, inFile, part, room⟩ := clean.exists_parent mem (placed c.kind member)
  exact ⟨body, inFile, not_not.mp fun ne => room (Kind.room_member member ne), part⟩

/-- A class body stands in a class-like or in a class without a name. -/
theorem exists_class (clean : CleanFile file) (mem : c ∈ file.descendants) (isBody : c.kind = .classBody) :
    ∃ owner ∈ file.descendants, (owner.kind.isClassLike || owner.kind == .anonClass) = true ∧
      c ∈ owner.nodesOf .classBody := by
  obtain ⟨owner, inFile, part, room⟩ := clean.exists_parent mem (by rw [isBody]; decide)
  rw [isBody] at part room
  refine ⟨owner, inFile, ?_, part⟩
  by_contra other
  exact room (if_neg other)

end CleanFile

/-- Texts in which no class without a name has braces of its own have braces in pairs. -/
theorem Parse.paired_ofText {source : Text} (clean : (Parse.ofText source).errors = [])
    (unbraced : (Cursor.ofText source).NamelessUnbraced) :
    (Parse.ofText source).tree.Everywhere Paired := by
  refine Parse.paired_ofTokens clean ?_
  refine Cursor.everywhere_of_descendants (c := Cursor.ofText source) fun c mem nameless kind own => ?_
  obtain ⟨token, inClass, rfl⟩ := Cursor.exists_token_of_mem_ownKinds own
  exact unbraced c mem nameless token inClass

/-- **The braces of class bodies match, and members belong to the class-like whose braces enclose them.** In
a text without errors, in which no brace stands in the place of the keyword of a class without a name, every
class body begins with a brace and ends with the one that matches it. Every member stands in such a body with
no other braces open around it, and it belongs to the class-like of this body; in a class without a name it
belongs to none. -/
theorem braces_enclose_members (source : Text) (clean : (Parse.ofText source).errors = [])
    (unbraced : (Cursor.ofText source).NamelessUnbraced) :
    (∀ body ∈ (Cursor.ofText source).descendants, body.kind = .classBody →
      ∃ opening inside closing,
        body.tree.children = .leaf .lBrace opening :: (inside ++ [.leaf .rBrace closing]) ∧
        Balanced ((Tree.leavesOfAll inside).map (·.1))) ∧
    ∀ member ∈ (Cursor.ofText source).descendants, member.kind ∈ Kind.members →
      ∃ c ∈ (Cursor.ofText source).descendants, ∃ body ∈ c.nodesOf .classBody, body.Between member ∧
        (c.kind.isClassLike || c.kind == .anonClass) = true ∧
        member.enclosingClassLike? = if c.kind.isClassLike then some c else none := by
  let file := Cursor.ofText source
  have isClean : CleanFile file := .ofText clean
  have paired : file.tree.Everywhere Paired := Parse.paired_ofText clean unbraced
  refine ⟨fun body inFile isBody => ?_, fun member inFile isMember => ?_⟩
  · obtain ⟨inElements, node⟩ := List.mem_filter.mp inFile
    have below := Cursor.everywhere_of_mem_elements paired inElements
    have node : body.tree.isLeaf = false := by simpa [Cursor.isLeaf] using node
    obtain ⟨opening, inside, closing, parts, plain⟩ := (below.here node).body isBody
    refine ⟨opening, inside, closing, parts, plain.balanced_leavesOfAll fun part mem => below.part ?_⟩
    rw [parts]
    exact List.mem_cons_of_mem _ (List.mem_append_left _ mem)
  · obtain ⟨body, inFile, isBody, part⟩ := isClean.exists_body inFile isMember
    obtain ⟨c, inFile', isClass, body'⟩ := isClean.exists_class inFile isBody
    obtain ⟨inBody, -⟩ := Cursor.mem_children_of_mem_nodesOf part
    obtain ⟨inClass, -⟩ := Cursor.mem_children_of_mem_nodesOf body'
    have node : member.isLeaf = false := by
      simpa using (List.mem_filter.mp (List.mem_of_mem_filter part)).2
    have below := Cursor.everywhere_of_mem_elements paired (List.mem_of_mem_filter inFile)
    have plain : ∀ kind ∈ Kind.members, (kind.isClassLike || kind == .anonClass) = false := by decide
    refine ⟨c, inFile', body, body', Cursor.between_of_paired below isBody inBody node, isClass, ?_⟩
    rw [Cursor.enclosingClassLike?_of_mem_children inBody (plain _ isMember),
      Cursor.enclosingClassLike?_of_mem_children inClass (by rw [isBody]; decide)]
    by_cases named : c.kind.isClassLike = true
    · rw [if_pos named, Cursor.enclosingClassLike?_of_isClassLike named]
    · rw [if_neg named]
      have nameless : c.kind = .anonClass := by
        rw [Bool.eq_false_iff.mpr named, Bool.false_or] at isClass
        exact beq_iff_eq.mp isClass
      exact Cursor.enclosingClassLike?_of_anonClass nameless

/-- A class with a class without a name in one of its methods. -/
def nestedClasses : Text :=
  "<?php class A \x7b function m() \x7b return new class \x7b const C = 1; \x7d; \x7d \x7d".toList

/-- The braces of both bodies match. -/
theorem braces_enclose_members_nestedClasses :
    (Parse.ofText nestedClasses).errors = [] ∧ (Cursor.ofText nestedClasses).NamelessUnbraced ∧
      ((Cursor.ofText nestedClasses).ofKind .classBody).length = 2 ∧
      (∀ body ∈ (Cursor.ofText nestedClasses).descendants, body.kind = .classBody →
        ∃ opening inside closing,
          body.tree.children = .leaf .lBrace opening :: (inside ++ [.leaf .rBrace closing]) ∧
          Balanced ((Tree.leavesOfAll inside).map (·.1))) ∧
      ∀ member ∈ (Cursor.ofText nestedClasses).descendants, member.kind ∈ Kind.members →
        ∃ c ∈ (Cursor.ofText nestedClasses).descendants, ∃ body ∈ c.nodesOf .classBody,
          body.Between member ∧ (c.kind.isClassLike || c.kind == .anonClass) = true ∧
          member.enclosingClassLike? = if c.kind.isClassLike then some c else none := by
  have facts : (Parse.ofText nestedClasses).isClean = true ∧ (Cursor.ofText nestedClasses).NamelessUnbraced ∧
      ((Cursor.ofText nestedClasses).ofKind .classBody).length = 2 := by decide +kernel
  have clean : (Parse.ofText nestedClasses).errors = [] := List.isEmpty_iff.mp facts.1
  exact ⟨clean, facts.2.1, facts.2.2, braces_enclose_members nestedClasses clean facts.2.1⟩

/-- Two classes without a name that have a brace in the place of their keyword: the brackets of their
attributes are such that the keyword is looked for behind others. -/
def bracedKeywords : Text :=
  ("<?php class A \x7b function m() \x7b " ++
    "#[new #[[new #[B] [ \x7b\x7d] class()] \x7b \x7b\x7d] class C \x7b\x7d \x7d \x7d " ++
    "#[new #[[new #[B] [ \x7b\x7d] class()] \x7d \x7b\x7d] class D \x7b\x7d").toList

/-- Such braces can make a class body end with a brace that does not match, though there are no errors. -/
example : (Parse.ofText bracedKeywords).isClean = true ∧
    Balanced ((tokenize bracedKeywords).map Token.kind) ∧
    ∃ body ∈ (Cursor.ofText bracedKeywords).ofKind .classBody,
      ¬ Balanced ((Tree.leavesOfAll body.tree.children).map (·.1)) := by
  decide +kernel

/-- A class whose body ends with a modifier, and a class behind it. -/
def strayModifier : Text :=
  "<?php class A \x7b public \x7d class B \x7b function f() \x7b\x7d \x7d".toList

/-- All braces of this text are in pairs, and those of the second class enclose the method most closely. But
the damage behind the modifier takes the brace that closes the first class, so its body goes on behind that
brace, and the method belongs to it. -/
theorem strayModifier_moves_method :
    Balanced ((tokenize strayModifier).map Token.kind) ∧
      ((Cursor.ofText strayModifier).ofKind .methodDecl).map (fun m =>
          (m.start, m.enclosingClassLike?.map fun c => (c.start, c.identifier?.map Cursor.text))) =
        [(35, some (6, some ['A']))] := by
  decide +kernel

end PhpMembers
