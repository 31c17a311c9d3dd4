import PhpMembers.Proofs.Classes.Declared
import PhpMembers.Proofs.Printing.Reading
import PhpMembers.Proofs.Source.Imports
import PhpMembers.Proofs.Source.Parts

/-! # Skeletons come back

What a file declares is read off its tree. From the tree of a file with skeletons, exactly the entries of
these skeletons are read.

* `Regions.Global`, `resolveName?_of_nameText` : what plain words mean.
* `methodMembers_tree`, `propertyMembers_tree`, `constantMembers_tree`, `caseMember?_tree` : the entries of
  members.
* `ClassSkeleton.ofDeclaration?_eq` : the entry of a class-like.
* `skeletons_come_back` : the entries of a file. -/

namespace PhpMembers

/-! ## (1) Names -/

/-- A word has characters of names only. -/
theorem Word.notMem (w : Word) {c : Char} (other : isNameContinue c = false) : c ∉ w.text := by
  obtain ⟨text, valid⟩ := w
  cases text with
  | nil => cases valid
  | cons d ds =>
      obtain ⟨start, more⟩ := Bool.and_eq_true_iff.mp valid
      have continues : ∀ e ∈ d :: ds, isNameContinue e = true :=
        List.forall_mem_cons.mpr ⟨by rw [isNameContinue, start, Bool.true_or], List.all_eq_true.mp more⟩
      intro mem
      rw [continues c mem] at other
      cases other

/-- A character that is not there is not dropped. -/
theorem dropLeading_of_notMem {c : Char} {cs : Text} (absent : c ∉ cs) : dropLeading c cs = cs := by
  cases cs with
  | nil => rfl
  | cons d ds =>
      have other : (d == c) = false := beq_eq_false_iff_ne.mpr fun same => absent (same ▸ List.mem_cons_self)
      rw [dropLeading, List.dropWhile_cons_of_neg (by rw [other]; exact Bool.false_ne_true)]

/-- A word is the name of a member. -/
theorem Word.memberName_eq (w : Word) : MemberName.ofSyntax w.text = ⟨w.text⟩ := by
  rw [MemberName.ofSyntax, dropLeading_of_notMem (w.notMem rfl)]

/-- A word behind a `$` is the name of a property. -/
theorem Word.propertyName_eq (w : Word) : MemberName.ofSyntax ('$' :: w.text) = ⟨w.text⟩ := by
  have sigil : dropLeading '$' ('$' :: w.text) = dropLeading '$' w.text := rfl
  rw [MemberName.ofSyntax, sigil, dropLeading_of_notMem (w.notMem rfl)]

/-- `regions.Global`: everything is in the global namespace, and nothing is imported. -/
def Regions.Global (regions : Regions) : Prop :=
  ∀ offset, regions.namespaceAt? offset = none ∧ regions.importsAt offset = []

/-- A single region without a name and without imports. -/
theorem Regions.global_singleton (start stop : Nat) : Global [⟨start, stop, none, []⟩] := by
  intro offset
  let r : Region := ⟨start, stop, none, []⟩
  have found : at? [r] offset = if r.contains offset then some (0, r) else none := rfl
  rw [namespaceAt?, importsAt, found]
  cases r.contains offset with
  | false => exact ⟨rfl, rfl⟩
  | true => exact ⟨rfl, rfl⟩

namespace PlainWord

/-- A plain word is no reserved word in any letter case. -/
theorem ne_keyword (w : PlainWord) {word : Text} {kind : Kind} (known : keyword? word = some kind) :
    sameIgnoringCase w.text word = false := by
  refine beq_eq_false_iff_ne.mpr fun same => ?_
  have free := w.free
  rw [keyword?, same, ← keyword?, known] at free
  cases free

/-- A plain word is the name of a class. -/
theorem ofSyntax_eq (w : PlainWord) : ClassName.ofSyntax w.text = w.className := by
  rw [ClassName.ofSyntax, dropLeading_of_notMem (w.notMem rfl), className]

/-- What a plain word in a tree spells. -/
theorem nameText_tree (w : PlainWord) : w.tree.nameText = w.text := by
  simp [tree, Word.leaf, Tree.nameText, Tree.children, Tree.kind, Tree.isLeaf, Kind.isTrivia]

end PlainWord

section

variable {α β γ κ : Type} {key : α → κ} {key' : β → κ} {entry : β → γ} {xs : List α} {ys : List β}

/-- What is read from each of several things is read from all of them in turn. -/
theorem flatMap_eq_map {read : α → List γ} (same : xs.map key = ys.map key')
    (each : ∀ x ∈ xs, ∀ y ∈ ys, key x = key' y → read x = [entry y]) :
    xs.flatMap read = ys.map entry := by
  induction ys generalizing xs with
  | nil => rw [List.map_eq_nil_iff.mp same, List.flatMap_nil, List.map_nil]
  | cons y ys ih =>
      obtain ⟨x, xs, rfl, first, others⟩ := List.map_eq_cons_iff.mp same
      have rest := ih others fun x mem y mem' =>
        each x (List.mem_cons_of_mem _ mem) y (List.mem_cons_of_mem _ mem')
      rw [List.flatMap_cons, each x List.mem_cons_self y List.mem_cons_self first, rest, List.map_cons,
        List.singleton_append]

@[inherit_doc flatMap_eq_map]
theorem filterMap_eq_map {read? : α → Option γ} (same : xs.map key = ys.map key')
    (each : ∀ x ∈ xs, ∀ y ∈ ys, key x = key' y → read? x = some (entry y)) :
    xs.filterMap read? = ys.map entry := by
  rw [List.filterMap_eq_flatMap_toList]
  exact flatMap_eq_map same fun x mem y mem' eq => congrArg Option.toList (each x mem y mem' eq)

end

section

variable {regions : Regions} (isGlobal : regions.Global)
include isGlobal

/-- In the global namespace, a plain word means the class of that name. -/
theorem resolveName?_of_nameText {c : Cursor} {w : PlainWord} (spelled : c.nameText = w.text) :
    regions.resolveName? c = some w.className := by
  have notStatic := w.ne_keyword (show keyword? staticWord = some .staticKw by decide)
  have notNamespace := w.ne_keyword (show keyword? namespaceWord = some .namespaceKw by decide)
  have meaning : regions.resolve w.text c.start = w.className := by
    rw [regions.resolve_segment c.start (w.notMem rfl) notNamespace, (isGlobal c.start).2,
      (isGlobal c.start).1]
    exact w.ofSyntax_eq
  rw [Regions.resolveName?, spelled, w.notSelf, notStatic, w.notParent, meaning]
  rfl

/-- Plain words mean the classes of these names. -/
theorem filterMap_resolveName? {names : List Cursor} {ws : List PlainWord}
    (spelled : names.map Cursor.nameText = ws.map fun w => w.text) :
    names.filterMap regions.resolveName? = ws.map PlainWord.className :=
  filterMap_eq_map spelled fun _ _ _ _ first => resolveName?_of_nameText isGlobal first

/-- The first of several plain words means the class of that name. -/
theorem head?_bind_resolveName? {names : List Cursor} {ws : List PlainWord}
    (spelled : names.map Cursor.nameText = ws.map fun w => w.text) :
    names.head?.bind regions.resolveName? = ws.head?.map PlainWord.className := by
  cases ws with
  | nil => rw [List.map_eq_nil_iff.mp spelled]; rfl
  | cons w ws =>
      obtain ⟨c, cs, rfl, first, -⟩ := List.map_eq_cons_iff.mp spelled
      exact resolveName?_of_nameText isGlobal first

end

/-! ## (2) Members -/

section

variable {regions : Regions} {owner : ClassName} {d : Cursor} {w : Word}

/-- What is not documented and has no hint has no known type. -/
theorem declaredType_of_undocumented (undocumented : d.documentation? = none) (tag : Text)
    (wanted : Option Text) : declaredType regions none d tag wanted (some owner) = .unknown := by
  rw [declaredType, documentedType, undocumented]
  rfl

/-- The entry of a method. -/
theorem methodMembers_tree {isStatic : Bool} (tree : d.tree = MemberSkeleton.tree ⟨.method isStatic, w⟩)
    (undocumented : d.documentation? = none) :
    ClassEntry.methodMembers regions owner d = [MemberSkeleton.entry owner ⟨.method isStatic, w⟩] := by
  -- All of this can be read off the tree; where the node stands does not matter.
  have named : d.identifier?.map Cursor.text = some w.text := by
    rw [Cursor.identifier?, Cursor.map_text_token?, tree]
    cases isStatic <;> exact congrArg some (Tree.text_leaf .ident w.text)
  have modifier : d.isStatic = isStatic := by
    rw [Cursor.isStatic, Cursor.hasToken_eq, tree]
    cases isStatic <;> rfl
  have untyped : d.returnHint? = none := by
    have none : d.node? .returnType = none := by
      rw [← Option.map_eq_none_iff, Cursor.map_tree_node?, tree]
      cases isStatic <;> rfl
    rw [Cursor.returnHint?, none]
  have noParams : d.params = [] := by
    have trees : (d.node? .paramList).map Cursor.tree =
        some (.node .paramList [Piece.lParen.leaf, Piece.rParen.leaf]) := by
      rw [Cursor.map_tree_node?, tree]
      cases isStatic <;> rfl
    obtain ⟨list, found, listTree⟩ := Option.map_eq_some_iff.mp trees
    rw [Cursor.params, Cursor.paramList?, found]
    refine List.map_eq_nil_iff.mp ((list.map_tree_nodesOf .param).trans ?_)
    rw [listTree]
    rfl
  obtain ⟨token, found, text⟩ := Option.map_eq_some_iff.mp named
  simp only [ClassEntry.methodMembers, found, modifier, untyped, declaredType_of_undocumented undocumented,
    Cursor.promotedParams, noParams, text, w.memberName_eq]
  rfl

/-- The entry of a property. -/
theorem propertyMembers_tree {isStatic : Bool} (tree : d.tree = MemberSkeleton.tree ⟨.property isStatic, w⟩)
    (undocumented : d.documentation? = none) :
    ClassEntry.propertyMembers regions owner d = [MemberSkeleton.entry owner ⟨.property isStatic, w⟩] := by
  have modifier : d.isStatic = isStatic := by
    rw [Cursor.isStatic, Cursor.hasToken_eq, tree]
    cases isStatic <;> rfl
  have untyped : d.typeHint? = none := by
    rw [Cursor.typeHint?, ← Option.map_eq_none_iff, Cursor.map_tree_node?, tree]
    cases isStatic <;> rfl
  have elements : (d.nodesOf .propertyElement).map Cursor.tree =
      [.node .propertyElement [(Piece.sigiled w).leaf]] := by
    rw [Cursor.map_tree_nodesOf, tree]
    cases isStatic <;> rfl
  obtain ⟨element, only, elementTree⟩ := List.map_eq_singleton_iff.mp elements
  have named : element.variableToken?.map Cursor.text = some ('$' :: w.text) := by
    rw [Cursor.variableToken?, Cursor.map_text_token?, elementTree]
    exact congrArg some (Tree.text_leaf .variable ('$' :: w.text))
  obtain ⟨token, found, text⟩ := Option.map_eq_some_iff.mp named
  simp only [ClassEntry.propertyMembers, only, List.filterMap_cons, List.filterMap_nil, found, Option.map_some,
    modifier, untyped, declaredType_of_undocumented undocumented, text, w.propertyName_eq]
  rfl

/-- The entry of a constant. -/
theorem constantMembers_tree (tree : d.tree = MemberSkeleton.tree ⟨.constant, w⟩) :
    ClassEntry.constantMembers d = [MemberSkeleton.entry owner ⟨.constant, w⟩] := by
  have elements : (d.nodesOf .constElement).map Cursor.tree = [.node .constElement
      [w.leaf, blankLeaf, Piece.equals.leaf, blankLeaf, .node .literal [Piece.one.leaf]]] := by
    rw [Cursor.map_tree_nodesOf, tree]
    rfl
  obtain ⟨element, only, elementTree⟩ := List.map_eq_singleton_iff.mp elements
  have named : element.identifier?.map Cursor.text = some w.text := by
    rw [Cursor.identifier?, Cursor.map_text_token?, elementTree]
    exact congrArg some (Tree.text_leaf .ident w.text)
  obtain ⟨token, found, text⟩ := Option.map_eq_some_iff.mp named
  simp only [ClassEntry.constantMembers, only, List.filterMap_cons, List.filterMap_nil, found, Option.map_some,
    text, w.memberName_eq]
  rfl

/-- The entry of a case. -/
theorem caseMember?_tree (tree : d.tree = MemberSkeleton.tree ⟨.enumCase, w⟩) :
    ClassEntry.caseMember? owner d = some (MemberSkeleton.entry owner ⟨.enumCase, w⟩) := by
  have named : d.identifier?.map Cursor.text = some w.text := by
    rw [Cursor.identifier?, Cursor.map_text_token?, tree]
    exact congrArg some (Tree.text_leaf .ident w.text)
  obtain ⟨token, found, text⟩ := Option.map_eq_some_iff.mp named
  rw [ClassEntry.caseMember?, found, Option.map_some, text, w.memberName_eq]
  rfl

end

/-! ## (3) Class-likes -/

namespace Tree

@[simp] theorem nodesAmong_leaf (p : Piece) (kind : Kind) (trees : List Tree) :
    nodesAmong kind (p.leaf :: trees) = nodesAmong kind trees := nodesAmong_cons_leaf rfl kind trees

@[simp] theorem nodesAmong_blankLeaf (kind : Kind) (trees : List Tree) :
    nodesAmong kind (blankLeaf :: trees) = nodesAmong kind trees := nodesAmong_cons_leaf rfl kind trees

@[simp] theorem nodesAmong_word (w : Word) (kind : Kind) (trees : List Tree) :
    nodesAmong kind (w.leaf :: trees) = nodesAmong kind trees := nodesAmong_cons_leaf rfl kind trees

/-- The names in a list of names. -/
theorem nodesAmong_nameTrees (names : List PlainWord) :
    nodesAmong .nameRef (nameTrees names) = names.map PlainWord.tree := by
  induction names using nameTrees.induct with
  | case1 => rfl
  | case2 w => simp [nameTrees, PlainWord.tree]
  | case3 w ws more ih =>
      rw [nameTrees, List.map_cons, ← ih]
      · simp [PlainWord.tree]
      · exact more

/-- The clauses of another kind. -/
theorem nodesAmong_clauseTrees_of_ne {kind wanted : Kind} (ne : kind ≠ wanted) (keyword : Piece)
    (names : List PlainWord) : nodesAmong wanted (clauseTrees kind keyword names) = [] := by
  rw [clauseTrees]
  split <;> simp [ne]

/-- The names in a clause. -/
theorem names_clauseTrees (kind : Kind) (keyword : Piece) (names : List PlainWord) :
    (nodesAmong kind (clauseTrees kind keyword names)).flatMap
      (fun part => (nodesAmong .nameRef part.children).map nameText) = names.map fun w => w.text := by
  have spelled : (nodesAmong .nameRef (nameTrees names)).map nameText = names.map fun w => w.text := by
    rw [nodesAmong_nameTrees, List.map_map]
    exact List.map_congr_left fun w _ => w.nameText_tree
  rw [clauseTrees]
  split
  case isTrue nil => rw [nil]; rfl
  case isFalse => simpa [children] using spelled

/-- Nodes with blanks between them. -/
theorem nodesAmong_flatMap {α : Type} {part : α → Tree} {kind : α → Kind} (wanted : Kind)
    (isNode : ∀ x, ∃ parts, part x = node (kind x) parts) (xs : List α) :
    nodesAmong wanted (xs.flatMap fun x => [part x, blankLeaf]) =
      (xs.filter fun x => kind x == wanted).map part := by
  induction xs with
  | nil => rfl
  | cons x xs ih =>
      obtain ⟨parts, eq⟩ := isNode x
      rw [List.flatMap_cons, nodesAmong_append, ih, List.filter_cons]
      by_cases isKind : kind x = wanted <;> simp [isKind, eq]

end Tree

namespace ClassSkeleton

/-- The nodes of a kind between the braces. -/
theorem nodesAmong_body (s : ClassSkeleton) (kind : Kind) :
    Tree.nodesAmong kind s.body.children = (s.traits.filter fun _ => Kind.traitUse == kind).map useTree ++
      (s.grouped kind).map MemberSkeleton.tree := by
  have parts : (s.items.flatMap fun i => [i.2, blankLeaf]) =
      (s.traits.flatMap fun w => [useTree w, blankLeaf]) ++
        s.members.flatMap fun m => [m.tree, blankLeaf] := by
    rw [items, List.flatMap_append, List.flatMap_map, List.flatMap_map]
  have uses := Tree.nodesAmong_flatMap kind (fun w => ⟨_, (rfl : useTree w = .node .traitUse _)⟩) s.traits
  have members := Tree.nodesAmong_flatMap kind
    (fun m => ⟨_, (rfl : MemberSkeleton.tree m = .node m.form.declaration _)⟩) s.members
  simp [body, parts, Tree.children, uses, members, grouped]

variable {s : ClassSkeleton} {c : Cursor} (tree : c.tree = s.tree)
include tree

/-- The names behind `extends`. -/
theorem map_nameText_extendsNames :
    c.extendsNames.map Cursor.nameText = s.head.extended.map fun w => w.text := by
  have other := Tree.nodesAmong_clauseTrees_of_ne (show Kind.implementsClause ≠ .extendsClause by decide)
    .implementsKw s.head.implemented
  rw [Cursor.extendsNames, Cursor.clauseNames, Cursor.map_nameText_flatMap_names (c.map_tree_nodesOf _), tree,
    ← Tree.names_clauseTrees .extendsClause .extendsKw]
  simp [ClassSkeleton.tree, Tree.children, other, body]

/-- The names behind `implements`. -/
theorem map_nameText_implementsNames :
    c.implementsNames.map Cursor.nameText = s.head.implemented.map fun w => w.text := by
  have other := Tree.nodesAmong_clauseTrees_of_ne (show Kind.extendsClause ≠ .implementsClause by decide)
    .extendsKw s.head.extended
  rw [Cursor.implementsNames, Cursor.clauseNames, Cursor.map_nameText_flatMap_names (c.map_tree_nodesOf _), tree,
    ← Tree.names_clauseTrees .implementsClause .implementsKw]
  simp [ClassSkeleton.tree, Tree.children, other, body]

/-- The braces of a class-like. -/
theorem exists_classBody : ∃ braces, c.classBody? = some braces ∧ braces.tree = s.body := by
  have noExtends := Tree.nodesAmong_clauseTrees_of_ne (show Kind.extendsClause ≠ .classBody by decide)
    .extendsKw s.head.extended
  have noImplements := Tree.nodesAmong_clauseTrees_of_ne (show Kind.implementsClause ≠ .classBody by decide)
    .implementsKw s.head.implemented
  refine Option.map_eq_some_iff.mp ?_
  rw [Cursor.classBody?, Cursor.map_tree_node?, tree]
  simp [ClassSkeleton.tree, Tree.children, noExtends, noImplements, body]

/-- The parts of a kind between the braces. -/
theorem map_tree_membersOf (kind : Kind) :
    (c.membersOf kind).map Cursor.tree = (s.traits.filter fun _ => Kind.traitUse == kind).map useTree ++
      (s.grouped kind).map MemberSkeleton.tree := by
  obtain ⟨braces, found, isBody⟩ := exists_classBody tree
  simp only [Cursor.membersOf, found]
  rw [Cursor.map_tree_nodesOf, isBody, nodesAmong_body]

/-- Nothing between the braces is documented. -/
theorem documentation?_of_mem_membersOf {kind : Kind} {d : Cursor} (mem : d ∈ c.membersOf kind) :
    d.documentation? = none := by
  obtain ⟨braces, found, isBody⟩ := exists_classBody tree
  simp only [Cursor.membersOf, found] at mem
  refine Cursor.documentation?_of_mem_children (Cursor.mem_children_of_mem_nodesOf mem).1 ?_
  rw [isBody, body, Tree.children]
  simp only [List.forall_mem_append, List.forall_mem_cons, List.forall_mem_flatMap]
  have item : ∀ i ∈ s.items, i.2.kind ≠ .docComment := by
    intro i mem
    rw [items, List.mem_append, List.mem_map, List.mem_map] at mem
    rcases mem with ⟨w, -, rfl⟩ | ⟨m, -, rfl⟩
    · rintro ⟨⟩
    · obtain ⟨form, w⟩ := m
      cases form <;> rintro ⟨⟩
  have none := List.forall_mem_nil fun t : Tree => t.kind ≠ .docComment
  exact ⟨⟨by decide, by decide, fun i mem => ⟨item i mem, by decide, none⟩⟩, by decide, none⟩

/-- The names of the traits. -/
theorem map_nameText_traitNames : c.traitNames.map Cursor.nameText = s.traits.map fun w => w.text := by
  have none : s.grouped .traitUse = [] := by
    refine List.filter_eq_nil_iff.mpr fun m _ => ?_
    obtain ⟨form, w⟩ := m
    cases form <;> rintro ⟨⟩
  have trees : (c.membersOf .traitUse).map Cursor.tree = s.traits.map useTree := by
    rw [map_tree_membersOf tree, none]
    simp
  have spelled (w : PlainWord) :
      (Tree.nodesAmong .nameRef (useTree w).children).map Tree.nameText = [w.text] := by
    rw [← w.nameText_tree]
    rfl
  rw [Cursor.traitNames, Cursor.map_nameText_flatMap_names trees, List.flatMap_map, List.map_eq_flatMap]
  exact List.flatMap_congr fun w _ => spelled w

/-- The entries of the members that are declared in one way. -/
theorem flatMap_membersOf (kind : Kind) (declares : Kind.traitUse ≠ kind) {read : Cursor → List MemberEntry}
    {owner : ClassName} (each : ∀ d m, d.tree = MemberSkeleton.tree m → d.documentation? = none →
      m.form.declaration = kind → read d = [m.entry owner]) :
    (c.membersOf kind).flatMap read = (s.grouped kind).map (·.entry owner) := by
  have trees : (c.membersOf kind).map Cursor.tree = (s.grouped kind).map MemberSkeleton.tree := by
    rw [map_tree_membersOf tree, List.filter_eq_nil_iff.mpr fun _ _ same => declares (beq_iff_eq.mp same)]
    rfl
  refine flatMap_eq_map trees fun d mem m inGroup isMember => ?_
  exact each d m isMember (documentation?_of_mem_membersOf tree mem)
    (beq_iff_eq.mp (List.mem_filter.mp inGroup).2)

/-- The members of a class-like: methods come first, then properties, constants and cases. -/
theorem members_eq (regions : Regions) (owner : ClassName) :
    (c.membersOf .methodDecl).flatMap (ClassEntry.methodMembers regions owner)
        ++ (c.membersOf .propertyDecl).flatMap (ClassEntry.propertyMembers regions owner)
        ++ (c.membersOf .classConstDecl).flatMap ClassEntry.constantMembers
        ++ (c.membersOf .enumCase).filterMap (ClassEntry.caseMember? owner) =
      [.methodDecl, .propertyDecl, .classConstDecl, .enumCase].flatMap fun declaration =>
        (s.grouped declaration).map (·.entry owner) := by
  -- The form of a member tells its declaration, so no member is read twice.
  have methods : (c.membersOf .methodDecl).flatMap (ClassEntry.methodMembers regions owner) =
      (s.grouped .methodDecl).map (·.entry owner) := by
    refine flatMap_membersOf tree .methodDecl (by decide) fun d m isMember undocumented declares => ?_
    obtain ⟨form, w⟩ := m
    cases form with
    | method isStatic => exact methodMembers_tree isMember undocumented
    | property isStatic | constant | enumCase => cases declares
  have properties : (c.membersOf .propertyDecl).flatMap (ClassEntry.propertyMembers regions owner) =
      (s.grouped .propertyDecl).map (·.entry owner) := by
    refine flatMap_membersOf tree .propertyDecl (by decide) fun d m isMember undocumented declares => ?_
    obtain ⟨form, w⟩ := m
    cases form with
    | property isStatic => exact propertyMembers_tree isMember undocumented
    | method isStatic | constant | enumCase => cases declares
  have constants : (c.membersOf .classConstDecl).flatMap ClassEntry.constantMembers =
      (s.grouped .classConstDecl).map (·.entry owner) := by
    refine flatMap_membersOf tree .classConstDecl (by decide) fun d m isMember undocumented declares => ?_
    obtain ⟨form, w⟩ := m
    cases form with
    | constant => exact constantMembers_tree isMember
    | method isStatic | property isStatic | enumCase => cases declares
  have enumCases : (c.membersOf .enumCase).filterMap (ClassEntry.caseMember? owner) =
      (s.grouped .enumCase).map (·.entry owner) := by
    rw [List.filterMap_eq_flatMap_toList]
    refine flatMap_membersOf tree .enumCase (by decide) fun d m isMember undocumented declares => ?_
    obtain ⟨form, w⟩ := m
    cases form with
    | enumCase => exact congrArg Option.toList (caseMember?_tree isMember)
    | method isStatic | property isStatic | constant => cases declares
  rw [methods, properties, constants, enumCases]
  simp only [List.flatMap_cons, List.flatMap_nil, List.append_nil, List.append_assoc]

/-- **The entry of a class-like** says what the skeleton says. -/
theorem ofDeclaration?_eq {regions : Regions} (isGlobal : regions.Global) :
    ClassEntry.ofDeclaration? regions c = some s.entry := by
  have named : regions.className? c = some s.name.className := by
    have spelled : c.identifier?.map Cursor.text = some s.name.text := by
      rw [Cursor.identifier?, Cursor.map_text_token?, tree]
      obtain ⟨name, head, traits, members⟩ := s
      cases head <;> exact congrArg some (Tree.text_leaf .ident name.text)
    obtain ⟨token, found, text⟩ := Option.map_eq_some_iff.mp spelled
    rw [Regions.className?, found, Option.map_some, text, (isGlobal c.start).1]
    exact congrArg some s.name.ofSyntax_eq
  have kind : c.kind.classKind = s.head.kind := by
    rw [Cursor.kind, tree, ClassSkeleton.tree, Tree.kind, ClassHead.declaration]
    cases s.head <;> rfl
  have extended := map_nameText_extendsNames tree
  have implemented := map_nameText_implementsNames tree
  -- An interface extends interfaces; only other class-likes have a parent in this place.
  have parent : (if s.head.kind = .interface then none else c.extendsNames.head?.bind regions.resolveName?) =
      s.head.parent.map PlainWord.className := by
    rw [head?_bind_resolveName? isGlobal extended]
    cases s.head with
    | plain parent interfaces => cases parent <;> rfl
    | interface parents => rfl
    | trait => rfl
    | enum interfaces => rfl
  have interfaces : (if s.head.kind = .interface then c.extendsNames.filterMap regions.resolveName?
      else c.implementsNames.filterMap regions.resolveName?) = s.head.interfaces.map PlainWord.className := by
    rw [filterMap_resolveName? isGlobal extended, filterMap_resolveName? isGlobal implemented]
    cases s.head <;> rfl
  have traits := filterMap_resolveName? isGlobal (map_nameText_traitNames tree)
  have members := members_eq tree regions s.name.className
  simp only [ClassEntry.ofDeclaration?, named, Option.map_some, kind, parent, interfaces, traits, members]
  rfl

end ClassSkeleton

/-! ## (4) Files -/

namespace Tree

variable {kinds : List Kind}

/-- Leaves are no nodes. -/
@[simp] theorem avoids_leaf (p : Piece) : p.leaf.Avoids kinds := .leaf

@[simp] theorem avoids_blankLeaf : blankLeaf.Avoids kinds := .leaf

@[simp] theorem avoids_word (w : Word) : w.leaf.Avoids kinds := .leaf

end Tree

/-- Names are none of these. -/
theorem avoids_nameTrees {names : List PlainWord} : ∀ part ∈ nameTrees names, part.Avoids outerKinds := by
  have word (w : PlainWord) : w.tree.Avoids outerKinds := Tree.avoids_node.mpr ⟨by decide, by simp⟩
  induction names using nameTrees.induct with
  | case1 => exact List.forall_mem_nil _
  | case2 w => simpa [nameTrees] using word w
  | case3 w ws more ih =>
      rw [nameTrees]
      · simpa [word] using ih
      · exact more

/-- Nor are clauses. -/
theorem avoids_clauseTrees {kind : Kind} (inner : kind ∉ outerKinds) (keyword : Piece)
    (names : List PlainWord) : ∀ part ∈ clauseTrees kind keyword names, part.Avoids outerKinds := by
  rw [clauseTrees]
  split
  · exact List.forall_mem_nil _
  · simpa [Tree.avoids_node, inner] using avoids_nameTrees

/-- Nor are members. -/
theorem MemberSkeleton.avoids_tree (m : MemberSkeleton) : m.tree.Avoids outerKinds := by
  obtain ⟨form, w⟩ := m
  cases form with
  | method isStatic | property isStatic =>
      cases isStatic <;> simp [tree, modifierTrees, Tree.avoids_node, MemberForm.declaration, outerKinds]
  | constant | enumCase => simp [tree, Tree.avoids_node, MemberForm.declaration, outerKinds]

namespace ClassSkeleton

/-- Nor is anything below a class-like. -/
theorem avoids_children (s : ClassSkeleton) : ∀ part ∈ s.tree.children, part.Avoids outerKinds := by
  have use (w : PlainWord) : (useTree w).Avoids outerKinds := by
    simp [useTree, PlainWord.tree, Tree.avoids_node, outerKinds]
  have item : ∀ i ∈ s.items, i.2.Avoids outerKinds := by
    intro i mem
    rw [items, List.mem_append, List.mem_map, List.mem_map] at mem
    rcases mem with ⟨w, -, rfl⟩ | ⟨m, -, rfl⟩
    · exact use w
    · exact m.avoids_tree
  have body : s.body.Avoids outerKinds := by
    refine Tree.avoids_node.mpr ⟨by decide, ?_⟩
    simp only [List.forall_mem_append, List.forall_mem_cons, List.forall_mem_flatMap]
    exact ⟨⟨Tree.avoids_leaf _, Tree.avoids_blankLeaf, by simpa using item⟩, Tree.avoids_leaf _,
      List.forall_mem_nil _⟩
  have extended := avoids_clauseTrees (show Kind.extendsClause ∉ outerKinds by decide) .extendsKw
    s.head.extended
  have implemented := avoids_clauseTrees (show Kind.implementsClause ∉ outerKinds by decide) .implementsKw
    s.head.implemented
  simp only [tree, Tree.children, List.forall_mem_append, List.forall_mem_cons]
  simpa [body] using And.intro extended implemented

end ClassSkeleton

/-- The node of a class-like declares one. -/
theorem ClassHead.isClassLike_declaration (head : ClassHead) : head.declaration.isClassLike = true := by
  cases head <;> rfl

namespace Cursor

variable {c d : Cursor} {kinds : List Kind}

/-- A class-like contains no other one. -/
theorem classLikes_of_tree {s : ClassSkeleton} (tree : c.tree = s.tree) : c.classLikes = [c] := by
  have parts : c.children.flatMap classLikes = [] := by
    refine List.flatMap_eq_nil_iff.mpr fun d mem => classLikes_eq_nil (s.avoids_children _ ?_)
    rw [← tree]
    exact tree_mem_of_mem_childrenFrom mem
  have here : (c.kind.isClassLike && !c.isLeaf) = true := by
    rw [kind, isLeaf, tree]
    exact Bool.and_eq_true_iff.mpr ⟨s.head.isClassLike_declaration, rfl⟩
  rw [classLikes_eq, parts, List.append_nil]
  exact List.filter_cons_of_pos here

/-- What is read from the class-likes of a file, one after the other. -/
theorem filterMap_classLikes {read? : Cursor → Option ClassEntry}
    (each : ∀ c s, c.tree = ClassSkeleton.tree s → read? c = some s.entry) (parent : Cursor)
    (left : List Tree) (start : Nat) (skeletons : List ClassSkeleton) :
    ((childrenFrom parent left start (skeletons.flatMap fun s => [s.tree, blankLeaf])).flatMap
      classLikes).filterMap read? = skeletons.map ClassSkeleton.entry := by
  induction skeletons generalizing left start with
  | nil => rfl
  | cons s skeletons ih =>
      have own (right : List Tree) (stop : Nat) : classLikes (child parent left s.tree right start stop) =
          [child parent left s.tree right start stop] := classLikes_of_tree rfl
      rw [List.flatMap_cons, List.cons_append, List.singleton_append, childrenFrom, List.flatMap_cons, own,
        flatMap_classLikes_cons (t := blankLeaf) rfl, List.singleton_append,
        List.filterMap_cons_some (each _ s rfl), ih, List.map_cons]

/-- The entries of a file with skeletons. -/
theorem allOf_eq {skeletons : List ClassSkeleton} (tree : c.tree = fileTree skeletons) :
    ClassEntry.allOf c = skeletons.map ClassSkeleton.entry := by
  -- Without namespaces and imports the whole file is one region.
  have avoids : c.tree.Avoids [.namespaceDef, .useDecl] := by
    rw [tree, fileTree, Tree.avoids_node]
    refine ⟨by decide, ?_⟩
    simp only [List.forall_mem_append, List.forall_mem_flatMap, List.forall_mem_cons]
    refine ⟨?_, fun s _ =>
      ⟨Tree.avoids_node.mpr ⟨?_, ?_⟩, Tree.avoids_blankLeaf, List.forall_mem_nil _⟩⟩
    · intro t mem
      obtain ⟨token, -, rfl⟩ := List.mem_map.mp mem
      exact .leaf
    · have apart : ∀ kind ∈ [Kind.namespaceDef, Kind.useDecl], kind.isClassLike = false := by decide
      intro mem
      have notClassLike := apart _ mem
      rw [s.head.isClassLike_declaration] at notClassLike
      cases notClassLike
    · exact fun part mem => (s.avoids_children part mem).mono (by decide)
  have regions : Regions.ofFile c = [⟨c.start, c.stop, none, []⟩] := by
    have noImports : c.descendants.filter (·.kind == .useDecl) = [] := ofKind_eq_nil avoids (by decide)
    have noNamespaces : c.descendants.filter (·.kind == .namespaceDef) = [] := ofKind_eq_nil avoids (by decide)
    rw [Regions.ofFile, noImports, List.foldl_nil, Regions.withoutImports, noNamespaces]
  have file : ([c].filter fun d => d.kind.isClassLike && !d.isLeaf) = [] := by
    refine List.filter_cons_of_neg ?_
    rw [kind, tree]
    rintro ⟨⟩
  have parts : c.children = childrenFrom c [] c.start (.leaf .openTag ['<', '?', 'p', 'h', 'p'] :: blankLeaf ::
      skeletons.flatMap fun s => [s.tree, blankLeaf]) := by
    rw [children, tree]
    rfl
  rw [ClassEntry.allOf, ClassEntry.allWithin, regions, classLikes_eq, file, parts, List.nil_append,
    flatMap_classLikes_cons rfl, flatMap_classLikes_cons (t := blankLeaf) rfl]
  have isGlobal := Regions.global_singleton c.start c.stop
  exact filterMap_classLikes (fun c s tree => ClassSkeleton.ofDeclaration?_eq tree isGlobal) ..

end Cursor

/-- **Skeletons come back.** What is written for class-likes is read without errors, and the entries of the
text are those of the skeletons, in their order. -/
theorem skeletons_come_back (skeletons : List ClassSkeleton) :
    (Parse.ofText (sourceOf skeletons)).errors = [] ∧
      ClassEntry.allOfText (sourceOf skeletons) = skeletons.map ClassSkeleton.entry := by
  obtain ⟨tree, errors⟩ := Parse.ofText_sourceOf skeletons
  exact ⟨errors, Cursor.allOf_eq tree⟩

end PhpMembers
