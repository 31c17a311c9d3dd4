import PhpMembers.Classes.Table
import PhpMembers.Proofs.Search.Names
import PhpMembers.Proofs.Syntax.Naming
import PhpMembers.Proofs.Syntax.Parents

/-! # The declared members of a file

Which members a file declares is read twice: a search walks over all nodes and looks for the class-like
around each declaration, and an entry of the class table goes from a class-like down to its members. In a
text without errors both find the same members.

* `CleanFile` : what is known of the tree of such a text.
* `Cursor.declaredBySites`, `Cursor.declaredByEntries` : the two readings.
* `declarations_agree` : they agree. -/

namespace PhpMembers

open scoped List

/-- A member as both readings see it: the class-like to which it belongs, its kind, and its name, if it has
one. -/
abbrev DeclaredMember := ClassName × MemberKind × Option MemberName

/-- A member of an entry as both readings see it. -/
def MemberEntry.row (owner : ClassName) (m : MemberEntry) : DeclaredMember :=
  (owner, m.kind, some m.name)

namespace Cursor

/-- The members that a search without a query finds declared in class-likes with a name. -/
def declaredBySites (file : Cursor) : List DeclaredMember :=
  ((Query.sites ⟨none, none, none⟩ true file).filter Site.isDeclaration).filterMap fun site =>
    ((Regions.ofFile file).enclosingClass? site.node).map fun owner =>
      (owner, site.kind, site.name.spelled?)

/-- The members of all entries of a file. -/
def declaredByEntries (file : Cursor) : List DeclaredMember :=
  (ClassEntry.allOf file).flatMap fun entry => entry.members.map (·.row entry.name)

/-! ## (1) The class-like around a part -/

/-- A part that is no class-like itself lies in the same class-like as the node. -/
theorem enclosingClassLike?_of_mem_children {c d : Cursor} (mem : d ∈ c.children)
    (plain : (d.kind.isClassLike || d.kind == .anonClass) = false) :
    d.enclosingClassLike? = c.enclosingClassLike? := by
  rw [enclosingClassLike?, ancestors_of_mem_children mem, List.find?_cons_of_neg (by simp [plain]),
    enclosingClassLike?]

/-- A class-like lies in itself. -/
theorem enclosingClassLike?_of_isClassLike {c : Cursor} (classLike : c.kind.isClassLike = true) :
    c.enclosingClassLike? = some c := by
  obtain ⟨outer, around⟩ := c.exists_ancestors_eq_cons
  rw [enclosingClassLike?, around, List.find?_cons_of_pos (by simp [classLike])]
  exact if_pos classLike

/-- Nothing lies directly in a class without a name. -/
theorem enclosingClassLike?_of_anonClass {c : Cursor} (anonymous : c.kind = .anonClass) :
    c.enclosingClassLike? = none := by
  obtain ⟨outer, around⟩ := c.exists_ancestors_eq_cons
  rw [enclosingClassLike?, around, List.find?_cons_of_pos (by simp [anonymous])]
  exact if_neg (by rw [anonymous]; decide)

end Cursor

/-! ## (2) Walking by class-likes -/

/-- What is known of the tree of a text without errors. -/
structure CleanFile (file : Cursor) : Prop where
  /-- It is that of a whole file. -/
  root : file.kind = .sourceFile
  /-- It is a node. -/
  node : file.isLeaf = false
  /-- There is room for the parts of each node. -/
  room : file.tree.Everywhere (InRoom Kind.room Kind.placed)
  /-- All declarations have names. -/
  named : file.tree.Everywhere Named

/-- The tree of a text without errors. -/
theorem CleanFile.ofText {source : Text} (clean : (Parse.ofText source).errors = []) :
    CleanFile (Cursor.ofText source) where
  root := rfl
  node := rfl
  room := Parse.inRoom_ofTokens _
  named := Parse.named_ofTokens clean

/-- The members of a class-like that stand directly in its body. -/
def Kind.members : List Kind := [.methodDecl, .propertyDecl, .classConstDecl, .enumCase]

/-- Members have room in class bodies only. -/
theorem Kind.room_member {kind outer : Kind} (member : kind ∈ Kind.members) (ne : outer ≠ .classBody) :
    outer.room kind = 0 := by
  simp only [members, List.mem_cons, List.not_mem_nil, or_false] at member
  rcases member with rfl | rfl | rfl | rfl
  all_goals exact if_neg ne

namespace Cursor

/-- A member stands in a class body. -/
theorem exists_body_of_mem_membersOf {c d : Cursor} {kind : Kind} (mem : d ∈ c.membersOf kind) :
    ∃ body ∈ c.nodesOf .classBody, d ∈ body.nodesOf kind := by
  rw [membersOf] at mem
  split at mem
  · rename_i body found
    rw [classBody?, node?] at found
    have isBody := List.find?_some found
    exact ⟨body, List.mem_filter.mpr ⟨List.mem_of_find?_eq_some found, isBody⟩, mem⟩
  · cases mem

/-- A node among the parts is a part of its kind. -/
theorem mem_children_of_mem_nodesOf {c d : Cursor} {kind : Kind} (mem : d ∈ c.nodesOf kind) :
    d ∈ c.children ∧ d.kind = kind := by
  obtain ⟨node, isKind⟩ := List.mem_filter.mp mem
  exact ⟨List.mem_of_mem_filter node, beq_iff_eq.mp isKind⟩

/-- The parts of nodes are below. -/
theorem mem_descendants_of_mem_nodesOf {file c d : Cursor} {kind : Kind}
    (inFile : c ∈ file.descendants) (mem : d ∈ c.nodesOf kind) : d ∈ file.descendants := by
  obtain ⟨inChildren, node⟩ := List.mem_filter.mp (List.mem_of_mem_filter mem)
  exact List.mem_filter.mpr ⟨children_subset_elements (List.mem_of_mem_filter inFile) inChildren, node⟩

/-- The members of a class-like are below. -/
theorem mem_descendants_of_mem_membersOf {file c d : Cursor} {kind : Kind}
    (inFile : c ∈ file.descendants) (mem : d ∈ c.membersOf kind) : d ∈ file.descendants := by
  obtain ⟨body, inClass, inBody⟩ := exists_body_of_mem_membersOf mem
  exact mem_descendants_of_mem_nodesOf (mem_descendants_of_mem_nodesOf inFile inClass) inBody

end Cursor

namespace CleanFile

variable {file p : Cursor} {β : Type}

/-- If only nodes of one kind have parts of another kind that count, the walk over these parts goes through
those nodes. -/
theorem flatMap_ofKind_perm (clean : CleanFile file) (parent : Kind) {kind : Kind}
    (ne : kind ≠ .sourceFile) {f : Cursor → List β}
    (only : ∀ p ∈ file.descendants, p.kind ≠ parent → (p.nodesOf kind).flatMap f = []) :
    (file.ofKind kind).flatMap f ~ (file.ofKind parent).flatMap fun p => (p.nodesOf kind).flatMap f := by
  have ne : file.kind ≠ kind := by
    rw [clean.root]
    exact ne.symm
  have parts : ((file.ofKind parent).flatMap fun p => (p.nodesOf kind).flatMap f) =
      file.descendants.flatMap fun p => (p.nodesOf kind).flatMap f :=
    Cursor.flatMap_filter_eq _ fun p mem other => only p mem (by simpa using other)
  rw [parts]
  exact Cursor.flatMap_ofKind_perm clean.node kind ne f

/-- A node has at most one body. -/
theorem nodesOf_classBody (clean : CleanFile file) (mem : p ∈ file.descendants) :
    p.nodesOf .classBody = p.classBody?.toList := by
  refine Cursor.nodesOf_eq_toList clean.room (List.mem_of_mem_filter mem) (by decide) ?_
  show (if _ then _ else _) ≤ _
  split
  · exact le_rfl
  · exact zero_le

/-- A node has at most one parameter list. -/
theorem nodesOf_paramList (clean : CleanFile file) (mem : p ∈ file.descendants) :
    p.nodesOf .paramList = p.paramList?.toList :=
  Cursor.nodesOf_eq_toList clean.room (List.mem_of_mem_filter mem) (by decide) le_rfl

/-- **The walk over the members of a kind goes through the class-likes.** -/
theorem flatMap_members_perm (clean : CleanFile file) {kind : Kind} (member : kind ∈ Kind.members)
    (f : Cursor → List β) :
    (file.ofKind kind).flatMap f ~ file.descendants.flatMap fun c => (c.membersOf kind).flatMap f := by
  have placed : kind ∈ Kind.placed ∧ kind ≠ .sourceFile := by
    have all : ∀ kind ∈ Kind.members, kind ∈ Kind.placed ∧ kind ≠ .sourceFile := by decide
    exact all kind member
  have inBodies := clean.flatMap_ofKind_perm .classBody placed.2 (f := f) fun p mem ne => by
    rw [Cursor.nodesOf_eq_nil clean.room (List.mem_of_mem_filter mem) placed.1
      (Kind.room_member member ne), List.flatMap_nil]
  have bodies := Cursor.flatMap_ofKind_perm clean.node .classBody
    (by rw [clean.root]; decide) fun body => (body.nodesOf kind).flatMap f
  have byClass : (file.descendants.flatMap fun c =>
      (c.nodesOf .classBody).flatMap fun body => (body.nodesOf kind).flatMap f) =
        file.descendants.flatMap fun c => (c.membersOf kind).flatMap f := by
    refine List.flatMap_congr fun c mem => ?_
    rw [clean.nodesOf_classBody mem, Cursor.membersOf]
    cases c.classBody? with
    | none => rfl
    | some body => exact List.flatMap_singleton _ _
  rw [← byClass]
  exact inBodies.trans bodies

end CleanFile

/-! ## (3) The rows of a class-like -/

section

variable (regions : Regions)

/-- The declaration at a node, as a member of the class-like around it. -/
def declaredRow (kind : MemberKind) (c : Cursor) : List DeclaredMember :=
  (regions.enclosingClass? c).toList.map fun owner => (owner, kind, c.declaredName.spelled?)

/-- A method and the properties that its parameters declare. -/
def methodRows (method : Cursor) : List DeclaredMember :=
  declaredRow regions .method method ++ method.promotedParams.flatMap (declaredRow regions .property)

/-- The properties of a declaration. -/
def propertyRows (declaration : Cursor) : List DeclaredMember :=
  (declaration.nodesOf .propertyElement).flatMap (declaredRow regions .property)

/-- The constants of a declaration. -/
def constantRows (declaration : Cursor) : List DeclaredMember :=
  (declaration.nodesOf .constElement).flatMap (declaredRow regions .constant)

/-- The members in the body of a class-like. -/
def classRows (c : Cursor) : List DeclaredMember :=
  (c.membersOf .methodDecl).flatMap (methodRows regions)
    ++ (c.membersOf .propertyDecl).flatMap (propertyRows regions)
    ++ (c.membersOf .classConstDecl).flatMap (constantRows regions)
    ++ (c.membersOf .enumCase).flatMap (declaredRow regions .constant)

/-- What a search finds at one node. -/
def siteRows (c : Cursor) : List DeclaredMember :=
  (c.site?.filter Site.isDeclaration).toList.flatMap fun site => declaredRow regions site.kind c

end

namespace Cursor

variable {regions : Regions}

/-- A declaration is a member of the class-like around it. -/
theorem siteRow_eq {c : Cursor} {site : Site} (found : c.site? = some site)
    (declares : site.isDeclaration = true) :
    ((regions.enclosingClass? site.node).map fun owner =>
      (owner, site.kind, site.name.spelled?)).toList = declaredRow regions site.kind c := by
  have name : site.name = site.node.declaredName := by
    rw [Site.name, beq_iff_eq.mp declares]
  rw [name, node_of_site? found, declaredRow]
  cases regions.enclosingClass? c <;> rfl

/-- **A search finds the rows of all nodes.** -/
theorem declaredBySites_perm (file : Cursor) :
    file.declaredBySites ~ file.descendants.flatMap (siteRows (.ofFile file)) := by
  let rows (site : Site) : List DeclaredMember :=
    (((Regions.ofFile file).enclosingClass? site.node).map fun owner =>
      (owner, site.kind, site.name.spelled?)).toList
  have accepted (site : Site) : Query.acceptsSite ⟨none, none, none⟩ true site = true := rfl
  have all : Query.sites ⟨none, none, none⟩ true file = file.sites := by
    rw [Query.sites_eq, List.filter_eq_self.mpr fun site _ => accepted site]
  -- Sorting the sites by position only changes their order.
  have unsorted : (file.sites.filter Site.isDeclaration).flatMap rows ~
      ((file.descendants.filterMap site?).filter Site.isDeclaration).flatMap rows :=
    ((Site.sortByPosition_perm _).filter _).flatMap_right rows
  have byNode : ((file.descendants.filterMap site?).filter Site.isDeclaration).flatMap rows =
      file.descendants.flatMap (siteRows (.ofFile file)) := by
    rw [List.filter_filterMap, List.filterMap_eq_flatMap_toList, List.flatMap_assoc]
    refine List.flatMap_congr fun c _ => ?_
    rw [siteRows]
    refine List.flatMap_congr fun site mem => ?_
    obtain ⟨found, declares⟩ := Option.filter_eq_some_iff.mp (Option.mem_toList.mp mem)
    exact siteRow_eq found declares
  rw [declaredBySites, all, List.filterMap_eq_flatMap_toList, ← byNode]
  exact unsorted

/-- What a search finds at a node, by its kind. -/
theorem siteRows_eq (regions : Regions) (c : Cursor) :
    siteRows regions c =
      (if c.kind == .methodDecl then declaredRow regions .method c else [])
        ++ (if c.kind == .param then
            if c.isPromotedInMethod then declaredRow regions .property c else [] else [])
        ++ (if c.kind == .propertyElement then declaredRow regions .property c else [])
        ++ (if c.kind == .constElement then
            if (c.parent?.any (·.kind == .classConstDecl)) then declaredRow regions .constant c else []
            else [])
        ++ (if c.kind == .enumCase then declaredRow regions .constant c else []) := by
  have declares (kind : MemberKind) : Site.isDeclaration ⟨.declaration, kind, c⟩ = true := rfl
  -- One case for each kind of node that is a site, and the last one for all other nodes.
  unfold siteRows site?
  split
  case h_1 | h_2 | h_5 => simp [*, Option.filter_some]
  case h_3 =>
    cases c.isPromotedInMethod with
    | true => simp [*, Option.filter_some]
    | false => simp [*]
  case h_4 =>
    cases c.parent? with
    | none => simp [*]
    | some parent =>
        by_cases isConst : parent.kind = .classConstDecl
        · simp [*, Option.filter_some]
        · simp [*]
  case h_6 => simp [*, Site.isDeclaration]
  case h_7 =>
    split
    all_goals simp [*, Site.isDeclaration]
  case h_8 => grind

end Cursor

namespace CleanFile

variable {file : Cursor} {regions : Regions}

/-- The properties of a file, by their declarations. -/
theorem properties_perm (clean : CleanFile file) :
    (file.ofKind .propertyElement).flatMap (declaredRow regions .property) ~
      (file.ofKind .propertyDecl).flatMap (propertyRows regions) := by
  refine clean.flatMap_ofKind_perm .propertyDecl (by decide) fun p mem ne => ?_
  have none : p.kind.room .propertyElement = 0 := if_neg ne
  rw [Cursor.nodesOf_eq_nil clean.room (List.mem_of_mem_filter mem) (by decide) none, List.flatMap_nil]

/-- The constants of the class-likes of a file, by their declarations. -/
theorem constants_perm (clean : CleanFile file) :
    ((file.ofKind .constElement).flatMap fun c =>
      if (c.parent?.any (·.kind == .classConstDecl)) then declaredRow regions .constant c else []) ~
      (file.ofKind .classConstDecl).flatMap (constantRows regions) := by
  refine (clean.flatMap_ofKind_perm .classConstDecl (by decide) fun p mem ne => ?_).trans ?_
  · refine List.flatMap_eq_nil_iff.mpr fun c inParts => ?_
    rw [Cursor.parent?_of_mem_children (Cursor.mem_children_of_mem_nodesOf inParts).1]
    exact if_neg (by simpa using ne)
  · refine List.Perm.of_eq (List.flatMap_congr fun p mem => List.flatMap_congr fun c inParts => ?_)
    rw [Cursor.parent?_of_mem_children (Cursor.mem_children_of_mem_nodesOf inParts).1]
    exact if_pos (List.mem_filter.mp mem).2

/-- The parameters of a file that are properties, too, by their methods. -/
theorem promoted_perm (clean : CleanFile file) :
    ((file.ofKind .param).flatMap fun c =>
      if c.isPromotedInMethod then declaredRow regions .property c else []) ~
      (file.ofKind .methodDecl).flatMap fun m =>
        m.promotedParams.flatMap (declaredRow regions .property) := by
  let promoted (c : Cursor) : List DeclaredMember :=
    if c.isPromotedInMethod then declaredRow regions .property c else []
  have byList : (file.ofKind .param).flatMap promoted ~
      (file.ofKind .paramList).flatMap fun list => (list.nodesOf .param).flatMap promoted := by
    refine clean.flatMap_ofKind_perm .paramList (by decide) fun p mem ne => ?_
    have none : p.kind.room .param = 0 := if_neg ne
    rw [Cursor.nodesOf_eq_nil clean.room (List.mem_of_mem_filter mem) (by decide) none, List.flatMap_nil]
  -- Only a method makes properties of its parameters.
  have inMethod {m list c : Cursor} (inM : list ∈ m.nodesOf .paramList) (inList : c ∈ list.nodesOf .param) :
      c.isPromotedInMethod = (m.kind == .methodDecl && c.isPromoted) := by
    rw [Cursor.isPromotedInMethod,
      Cursor.parent?_of_mem_children (Cursor.mem_children_of_mem_nodesOf inList).1, Option.bind_some,
      Cursor.parent?_of_mem_children (Cursor.mem_children_of_mem_nodesOf inM).1]
  have byMethod : ((file.ofKind .paramList).flatMap fun list => (list.nodesOf .param).flatMap promoted) ~
      (file.ofKind .methodDecl).flatMap fun m => (m.nodesOf .paramList).flatMap fun list =>
        (list.nodesOf .param).flatMap promoted := by
    refine clean.flatMap_ofKind_perm .methodDecl (by decide) fun p mem ne => ?_
    refine List.flatMap_eq_nil_iff.mpr fun list inP => List.flatMap_eq_nil_iff.mpr fun c inList => ?_
    exact if_neg (by simp [inMethod inP inList, ne])
  refine (byList.trans byMethod).trans (List.Perm.of_eq (List.flatMap_congr fun m mem => ?_))
  obtain ⟨inFile, isMethod⟩ := List.mem_filter.mp mem
  have lists := clean.nodesOf_paramList inFile
  rw [Cursor.promotedParams, Cursor.params]
  cases found : m.paramList? with
  | none =>
      rw [lists, found]
      rfl
  | some list =>
      rw [found] at lists
      have inM : list ∈ m.nodesOf .paramList := by
        rw [lists]
        exact List.mem_singleton_self list
      have inMethod : ∀ c ∈ list.nodesOf .param, promoted c =
          if c.isPromoted then declaredRow regions .property c else [] := by
        intro c inList
        simp only [promoted, inMethod inM inList, isMethod, Bool.true_and]
      rw [lists]
      show List.flatMap _ [list] = _
      rw [List.flatMap_singleton, List.flatMap_congr inMethod,
        ← Cursor.flatMap_filter_eq Cursor.isPromoted fun c _ other => if_neg (by simp [other])]
      exact List.flatMap_congr fun c mem => if_pos (List.mem_filter.mp mem).2

/-- Four walks are one walk. -/
theorem flatMap_four_perm {α β : Type} (l : List α) (f g h k : α → List β) :
    l.flatMap f ++ l.flatMap g ++ l.flatMap h ++ l.flatMap k ~
      l.flatMap fun a => f a ++ g a ++ h a ++ k a := by
  have two := List.flatMap_append_perm l f g
  have three := (two.append_right (l.flatMap h)).trans (List.flatMap_append_perm l _ h)
  exact (three.append_right (l.flatMap k)).trans (List.flatMap_append_perm l _ k)

/-- **The members that a search finds are those in the bodies of the class-likes.** -/
theorem declaredBySites_perm (clean : CleanFile file) :
    file.declaredBySites ~ file.descendants.flatMap (classRows (.ofFile file)) := by
  let regions := Regions.ofFile file
  have onKind (kind : Kind) (f : Cursor → List DeclaredMember) :
      (file.descendants.flatMap fun c => if c.kind == kind then f c else []) =
        (file.ofKind kind).flatMap f := by
    rw [Cursor.ofKind, ← Cursor.flatMap_filter_eq (fun c => c.kind == kind)
      fun c _ other => if_neg (by simp [other])]
    exact List.flatMap_congr fun c mem => if_pos (List.mem_filter.mp mem).2
  -- The rows of promoted parameters stand with the method around them.
  have methods : (file.descendants.flatMap fun c =>
      (if c.kind == .methodDecl then declaredRow regions .method c else [])
        ++ if c.kind == .param then
            if c.isPromotedInMethod then declaredRow regions .property c else [] else []) ~
      (file.ofKind .methodDecl).flatMap (methodRows regions) := by
    refine (List.flatMap_append_perm _ _ _).symm.trans ?_
    rw [onKind, onKind]
    exact (clean.promoted_perm.append_left _).trans (List.flatMap_append_perm _ _ _)
  calc file.declaredBySites
      ~ file.descendants.flatMap (siteRows regions) := Cursor.declaredBySites_perm file
    _ ~ (file.ofKind .methodDecl).flatMap (methodRows regions)
          ++ (file.ofKind .propertyDecl).flatMap (propertyRows regions)
          ++ (file.ofKind .classConstDecl).flatMap (constantRows regions)
          ++ (file.ofKind .enumCase).flatMap (declaredRow regions .constant) := by
        rw [funext (Cursor.siteRows_eq regions)]
        refine (flatMap_four_perm _ _ _ _ _).symm.trans ?_
        rw [onKind, onKind, onKind]
        exact ((methods.append clean.properties_perm).append clean.constants_perm).append_right _
    _ ~ file.descendants.flatMap (classRows regions) := by
        refine List.Perm.trans ?_ (flatMap_four_perm _ _ _ _ _)
        exact (((clean.flatMap_members_perm (by decide) _).append
          (clean.flatMap_members_perm (by decide) _)).append
            (clean.flatMap_members_perm (by decide) _)).append (clean.flatMap_members_perm (by decide) _)

end CleanFile

/-! ## (4) The entry of a class-like -/

namespace Cursor

variable {regions : Regions} {c d : Cursor} {kind : Kind}

/-- A part that is no class-like itself belongs to the same class as the node. -/
theorem enclosingClass?_of_mem_nodesOf (mem : d ∈ c.nodesOf kind)
    (plain : (kind.isClassLike || kind == .anonClass) = false) :
    regions.enclosingClass? d = regions.enclosingClass? c := by
  obtain ⟨inChildren, rfl⟩ := mem_children_of_mem_nodesOf mem
  rw [Regions.enclosingClass?, enclosingClassLike?_of_mem_children inChildren plain,
    Regions.enclosingClass?]

/-- A member belongs to the class in whose body it stands. -/
theorem enclosingClass?_of_mem_membersOf (mem : d ∈ c.membersOf kind) (member : kind ∈ Kind.members) :
    regions.enclosingClass? d = regions.enclosingClass? c := by
  obtain ⟨body, inClass, inBody⟩ := exists_body_of_mem_membersOf mem
  have plain : ∀ kind ∈ Kind.members, (kind.isClassLike || kind == .anonClass) = false := by decide
  rw [enclosingClass?_of_mem_nodesOf inBody (plain kind member),
    enclosingClass?_of_mem_nodesOf inClass (by decide)]

/-- A parameter that is a property, too, stands in the parameter list of its method. -/
theorem exists_list_of_mem_promotedParams (mem : d ∈ c.promotedParams) :
    ∃ list ∈ c.nodesOf .paramList, d ∈ list.nodesOf .param := by
  have inParams := List.mem_of_mem_filter mem
  rw [params] at inParams
  split at inParams
  · rename_i list found
    rw [paramList?, node?] at found
    have isList := List.find?_some found
    exact ⟨list, List.mem_filter.mpr ⟨List.mem_of_find?_eq_some found, isList⟩, inParams⟩
  · cases inParams

/-- The name of a declaration is its token. -/
theorem declaredName_eq_literal {name : Kind} {token : Cursor} (isName : c.kind.nameKind? = some name)
    (found : c.token? name = some token) : c.declaredName = .literal token := by
  rw [declaredName, identifier?, variableToken?]
  generalize c.kind = kind at isName
  unfold Kind.nameKind? at isName
  split at isName
  all_goals cases isName
  all_goals simp only [found]

end Cursor

namespace CleanFile

variable {file c d : Cursor} {regions : Regions} {owner : ClassName}

/-- In a class without a name nothing has a row. -/
theorem classRows_eq_nil (anonymous : regions.enclosingClass? c = none) : classRows regions c = [] := by
  -- No class lies between a class-like and its members, so a row would need a name of the class-like itself.
  have noRow {kind : MemberKind} {d : Cursor} (enclosing : regions.enclosingClass? d = none) :
      declaredRow regions kind d = [] := by
    rw [declaredRow, enclosing]
    rfl
  have noRows {kind : MemberKind} {part : Kind} {d : Cursor} (enclosing : regions.enclosingClass? d = none)
      (plain : (part.isClassLike || part == .anonClass) = false) :
      (d.nodesOf part).flatMap (declaredRow regions kind) = [] := by
    refine List.flatMap_eq_nil_iff.mpr fun e inParts => noRow ?_
    rw [Cursor.enclosingClass?_of_mem_nodesOf inParts plain, enclosing]
  have inClass {kind : Kind} {d : Cursor} (member : kind ∈ Kind.members) (mem : d ∈ c.membersOf kind) :
      regions.enclosingClass? d = none := by
    rw [Cursor.enclosingClass?_of_mem_membersOf mem member, anonymous]
  have methods : (c.membersOf .methodDecl).flatMap (methodRows regions) = [] := by
    refine List.flatMap_eq_nil_iff.mpr fun m mem => List.append_eq_nil_iff.mpr ⟨?_, ?_⟩
    · exact noRow (inClass (by decide) mem)
    · refine List.flatMap_eq_nil_iff.mpr fun d inParams => noRow ?_
      obtain ⟨list, inMethod, inList⟩ := Cursor.exists_list_of_mem_promotedParams inParams
      rw [Cursor.enclosingClass?_of_mem_nodesOf inList rfl,
        Cursor.enclosingClass?_of_mem_nodesOf inMethod rfl, inClass (by decide) mem]
  have properties : (c.membersOf .propertyDecl).flatMap (propertyRows regions) = [] :=
    List.flatMap_eq_nil_iff.mpr fun p mem => noRows (inClass (by decide) mem) rfl
  have constants : (c.membersOf .classConstDecl).flatMap (constantRows regions) = [] :=
    List.flatMap_eq_nil_iff.mpr fun p mem => noRows (inClass (by decide) mem) rfl
  have cases : (c.membersOf .enumCase).flatMap (declaredRow regions .constant) = [] :=
    List.flatMap_eq_nil_iff.mpr fun d mem => noRow (inClass (by decide) mem)
  rw [classRows, methods, properties, constants, cases]
  rfl

/-- Only class-likes have members with rows. -/
theorem classRows_of_not_isClassLike (clean : CleanFile file) (mem : c ∈ file.descendants)
    (other : c.kind.isClassLike = false) : classRows regions c = [] := by
  by_cases anonymous : c.kind = .anonClass
  · refine classRows_eq_nil ?_
    rw [Regions.enclosingClass?, Cursor.enclosingClassLike?_of_anonClass anonymous, Option.bind_none]
  · have none : c.kind.room .classBody = 0 := if_neg (by simp [other, anonymous])
    have noBody : c.classBody? = Option.none := by
      have bodies := clean.nodesOf_classBody mem
      rw [Cursor.nodesOf_eq_nil clean.room (List.mem_of_mem_filter mem) (by decide) none] at bodies
      exact Option.toList_eq_nil_iff.mp bodies.symm
    simp [classRows, Cursor.membersOf, noBody]

/-- The row of a declaration with a name. -/
theorem declaredRow_eq (clean : CleanFile file) (mem : d ∈ file.descendants) {name : Kind}
    (isName : d.kind.nameKind? = some name) (kind : MemberKind)
    (enclosing : regions.enclosingClass? d = some owner) :
    ∃ token, d.token? name = some token ∧
      declaredRow regions kind d = [(owner, kind, some (.ofSyntax token.text))] := by
  obtain ⟨token, found⟩ := Cursor.exists_token? clean.named mem isName
  refine ⟨token, found, ?_⟩
  rw [declaredRow, enclosing, Cursor.declaredName_eq_literal isName found]
  rfl

/-- The rows of several declarations that are named by the same kind of token. -/
theorem flatMap_declaredRow (clean : CleanFile file) (parts : List Cursor) (name : Kind)
    (kind : MemberKind) (each : ∀ d ∈ parts, d ∈ file.descendants ∧ d.kind.nameKind? = some name ∧
      regions.enclosingClass? d = some owner) :
    parts.flatMap (declaredRow regions kind) = parts.filterMap fun d =>
      (d.token? name).map fun token => (owner, kind, some (MemberName.ofSyntax token.text)) := by
  rw [List.filterMap_eq_flatMap_toList]
  refine List.flatMap_congr fun d mem => ?_
  obtain ⟨inFile, isName, enclosing⟩ := each d mem
  obtain ⟨token, found, own⟩ := clean.declaredRow_eq inFile isName kind enclosing
  rw [own, found]
  rfl

/-- A part of a declaration that is no class-like, with what is known of the declaration. -/
theorem part {kind name : Kind} (mem : c ∈ file.descendants)
    (enclosing : regions.enclosingClass? c = some owner) (inParts : d ∈ c.nodesOf kind)
    (isName : kind.nameKind? = some name) (plain : (kind.isClassLike || kind == .anonClass) = false) :
    d ∈ file.descendants ∧ d.kind.nameKind? = some name ∧ regions.enclosingClass? d = some owner := by
  refine ⟨Cursor.mem_descendants_of_mem_nodesOf mem inParts, ?_, ?_⟩
  · rw [(Cursor.mem_children_of_mem_nodesOf inParts).2, isName]
  · rw [Cursor.enclosingClass?_of_mem_nodesOf inParts plain, enclosing]

/-- The members of a method are its rows. -/
theorem methodMembers_rows (clean : CleanFile file) (mem : c ∈ file.descendants)
    (isMethod : c.kind = .methodDecl) (enclosing : regions.enclosingClass? c = some owner) :
    (ClassEntry.methodMembers regions owner c).map (·.row owner) = methodRows regions c := by
  obtain ⟨token, found, own⟩ := clean.declaredRow_eq mem (by rw [isMethod]; rfl) .method enclosing
  have promoted := clean.flatMap_declaredRow c.promotedParams .variable .property
    fun d inParams => by
      obtain ⟨list, inMethod, inList⟩ := Cursor.exists_list_of_mem_promotedParams inParams
      have within : regions.enclosingClass? list = some owner := by
        rw [Cursor.enclosingClass?_of_mem_nodesOf inMethod rfl, enclosing]
      exact part (Cursor.mem_descendants_of_mem_nodesOf mem inMethod) within inList rfl rfl
  have identifier : c.identifier? = some token := found
  rw [methodRows, own, promoted, ClassEntry.methodMembers, identifier]
  simp only
  rw [List.map_cons, List.map_filterMap]
  simp only [Option.map_map]
  rfl

/-- The members of a declaration of properties are its rows. -/
theorem propertyMembers_rows (clean : CleanFile file) (mem : c ∈ file.descendants)
    (enclosing : regions.enclosingClass? c = some owner) :
    (ClassEntry.propertyMembers regions owner c).map (·.row owner) = propertyRows regions c := by
  rw [propertyRows, clean.flatMap_declaredRow _ .variable .property fun d inParts =>
    part mem enclosing inParts rfl rfl, ClassEntry.propertyMembers, List.map_filterMap]
  simp only [Option.map_map]
  rfl

/-- The members of a declaration of constants are its rows. -/
theorem constantMembers_rows (clean : CleanFile file) (mem : c ∈ file.descendants)
    (enclosing : regions.enclosingClass? c = some owner) :
    (ClassEntry.constantMembers c).map (·.row owner) = constantRows regions c := by
  rw [constantRows, clean.flatMap_declaredRow _ .ident .constant fun d inParts =>
    part mem enclosing inParts rfl rfl, ClassEntry.constantMembers, List.map_filterMap]
  simp only [Option.map_map]
  rfl

/-- The member of an enum case is its row. -/
theorem caseMember_rows (clean : CleanFile file) (mem : c ∈ file.descendants)
    (isCase : c.kind = .enumCase) (enclosing : regions.enclosingClass? c = some owner) :
    ((ClassEntry.caseMember? owner c).map (·.row owner)).toList = declaredRow regions .constant c := by
  obtain ⟨token, found, own⟩ := clean.declaredRow_eq mem (by rw [isCase]; rfl) .constant enclosing
  rw [own, ClassEntry.caseMember?, Cursor.identifier?, found]
  rfl

/-- **The members of an entry are the rows of its class-like.** -/
theorem ofDeclaration_rows (clean : CleanFile file) (mem : c ∈ file.descendants)
    (classLike : c.kind.isClassLike = true) :
    ((ClassEntry.ofDeclaration? regions c).toList.flatMap fun entry =>
      entry.members.map (·.row entry.name)) = classRows regions c := by
  have own : regions.enclosingClass? c = regions.className? c := by
    rw [Regions.enclosingClass?, Cursor.enclosingClassLike?_of_isClassLike classLike, Option.bind_some]
  cases name : regions.className? c with
  | none =>
      rw [classRows_eq_nil (own.trans name), ClassEntry.ofDeclaration?, name]
      rfl
  | some owner =>
      have inFile {kind : Kind} {d : Cursor} (inClass : d ∈ c.membersOf kind) : d ∈ file.descendants :=
        Cursor.mem_descendants_of_mem_membersOf mem inClass
      have within {kind : Kind} {d : Cursor} (member : kind ∈ Kind.members)
          (inClass : d ∈ c.membersOf kind) : regions.enclosingClass? d = some owner := by
        rw [Cursor.enclosingClass?_of_mem_membersOf inClass member, own, name]
      have isKind {kind : Kind} {d : Cursor} (inClass : d ∈ c.membersOf kind) : d.kind = kind := by
        obtain ⟨body, -, inBody⟩ := Cursor.exists_body_of_mem_membersOf inClass
        exact (Cursor.mem_children_of_mem_nodesOf inBody).2
      rw [ClassEntry.ofDeclaration?, name, Option.map_some, Option.toList_some, List.flatMap_singleton]
      simp only [List.map_append, List.map_flatMap, List.map_filterMap]
      -- Both sides list the methods first, then the properties, the constants and the cases.
      rw [classRows, List.flatMap_congr fun d inClass =>
          clean.methodMembers_rows (inFile inClass) (isKind inClass) (within (by decide) inClass),
        List.flatMap_congr fun d inClass =>
          clean.propertyMembers_rows (inFile inClass) (within (by decide) inClass),
        List.flatMap_congr fun d inClass =>
          clean.constantMembers_rows (inFile inClass) (within (by decide) inClass),
        List.filterMap_eq_flatMap_toList, List.flatMap_congr fun d inClass =>
          clean.caseMember_rows (inFile inClass) (isKind inClass) (within (by decide) inClass)]

/-- **Both readings of a file find the same members**, if there are no errors. -/
theorem declared_perm (clean : CleanFile file) : file.declaredBySites ~ file.declaredByEntries := by
  let regions := Regions.ofFile file
  refine clean.declaredBySites_perm.trans (List.Perm.of_eq ?_)
  have classLikes : file.descendants.flatMap (classRows regions) =
      file.classLikes.flatMap (classRows regions) :=
    (Cursor.flatMap_filter_eq _ fun c mem other => clean.classRows_of_not_isClassLike mem other).symm
  have entries : file.declaredByEntries = file.classLikes.flatMap fun c =>
      (ClassEntry.ofDeclaration? regions c).toList.flatMap fun entry =>
        entry.members.map (·.row entry.name) := by
    rw [Cursor.declaredByEntries, ClassEntry.allOf, ClassEntry.allWithin,
      List.filterMap_eq_flatMap_toList, List.flatMap_assoc]
  rw [classLikes, entries]
  refine List.flatMap_congr fun c mem => ?_
  obtain ⟨inFile, classLike⟩ := List.mem_filter.mp mem
  exact (clean.ofDeclaration_rows inFile classLike).symm

end CleanFile

/-- **The two readings of a file's declarations agree.** In a text without errors the declarations that a
search finds in class-likes with a name are, with the name of the class-like, the kind and the name of the
member and as often, the members of the entries of the text. -/
theorem declarations_agree (source : Text) (clean : (Parse.ofText source).errors = []) :
    (Cursor.ofText source).declaredBySites ~ (Cursor.ofText source).declaredByEntries :=
  (CleanFile.ofText clean).declared_perm

/-- A class with two properties of one declaration and a method that promotes its parameter. -/
def promotingClass : Text :=
  "<?php class A \x7b public $a, $b; function m(private $p) \x7b\x7d \x7d".toList

/-- Both readings find four members in this class. -/
theorem declarations_agree_promotingClass :
    (Parse.ofText promotingClass).errors = [] ∧
      (Cursor.ofText promotingClass).declaredByEntries.length = 4 ∧
      (Cursor.ofText promotingClass).declaredBySites ~ (Cursor.ofText promotingClass).declaredByEntries := by
  have clean : (Parse.ofText promotingClass).errors = [] := List.isEmpty_iff.mp (by decide +kernel)
  exact ⟨clean, by decide +kernel, declarations_agree promotingClass clean⟩

end PhpMembers
