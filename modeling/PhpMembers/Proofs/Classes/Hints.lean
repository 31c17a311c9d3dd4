import PhpMembers.Proofs.Classes.Declared
import PhpMembers.Proofs.Source.Rewritten
import PhpMembers.Proofs.Typing.TypeNames

/-! # Hints and documentation declare the same

A method or property declares a type by a hint or, without one, in its documentation. The names in a hint are looked up
where they stand, and a name in documentation where the documented declaration begins. Both places are inside of the
class-like, so a type that is spelled as one name is the same class in both. The exception is `parent`: in a hint it
stands for the superclass, and in documentation for a class with this name.

* `TypedMember`, `TypedMember.entry_mem_members` : the members that declare types.
* `Cursor.Owns`, `TypedMember.stands_of_mem` : where they stand in their class-like.
* `TypedMember.declared_of_hinted`, `TypedMember.declared_of_documented` : what they declare.
* `hint_and_documentation_agree` : a hint that becomes documentation declares the same. -/

namespace PhpMembers

/-! ## (1) The members that declare a type -/

/-- A member with the places where its type is declared. -/
structure TypedMember where
  /-- Method or property. -/
  kind : MemberKind
  /-- Its name. -/
  name : MemberName
  /-- Whether it belongs to the class and not to its objects. -/
  isStatic : Bool
  /-- The node that is documented. -/
  node : Cursor
  /-- The hint, if there is one. -/
  hint? : Option Cursor
  /-- The tag that names the type in the documentation. -/
  tag : Text
  /-- The variable that the tag has to be about if it names one. -/
  wanted : Option Text

namespace TypedMember

/-- The member in the entry of its class-like. -/
def entry (m : TypedMember) (regions : Regions) (owner : ClassName) : MemberEntry :=
  ⟨m.kind, m.name, m.isStatic, declaredType regions m.hint? m.node m.tag m.wanted (some owner)⟩

/-- The type that the documentation names. -/
def documented? (m : TypedMember) : Option Text :=
  m.node.documentation?.bind fun doc => taggedType? doc m.tag m.wanted

/-- A property that a parameter declares. -/
def ofParam? (param : Cursor) : Option TypedMember :=
  param.variableToken?.map fun token =>
    ⟨.property, .ofSyntax token.text, false, param, param.typeHint?, varTag, none⟩

/-- A method and the properties that its parameters declare. -/
def ofMethod (method : Cursor) : List TypedMember :=
  match method.identifier? with
  | none => []
  | some token =>
    ⟨.method, .ofSyntax token.text, method.isStatic, method, method.returnHint?, returnTag, none⟩ ::
      method.promotedParams.filterMap ofParam?

/-- The properties of a declaration. -/
def ofProperty (property : Cursor) : List TypedMember :=
  (property.nodesOf .propertyElement).filterMap fun element =>
    element.variableToken?.map fun token =>
      ⟨.property, .ofSyntax token.text, property.isStatic, property, property.typeHint?, varTag, some token.text⟩

/-- The methods and properties that a class-like declares. -/
def ofClassLike (c : Cursor) : List TypedMember :=
  (c.membersOf .methodDecl).flatMap ofMethod ++ (c.membersOf .propertyDecl).flatMap ofProperty

theorem methodMembers_eq (regions : Regions) (owner : ClassName) (method : Cursor) :
    ClassEntry.methodMembers regions owner method = (ofMethod method).map (·.entry regions owner) := by
  rw [ClassEntry.methodMembers, ofMethod]
  cases method.identifier? with
  | none => rfl
  | some token =>
      simp only [List.map_cons, List.map_filterMap, ofParam?, Option.map_map]
      rfl

theorem propertyMembers_eq (regions : Regions) (owner : ClassName) (property : Cursor) :
    ClassEntry.propertyMembers regions owner property = (ofProperty property).map (·.entry regions owner) := by
  simp only [ClassEntry.propertyMembers, ofProperty, List.map_filterMap, Option.map_map]
  rfl

/-- **The entry of a class-like has these members.** -/
theorem entry_mem_members {regions : Regions} {c : Cursor} {entry : ClassEntry}
    (declared : ClassEntry.ofDeclaration? regions c = some entry) {m : TypedMember} (mem : m ∈ ofClassLike c) :
    m.entry regions entry.name ∈ entry.members := by
  obtain ⟨owner, named, rfl⟩ := Option.map_eq_some_iff.mp declared
  refine List.mem_append_left _ (List.mem_append_left _ ?_)
  have all : (c.membersOf .methodDecl).flatMap (ClassEntry.methodMembers regions owner) ++
      (c.membersOf .propertyDecl).flatMap (ClassEntry.propertyMembers regions owner) =
        (ofClassLike c).map (·.entry regions owner) := by
    rw [ofClassLike, List.map_append, List.map_flatMap, List.map_flatMap, funext (methodMembers_eq regions owner),
      funext (propertyMembers_eq regions owner)]
  rw [all]
  exact List.mem_map_of_mem (f := fun m => entry m regions owner) mem

end TypedMember

/-! ## (2) Places in a class-like -/

namespace Cursor

/-- `c.Owns d`: the place is below the class-like, and no other class-like or class without a name is in between. -/
structure Owns (c d : Cursor) : Prop where
  /-- It is below. -/
  inside : d ∈ c.elements
  /-- The class-like is the nearest one around it. -/
  enclosing : d.enclosingClassLike? = some c

/-- A class-like owns itself. -/
theorem Owns.self {c : Cursor} (isClassLike : c.kind.isClassLike = true) : c.Owns c :=
  ⟨c.self_mem_elements, enclosingClassLike?_of_isClassLike isClassLike⟩

/-- A class-like owns the parts of what it owns. -/
theorem Owns.part {c d part : Cursor} (owns : c.Owns d) {kind : Kind} (mem : part ∈ d.nodesOf kind)
    (plain : (kind.isClassLike || kind == .anonClass) = false) : c.Owns part := by
  obtain ⟨inChildren, rfl⟩ := mem_children_of_mem_nodesOf mem
  exact ⟨children_subset_elements owns.inside inChildren,
    (enclosingClassLike?_of_mem_children inChildren plain).trans owns.enclosing⟩

/-- The first node of a kind is one of them. -/
theorem mem_nodesOf_of_node? {c d : Cursor} {kind : Kind} (found : c.node? kind = some d) : d ∈ c.nodesOf kind := by
  have isKind := List.find?_some found
  exact List.mem_filter.mpr ⟨List.mem_of_find?_eq_some found, isKind⟩

/-- A class-like owns its members. -/
theorem Owns.member {c member : Cursor} (isClassLike : c.kind.isClassLike = true) {kind : Kind}
    (mem : member ∈ c.membersOf kind) (plain : (kind.isClassLike || kind == .anonClass) = false) : c.Owns member := by
  obtain ⟨body, inClass, inBody⟩ := exists_body_of_mem_membersOf mem
  exact ((Owns.self isClassLike).part inClass rfl).part inBody plain

/-- `c.OwnsType hint`: the class-like owns a declared type. -/
structure OwnsType (c hint : Cursor) : Prop where
  /-- It is owned. -/
  owns : c.Owns hint
  /-- It is a declared type. -/
  kind : hint.kind = .type
  /-- It is no token. -/
  node : hint.isLeaf = false

/-- A class-like owns the hints of what it owns. -/
theorem Owns.ownsType {c d hint : Cursor} (owns : c.Owns d) (found : d.typeHint? = some hint) : c.OwnsType hint := by
  have inNodes := mem_nodesOf_of_node? found
  obtain ⟨inNode, isType⟩ := List.mem_filter.mp inNodes
  have node := (List.mem_filter.mp inNode).2
  exact ⟨owns.part inNodes rfl, beq_iff_eq.mp isType, Bool.not_eq_true' _ ▸ node⟩

/-- A class-like owns the result types of what it owns. -/
theorem Owns.ownsType_of_returnHint? {c d hint : Cursor} (owns : c.Owns d) (found : d.returnHint? = some hint) :
    c.OwnsType hint := by
  rw [returnHint?] at found
  split at found
  · rename_i clause isClause
    exact (owns.part (mem_nodesOf_of_node? isClause) rfl).ownsType found
  · cases found

end Cursor

namespace TypedMember

/-- Where a member stands in its class-like. -/
structure Stands (c : Cursor) (m : TypedMember) : Prop where
  /-- The class-like owns the documented node. -/
  owns : c.Owns m.node
  /-- It is no class-like itself. -/
  plain : m.node.kind.isClassLike = false
  /-- There is a token in it. -/
  filled : ∃ e ∈ m.node.elements, ∃ token, token ∈ e.tokens
  /-- The class-like owns the hint. -/
  hint : ∀ hint, m.hint? = some hint → c.OwnsType hint

/-- A method stands in its class-like, and so do the properties that its parameters declare. -/
theorem stands_of_mem_ofMethod {c method : Cursor} {m : TypedMember} (owns : c.Owns method)
    (isMethod : method.kind = .methodDecl) (mem : m ∈ ofMethod method) : m.Stands c := by
  rw [ofMethod] at mem
  split at mem
  · cases mem
  rename_i token named
  rcases List.mem_cons.mp mem with rfl | inParams
  · refine ⟨owns, ?_, ⟨method, method.self_mem_elements, token, (Cursor.mem_of_token? named).1⟩,
      fun hint found => owns.ownsType_of_returnHint? found⟩
    rw [isMethod]
    rfl
  · obtain ⟨param, promoted, found⟩ := List.mem_filterMap.mp inParams
    obtain ⟨token, named, rfl⟩ := Option.map_eq_some_iff.mp found
    obtain ⟨list, inMethod, inList⟩ := Cursor.exists_list_of_mem_promotedParams promoted
    have owns := (owns.part inMethod rfl).part inList rfl
    refine ⟨owns, ?_, ⟨param, param.self_mem_elements, token, (Cursor.mem_of_token? named).1⟩,
      fun hint found => owns.ownsType found⟩
    show param.kind.isClassLike = false
    rw [(Cursor.mem_children_of_mem_nodesOf inList).2]
    rfl

/-- A property stands in its class-like. -/
theorem stands_of_mem_ofProperty {c property : Cursor} {m : TypedMember} (owns : c.Owns property)
    (isProperty : property.kind = .propertyDecl) (mem : m ∈ ofProperty property) : m.Stands c := by
  obtain ⟨element, inProperty, found⟩ := List.mem_filterMap.mp mem
  obtain ⟨token, named, rfl⟩ := Option.map_eq_some_iff.mp found
  have inChildren := (Cursor.mem_children_of_mem_nodesOf inProperty).1
  refine ⟨owns, ?_, ⟨element, ?_, token, (Cursor.mem_of_token? named).1⟩,
    fun hint found => owns.ownsType found⟩
  · show property.kind.isClassLike = false
    rw [isProperty]
    rfl
  · exact Cursor.children_subset_elements property.self_mem_elements inChildren

/-- **All these members stand in their class-like.** -/
theorem stands_of_mem {c : Cursor} {m : TypedMember} (isClassLike : c.kind.isClassLike = true)
    (mem : m ∈ ofClassLike c) : m.Stands c := by
  have kinds {kind : Kind} {member : Cursor} (mem : member ∈ c.membersOf kind) : member.kind = kind := by
    obtain ⟨body, -, inBody⟩ := Cursor.exists_body_of_mem_membersOf mem
    exact (Cursor.mem_children_of_mem_nodesOf inBody).2
  rcases List.mem_append.mp mem with inMethods | inProperties
  · obtain ⟨method, inClass, inMethod⟩ := List.mem_flatMap.mp inMethods
    exact stands_of_mem_ofMethod (.member isClassLike inClass rfl) (kinds inClass) inMethod
  · obtain ⟨property, inClass, inProperty⟩ := List.mem_flatMap.mp inProperties
    exact stands_of_mem_ofProperty (.member isClassLike inClass rfl) (kinds inClass) inProperty

end TypedMember

/-! ## (3) Hints and documentation -/

/-- What a member without a hint declares is what its documentation says. -/
theorem TypedMember.declared_of_documented {m : TypedMember} {regions : Regions} {owner name : ClassName}
    {t text : Text} (bare : m.hint? = none) (documented : m.documented? = some text)
    (accepted : ClassName.parse t = .ok name) (solid : trimBlank t = t) (oneName : OneName t text) :
    (m.entry regions owner).declared = .ofName owner (regions.resolve t m.node.start) t := by
  rw [entry, declaredType, bare, documentedType]
  rw [documented?] at documented
  rw [documented]
  exact DeclaredType.ofText_of_oneName accepted solid oneName m.node.start

/-- What a member with a hint declares is what the hint says. -/
theorem TypedMember.declared_of_hinted {source : Text} {m : TypedMember} {regions : Regions} {owner name : ClassName}
    {c hint : Cursor} {t : Text} (mem : c ∈ (Cursor.ofText source).elements) (stands : m.Stands c)
    (named : regions.className? c = some owner) (hinted : m.hint? = some hint) (accepted : ClassName.parse t = .ok name)
    (solid : trimBlank t = t) (oneName : OneName t hint.text) (notParent : sameIgnoringCase t parentWord = false)
    (silent : sameIgnoringCase t nullWord = true → m.documented? = none) :
    ∃ name ∈ hint.names, name.nameText = t ∧
      (m.entry regions owner).declared = .ofName owner (regions.resolve t name.start) t := by
  obtain ⟨owns, isType, node⟩ := stands.hint hint hinted
  have inFile := Cursor.mem_elements_trans owns.inside mem
  have around : ∀ name ∈ hint.names, regions.enclosingClass? name = some owner := fun name mem => by
    rw [Regions.enclosingClass?, (owns.part mem rfl).enclosing]
    exact named
  obtain ⟨name, inHint, same, declared⟩ :=
    DeclaredType.ofHint_of_oneName inFile isType node accepted solid oneName notParent around
  refine ⟨name, inHint, same, ?_⟩
  rw [entry, declaredType, hinted, Option.map_some, Option.getD_some, declared, DeclaredType.isUnknown_ofName]
  -- Only a hint `null` says nothing, so that the documentation is asked; there is none.
  by_cases isNull : sameIgnoringCase t nullWord = true
  · have silent := silent isNull
    rw [documented?] at silent
    rw [if_pos isNull, documentedType, silent, DeclaredType.ofName_null isNull]
  · rw [if_neg isNull]

/-- A class-like with a name has an entry. -/
theorem ClassEntry.exists_of_className? {source : Text} {c : Cursor} {owner : ClassName}
    (mem : c ∈ (Cursor.ofText source).classLikes)
    (named : (Regions.ofFile (Cursor.ofText source)).className? c = some owner) :
    ∃ entry ∈ ClassEntry.allOfText source, entry.name = owner ∧
      ∀ m ∈ TypedMember.ofClassLike c, m.entry (Regions.ofFile (Cursor.ofText source)) owner ∈ entry.members := by
  obtain ⟨entry, declared, same⟩ : ∃ entry,
      ClassEntry.ofDeclaration? (Regions.ofFile (Cursor.ofText source)) c = some entry ∧ entry.name = owner := by
    rw [ofDeclaration?, named]
    exact ⟨_, rfl, rfl⟩
  refine ⟨entry, List.mem_filterMap.mpr ⟨c, mem, declared⟩, same, fun m inClass => ?_⟩
  rw [← same]
  exact TypedMember.entry_mem_members declared inClass

/-- **Hints and documentation declare the same.** Two texts differ in one class-like only, which keeps its name. In
the one text a method or property of it has a hint, and in the other one it has none but documentation. The hint and
the type in the documentation are spelled the same: as one text that is accepted as the name of a class, other than
`parent`, with or without `null`. Then both entries of the class-like have the member, and it has the same declared
type in both. A hint `null` tells nothing, so the documentation counts, if there is any. -/
theorem hint_and_documentation_agree {source source' : Text} {c : Cursor} {new : Tree}
    (rewritten : Rewritten source source' c new) {t : Text} {name : ClassName}
    (accepted : ClassName.parse t = .ok name) (solid : trimBlank t = t)
    (notParent : sameIgnoringCase t parentWord = false) {m m' : TypedMember}
    (mem : m ∈ TypedMember.ofClassLike c) (mem' : m' ∈ TypedMember.ofClassLike (c.replaced new)) {hint : Cursor}
    (hinted : m.hint? = some hint) (oneName : OneName t hint.text)
    (silent : sameIgnoringCase t nullWord = true → m.documented? = none)
    (bare : m'.hint? = none) (documented : m'.documented? = some hint.text) :
    ∃ entry ∈ ClassEntry.allOfText source, ∃ entry' ∈ ClassEntry.allOfText source', entry'.name = entry.name ∧
      m.entry (Regions.ofFile (Cursor.ofText source)) entry.name ∈ entry.members ∧
      m'.entry (Regions.ofFile (Cursor.ofText source')) entry.name ∈ entry'.members ∧
      (m'.entry (Regions.ofFile (Cursor.ofText source')) entry.name).declared =
        (m.entry (Regions.ofFile (Cursor.ofText source)) entry.name).declared := by
  have stands := TypedMember.stands_of_mem rewritten.isClassLike mem
  have stands' := TypedMember.stands_of_mem rewritten.isClassLike' mem'
  obtain ⟨owner, named⟩ : ∃ owner, (Regions.ofFile (Cursor.ofText source)).className? c = some owner := by
    obtain ⟨token, named⟩ := Option.isSome_iff_exists.mp rewritten.named
    rw [Regions.className?, named]
    exact ⟨_, rfl⟩
  obtain ⟨written, inHint, same, declared⟩ :=
    TypedMember.declared_of_hinted rewritten.inFile stands named hinted accepted solid oneName notParent silent
  have declared' : (m'.entry (Regions.ofFile (Cursor.ofText source')) owner).declared = _ :=
    TypedMember.declared_of_documented bare documented accepted solid oneName
  -- Both the name in the hint and the documented node lie strictly inside of the class-likes.
  have owns := (stands.hint hint hinted).owns.part inHint rfl
  have isName : written.kind = .nameRef := (Cursor.mem_children_of_mem_nodesOf inHint).2
  obtain ⟨token, inName⟩ : ∃ token, token ∈ written.tokens := by
    refine List.exists_mem_of_ne_nil _ fun none => ClassName.ne_nil_of_parse accepted ?_
    rw [← same, Cursor.nameText, none]
    rfl
  obtain ⟨starts, stops⟩ := rewritten.inside owns.inside (by rw [isName]; rfl) written.self_mem_elements inName
  obtain ⟨inner, below, token', inInner⟩ := stands'.filled
  obtain ⟨starts', stops'⟩ := rewritten.inside' stands'.owns.inside stands'.plain below inInner
  have named' := rewritten.className?_eq starts stops starts' stops'
  rw [named] at named'
  obtain ⟨entry, inFile, rfl, members⟩ := ClassEntry.exists_of_className? rewritten.mem named
  obtain ⟨entry', inFile', name', members'⟩ := ClassEntry.exists_of_className? rewritten.mem' named'
  refine ⟨entry, inFile, entry', inFile', name', members m mem, members' m' mem', ?_⟩
  rw [declared, declared', rewritten.resolve_inside starts stops starts' stops']

/-- A method with a hint for an imported class. -/
def hintedClient : Text :=
  "<?php namespace App; use Lib\\Client; class A \x7b function f(): ?Client \x7b\x7d \x7d".toList

/-- The same method with the type in its documentation. -/
def documentedClient : Text :=
  "<?php namespace App; use Lib\\Client; class A \x7b /** @return ?Client */ function f() \x7b\x7d \x7d".toList

/-- Both declare the imported class. -/
theorem hint_and_documentation_agree_client :
    ∃ c new m m' hint, Rewritten hintedClient documentedClient c new ∧ m ∈ TypedMember.ofClassLike c ∧
      m' ∈ TypedMember.ofClassLike (c.replaced new) ∧ m.hint? = some hint ∧ m'.hint? = none ∧
      hint.text = "?Client".toList ∧ m'.documented? = some "?Client".toList ∧
      ∃ entry ∈ ClassEntry.allOfText hintedClient, ∃ entry' ∈ ClassEntry.allOfText documentedClient,
        entry'.name = entry.name ∧
        m.entry (Regions.ofFile (Cursor.ofText hintedClient)) entry.name ∈ entry.members ∧
        m'.entry (Regions.ofFile (Cursor.ofText documentedClient)) entry.name ∈ entry'.members ∧
        (m'.entry (Regions.ofFile (Cursor.ofText documentedClient)) entry.name).declared =
          (m.entry (Regions.ofFile (Cursor.ofText hintedClient)) entry.name).declared := by
  have found : ((Cursor.ofText hintedClient).classLikes.any fun c =>
      (Cursor.ofText documentedClient).classLikes.any fun d =>
        !c.isLeaf && !d.isLeaf && d.kind == c.kind &&
        decide ((c.replaced d.tree).top.tree = (Parse.ofText documentedClient).tree) && c.identifier?.isSome &&
        (c.replaced d.tree).identifier?.map Cursor.text == c.identifier?.map Cursor.text &&
        (c.ofKind .namespaceDef).isEmpty && ((c.replaced d.tree).ofKind .namespaceDef).isEmpty &&
        ((c.replaced d.tree).ofKind .useDecl).flatMap Cursor.bindings == (c.ofKind .useDecl).flatMap Cursor.bindings &&
        (TypedMember.ofClassLike c).any (fun m =>
          m.hint?.any fun hint => hint.text == "?Client".toList) &&
        (TypedMember.ofClassLike (c.replaced d.tree)).any fun m' =>
          m'.hint?.isNone && m'.documented? == some "?Client".toList) = true := by
    decide +kernel
  obtain ⟨c, mem, found⟩ := List.any_eq_true.mp found
  obtain ⟨d, -, fits⟩ := List.any_eq_true.mp found
  simp only [Bool.and_eq_true, Bool.not_eq_true', beq_iff_eq, decide_eq_true_eq, List.isEmpty_iff] at fits
  obtain ⟨⟨⟨⟨⟨⟨⟨⟨⟨⟨node, node'⟩, kind⟩, rest⟩, named⟩, name⟩, plain⟩, plain'⟩, imports⟩, hinted⟩, documented⟩ := fits
  have rewritten : Rewritten hintedClient documentedClient c d.tree :=
    ⟨mem, ⟨kind, node, node'⟩, rest, named, name, plain, plain', imports⟩
  obtain ⟨m, inClass, hinted⟩ := List.any_eq_true.mp hinted
  obtain ⟨hint, hinted, spelled⟩ := (Option.any_eq_true _ _).mp hinted
  obtain ⟨m', inClass', documented⟩ := List.any_eq_true.mp documented
  obtain ⟨bare, documented⟩ := Bool.and_eq_true_iff.mp documented
  have spelled := beq_iff_eq.mp spelled
  have bare := Option.isNone_iff_eq_none.mp bare
  have documented := beq_iff_eq.mp documented
  refine ⟨c, d.tree, m, m', hint, rewritten, inClass, inClass', hinted, bare, spelled, documented, ?_⟩
  have accepted : ClassName.parse "Client".toList = .ok ⟨"Client".toList⟩ := by rfl
  have oneName : OneName "Client".toList hint.text := by
    rw [spelled]
    exact .nullable
  rw [← spelled] at documented
  exact hint_and_documentation_agree rewritten accepted (by decide) (by decide) inClass inClass' hinted oneName
    (fun isNull => absurd isNull (by decide)) bare documented

/-- What they declare. -/
example : ((ClassEntry.allOfText hintedClient).map fun entry => entry.members.map (·.declared)) =
      [[.fixed (.object ⟨"Lib\\Client".toList⟩)]] ∧
    ((ClassEntry.allOfText documentedClient).map fun entry => entry.members.map (·.declared)) =
      [[.fixed (.object ⟨"Lib\\Client".toList⟩)]] := by
  decide +kernel

/-- A method with the hint `parent`. -/
def hintedParent : Text := "<?php class A \x7b\x7d class B extends A \x7b function f(): parent \x7b\x7d \x7d".toList

/-- The same method with the type in its documentation. -/
def documentedParent : Text :=
  "<?php class A \x7b\x7d class B extends A \x7b /** @return parent */ function f() \x7b\x7d \x7d".toList

/-- The hint means the superclass, but the documentation a class that is called `parent`. -/
theorem documentedParent_names_other :
    ((ClassEntry.allOfText hintedParent).map fun entry => (entry.name.text, entry.members.map (·.declared))) =
      [(['A'], []), (['B'], [.fixed (.object ⟨['A']⟩)])] ∧
    ((ClassEntry.allOfText documentedParent).map fun entry => (entry.name.text, entry.members.map (·.declared))) =
      [(['A'], []), (['B'], [.fixed (.object ⟨parentWord⟩)])] := by
  decide +kernel

end PhpMembers
