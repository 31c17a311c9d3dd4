import PhpMembers.Search.Site

/-! # Sites with a name

Ten forms of node declare or access a member and spell out its name with a token. They are listed here one
by one, with the kind of member and the place of the token.

* `Site.NamedBy` : the forms.
* `Site.namedBy_iff` : these are the sites with a literal name.
* `Site.NamedBy.part`, `Site.NamedBy.kind_cases` : the token is a leaf of the node, an identifier or
  variable. -/

namespace PhpMembers

/-! ## (1) The forms -/

/-- `s.NamedBy token`: the node declares or accesses a member in the way of the site, and the token spells
out the name of the member. -/
inductive Site.NamedBy (token : Cursor) : Site → Prop
  /-- The declaration of a method. -/
  | method {c : Cursor} (node : c.kind = .methodDecl) (name : c.identifier? = some token) :
      NamedBy token ⟨.declaration, .method, c⟩
  /-- One of the properties of a declaration. -/
  | property {c : Cursor} (node : c.kind = .propertyElement) (name : c.variableToken? = some token) :
      NamedBy token ⟨.declaration, .property, c⟩
  /-- A parameter of a method with a modifier. -/
  | promoted {c list owner : Cursor} (node : c.kind = .param) (inList : c.parent? = some list)
      (inMethod : list.parent? = some owner) (method : owner.kind = .methodDecl)
      (modified : c.isPromoted = true) (name : c.variableToken? = some token) :
      NamedBy token ⟨.declaration, .property, c⟩
  /-- One of the constants of a declaration in a class-like. -/
  | constant {c parent : Cursor} (node : c.kind = .constElement) (inClass : c.parent? = some parent)
      (declaration : parent.kind = .classConstDecl) (name : c.identifier? = some token) :
      NamedBy token ⟨.declaration, .constant, c⟩
  /-- A case of an enum. -/
  | enumCase {c : Cursor} (node : c.kind = .enumCase) (name : c.identifier? = some token) :
      NamedBy token ⟨.declaration, .constant, c⟩
  /-- A method that is called with an arrow. -/
  | instanceCall {c : Cursor} (node : c.kind = .memberAccessExpr) (called : c.isCallee = true)
      (name : c.instanceName? = some token) : NamedBy token ⟨.instanceAccess, .method, c⟩
  /-- A property that is read with an arrow. -/
  | instanceRead {c : Cursor} (node : c.kind = .memberAccessExpr) (read : c.isCallee = false)
      (name : c.instanceName? = some token) : NamedBy token ⟨.instanceAccess, .property, c⟩
  /-- A method that is called with a double colon. -/
  | staticCall {c : Cursor} (node : c.kind = .staticAccessExpr) (called : c.isCallee = true)
      (name : c.staticName? = some token) (plain : token.kind = .ident) :
      NamedBy token ⟨.staticAccess, .method, c⟩
  /-- A property that is read with a double colon. -/
  | staticProperty {c : Cursor} (node : c.kind = .staticAccessExpr) (read : c.isCallee = false)
      (name : c.staticName? = some token) (sigiled : token.kind = .variable) :
      NamedBy token ⟨.staticAccess, .property, c⟩
  /-- A constant that is read with a double colon. -/
  | staticConstant {c : Cursor} (node : c.kind = .staticAccessExpr) (read : c.isCallee = false)
      (name : c.staticName? = some token) (plain : token.kind = .ident) :
      NamedBy token ⟨.staticAccess, .constant, c⟩

/-! ## (2) Where the token is -/

namespace Cursor

variable {c token : Cursor}

/-- A token found by its kind is a leaf among the parts. -/
theorem mem_of_token? {kind : Kind} (found : c.token? kind = some token) :
    token ∈ c.tokens ∧ token.kind = kind :=
  ⟨List.mem_of_find?_eq_some found, by simpa using List.find?_some found⟩

/-- The name in an access with an arrow is an identifier among the parts. -/
theorem mem_of_instanceName? (found : c.instanceName? = some token) :
    token ∈ c.tokens ∧ token.kind = .ident := by
  have mem := List.mem_of_find?_eq_some found
  exact ⟨(List.dropWhile_sublist _).subset mem, by simpa using List.find?_some found⟩

/-- The name in an access with a double colon is one of three tokens among the parts. -/
theorem mem_of_staticName? (found : c.staticName? = some token) :
    token ∈ c.tokens ∧ (token.kind = .ident ∨ token.kind = .variable ∨ token.kind = .classKw) := by
  have mem := List.mem_of_find?_eq_some found
  have kind := List.find?_some found
  refine ⟨(List.dropWhile_sublist _).subset mem, ?_⟩
  simpa [or_assoc] using kind

end Cursor

namespace Site.NamedBy

variable {s : Site} {token : Cursor}

/-- The token is a leaf among the parts of the node. -/
theorem part (named : s.NamedBy token) : token ∈ s.node.tokens := by
  cases named with
  | method _ name | property _ name | promoted _ _ _ _ _ name | constant _ _ _ name | enumCase _ name =>
      exact (Cursor.mem_of_token? name).1
  | instanceCall _ _ name | instanceRead _ _ name => exact (Cursor.mem_of_instanceName? name).1
  | staticCall _ _ name | staticProperty _ _ name | staticConstant _ _ name =>
      exact (Cursor.mem_of_staticName? name).1

/-- The token is an identifier or a variable. -/
theorem kind_cases (named : s.NamedBy token) : token.kind = .ident ∨ token.kind = .variable := by
  cases named with
  | method _ name | constant _ _ _ name | enumCase _ name => exact Or.inl (Cursor.mem_of_token? name).2
  | property _ name | promoted _ _ _ _ _ name => exact Or.inr (Cursor.mem_of_token? name).2
  | instanceCall _ _ name | instanceRead _ _ name => exact Or.inl (Cursor.mem_of_instanceName? name).2
  | staticCall _ _ _ plain | staticConstant _ _ _ plain => exact Or.inl plain
  | staticProperty _ _ _ sigiled => exact Or.inr sigiled

end Site.NamedBy

/-! ## (3) The forms are the sites with a literal name -/

namespace Cursor

variable {c token : Cursor}

/-- A declaration with an identifier for its name. -/
theorem declaredName_of_identifier
    (node : c.kind = .methodDecl ∨ c.kind = .constElement ∨ c.kind = .enumCase) :
    c.declaredName = .literal token ↔ c.identifier? = some token := by
  rw [declaredName]
  rcases node with node | node | node
  all_goals
    rw [node]
    cases c.identifier? with
    | none => simp
    | some t => simp

/-- A declaration with a variable for its name. -/
theorem declaredName_of_variable (node : c.kind = .propertyElement ∨ c.kind = .param) :
    c.declaredName = .literal token ↔ c.variableToken? = some token := by
  rw [declaredName]
  rcases node with node | node
  all_goals
    rw [node]
    cases c.variableToken? with
    | none => simp
    | some t => simp

/-- A computed name is not spelled out. -/
theorem computedName_ne_literal (isOperator : Kind → Bool) :
    c.computedName isOperator ≠ .literal token := by
  unfold computedName
  split
  · exact SiteName.noConfusion
  · exact SiteName.noConfusion

/-- An access with an arrow that spells out its name. -/
theorem instanceSiteName_eq_literal :
    c.instanceSiteName = .literal token ↔ c.instanceName? = some token := by
  rw [instanceSiteName]
  cases c.instanceName? with
  | none => simp [computedName_ne_literal]
  | some t => simp

/-- An access with a double colon that spells out its name. A variable that is called does not. -/
theorem staticSiteName_eq_literal :
    c.staticSiteName = .literal token ↔
      c.staticName? = some token ∧ (c.isCallee = true → token.kind ≠ .variable) := by
  rw [staticSiteName]
  cases c.staticName? with
  | none => simp [computedName_ne_literal]
  | some t =>
      simp only [Bool.and_eq_true, beq_iff_eq, Option.some.injEq]
      by_cases computed : t.kind = .variable ∧ c.isCallee = true
      · rw [if_pos computed]
        constructor
        · intro literal
          cases literal
        · rintro ⟨rfl, plain⟩
          exact absurd computed.1 (plain computed.2)
      · rw [if_neg computed, SiteName.literal.injEq]
        constructor
        · rintro rfl
          exact ⟨rfl, fun called sigiled => computed ⟨sigiled, called⟩⟩
        · exact And.left

/-- Whether a parameter of a method is a property, too. -/
theorem isPromotedInMethod_iff : c.isPromotedInMethod = true ↔
    ∃ list owner, c.parent? = some list ∧ list.parent? = some owner ∧ owner.kind = .methodDecl ∧
      c.isPromoted = true := by
  rw [isPromotedInMethod]
  cases inList : c.parent? with
  | none => simp
  | some list =>
      cases inMethod : list.parent? with
      | none => simp [inMethod]
      | some owner => simp [inMethod]

/-- An access to the class itself. -/
theorem isClassConstant_of_staticName? (found : c.staticName? = some token) :
    c.isClassConstant = (token.kind == .classKw) := by
  rw [isClassConstant, found]

end Cursor

/-- A site with an access with a double colon has one of three forms. -/
theorem Site.NamedBy.of_staticAccess {c token : Cursor} (node : c.kind = .staticAccessExpr)
    (member : c.isClassConstant = false) (literal : c.staticSiteName = .literal token) :
    NamedBy token ⟨.staticAccess, c.staticAccessKind, c⟩ := by
  obtain ⟨name, plainIfCalled⟩ := Cursor.staticSiteName_eq_literal.mp literal
  have kind := (Cursor.mem_of_staticName? name).2
  rw [Cursor.isClassConstant_of_staticName? name, beq_eq_false_iff_ne] at member
  -- What is called is a method; of the rest a sigil marks the properties.
  cases called : c.isCallee with
  | true =>
      have method : c.staticAccessKind = .method := by rw [Cursor.staticAccessKind, if_pos called]
      rw [method]
      rcases kind with ident | sigiled | classKw
      · exact .staticCall node called name ident
      · exact absurd sigiled (plainIfCalled called)
      · exact absurd classKw member
  | false =>
      rcases kind with ident | sigiled | classKw
      · have constant : c.staticAccessKind = .constant := by
          simp [Cursor.staticAccessKind, called, name, ident]
        rw [constant]
        exact .staticConstant node called name ident
      · have property : c.staticAccessKind = .property := by
          simp [Cursor.staticAccessKind, called, name, sigiled]
        rw [property]
        exact .staticProperty node called name sigiled
      · exact absurd classKw member

/-- A site with a literal name has one of the forms. -/
theorem Site.NamedBy.of_site? {c token : Cursor} {s : Site} (found : c.site? = some s)
    (literal : s.name = .literal token) : s.NamedBy token := by
  -- One case for each kind of node that is a site, in the order of the search.
  unfold Cursor.site? at found
  split at found
  · rename_i node
    cases found
    exact .method node ((Cursor.declaredName_of_identifier (Or.inl node)).mp literal)
  · rename_i node
    cases found
    exact .property node ((Cursor.declaredName_of_variable (Or.inl node)).mp literal)
  · rename_i node
    split at found
    · rename_i promoted
      cases found
      obtain ⟨list, owner, inList, inMethod, method, modified⟩ :=
        Cursor.isPromotedInMethod_iff.mp promoted
      exact .promoted node inList inMethod method modified
        ((Cursor.declaredName_of_variable (Or.inr node)).mp literal)
    · cases found
  · rename_i node
    split at found
    · rename_i parent inClass
      split at found
      · rename_i declaration
        cases found
        exact .constant node inClass (beq_iff_eq.mp declaration)
          ((Cursor.declaredName_of_identifier (Or.inr (Or.inl node))).mp literal)
      · cases found
    · cases found
  · rename_i node
    cases found
    exact .enumCase node ((Cursor.declaredName_of_identifier (Or.inr (Or.inr node))).mp literal)
  · rename_i node
    cases found
    have name : c.instanceName? = some token := Cursor.instanceSiteName_eq_literal.mp literal
    cases called : c.isCallee with
    | true => exact .instanceCall node called name
    | false => exact .instanceRead node called name
  · rename_i node
    split at found
    · cases found
    · rename_i member
      cases found
      exact .of_staticAccess node (Bool.eq_false_iff.mpr member) literal
  · cases found

/-- **The sites with a literal name are the forms that are listed.** -/
theorem Site.namedBy_iff {s : Site} {token : Cursor} :
    s.NamedBy token ↔ s.node.site? = some s ∧ s.name = .literal token := by
  constructor
  · intro named
    -- A form fixes the kind of the node, and with it the way the search goes.
    cases named with
    | method node name =>
        exact ⟨by simp [Cursor.site?, node],
          (Cursor.declaredName_of_identifier (Or.inl node)).mpr name⟩
    | property node name =>
        exact ⟨by simp [Cursor.site?, node], (Cursor.declaredName_of_variable (Or.inl node)).mpr name⟩
    | @promoted c list owner node inList inMethod method modified name =>
        have promoted : c.isPromotedInMethod = true :=
          Cursor.isPromotedInMethod_iff.mpr ⟨list, owner, inList, inMethod, method, modified⟩
        exact ⟨by simp [Cursor.site?, node, promoted],
          (Cursor.declaredName_of_variable (Or.inr node)).mpr name⟩
    | constant node inClass declaration name =>
        exact ⟨by simp [Cursor.site?, node, inClass, declaration],
          (Cursor.declaredName_of_identifier (Or.inr (Or.inl node))).mpr name⟩
    | enumCase node name =>
        exact ⟨by simp [Cursor.site?, node],
          (Cursor.declaredName_of_identifier (Or.inr (Or.inr node))).mpr name⟩
    | instanceCall node called name =>
        exact ⟨by simp [Cursor.site?, node, called], Cursor.instanceSiteName_eq_literal.mpr name⟩
    | instanceRead node read name =>
        exact ⟨by simp [Cursor.site?, node, read], Cursor.instanceSiteName_eq_literal.mpr name⟩
    | staticCall node called name plain =>
        refine ⟨?_, Cursor.staticSiteName_eq_literal.mpr ⟨name, fun _ => by simp [plain]⟩⟩
        simp [Cursor.site?, node, Cursor.isClassConstant_of_staticName? name, plain,
          Cursor.staticAccessKind, called]
    | @staticProperty c node read name sigiled =>
        have notCalled : c.isCallee = true → token.kind ≠ .variable := fun called => by
          simp [read] at called
        refine ⟨?_, Cursor.staticSiteName_eq_literal.mpr ⟨name, notCalled⟩⟩
        simp [Cursor.site?, node, Cursor.isClassConstant_of_staticName? name, sigiled,
          Cursor.staticAccessKind, read, name]
    | staticConstant node read name plain =>
        refine ⟨?_, Cursor.staticSiteName_eq_literal.mpr ⟨name, fun _ => by simp [plain]⟩⟩
        simp [Cursor.site?, node, Cursor.isClassConstant_of_staticName? name, plain,
          Cursor.staticAccessKind, read, name]
  · rintro ⟨found, literal⟩
    exact .of_site? found literal

end PhpMembers
