import PhpMembers.Proofs.Search.Names
import PhpMembers.Proofs.Search.Target

/-! # Which sites count

The rules by which a site counts, stated without saying how they are checked.

* `Search.Credits` : the class to which a site is credited.
* `Search.verdict_iff` : a search decides by this rule.
* `Query.Asks`, `Query.acceptsSite_iff` : the sites that a query is about. -/

namespace PhpMembers

/-! ## (1) The class to which a site is credited -/

namespace Search

/-- `s.Credits site owner`: the member at the site belongs to the class `owner` as far as the searched class
is concerned; without an owner the class is not known. -/
inductive Credits (s : Search) (site : Site) : Option ClassName → Prop
  /-- A static access: the qualifier is a name that means the class. It is the searched class, if there is
  one. -/
  | staticAccess {qualifier : Cursor} {owner : ClassName} (shape : site.shape = .staticAccess)
      (first : site.node.firstExpression? = some qualifier) (written : qualifier.kind = .nameRef)
      (resolved : s.regions.resolveName? qualifier = some owner)
      (searched : ∀ target, s.query.owner = some target → target = owner) : Credits s site (some owner)
  /-- An access to a receiver of unknown type counts if no member name is searched. -/
  | unknownReceiver {receiver : Cursor} (shape : site.shape = .instanceAccess)
      (first : site.node.firstExpression? = some receiver)
      (type : s.analysis.typeAt s.source receiver.stop = .unknown)
      (nameless : s.query.member = none) : Credits s site none
  /-- An access to a receiver of a class. The class cannot be looked up, or it is the searched class or
  below it, if there is one. -/
  | knownReceiver {receiver : Cursor} {owner : ClassName} (shape : site.shape = .instanceAccess)
      (first : site.node.firstExpression? = some receiver)
      (type : s.analysis.typeAt s.source receiver.stop = .object owner)
      (searched : ∀ target, s.query.owner = some target →
        ∀ c, s.analysis.snapshot? owner = some c → c.isInstanceOf target = true) :
      Credits s site (some owner)
  /-- A declaration in the body of a class-like. This can be looked up and is a trait or the class with
  which declarations are compared or below it, if there is one. -/
  | declaration {owner : ClassName} (shape : site.shape = .declaration)
      (enclosing : s.regions.enclosingClass? site.node = some owner)
      (searched : ∀ wanted, Aim s.analysis s.query wanted →
        ∃ c, s.analysis.snapshot? owner = some c ∧ (c.kind = .trait ∨ c.isInstanceOf wanted = true)) :
      Credits s site (some owner)

end Search

/-- The occurrence of the name that a token of the site spells out. -/
def Site.occurrence (site : Site) (token : Cursor) (owner : Option ClassName) : Occurrence :=
  ⟨spelledName token, spelledSpan token, owner, site.kind, site.isDeclaration⟩

/-- An access declares nothing. -/
theorem Site.occurrence_of_access {site : Site} (access : site.shape ≠ .declaration) (token : Cursor)
    (owner : Option ClassName) :
    site.occurrence token owner = ⟨spelledName token, spelledSpan token, owner, site.kind, false⟩ := by
  have notDeclared : site.isDeclaration = false := beq_eq_false_iff_ne.mpr access
  rw [occurrence, notDeclared]

/-- A declaration declares its member. -/
theorem Site.occurrence_of_declaration {site : Site} (shape : site.shape = .declaration) (token : Cursor)
    (owner : Option ClassName) :
    site.occurrence token owner = ⟨spelledName token, spelledSpan token, owner, site.kind, true⟩ := by
  have declared : site.isDeclaration = true := beq_iff_eq.mpr shape
  rw [occurrence, declared]

/-! ## (2) How a search decides -/

/-- A query with a class is about that class only. -/
theorem Query.acceptsOwner_iff {q : Query} {name : ClassName} :
    q.acceptsOwner name = true ↔ ∀ target, q.owner = some target → target = name := by
  rw [acceptsOwner]
  cases q.owner with
  | none => simp
  | some target => simp

namespace Search

variable {s : Search} {site : Site} {token : Cursor} {o : Occurrence}

/-- What a search decides about a static access. -/
theorem staticVerdict_iff (shape : site.shape = .staticAccess) :
    (s.staticVerdict site (spelledName token) (spelledSpan token)).occurrence = some o ↔
      ∃ owner, s.Credits site owner ∧ o = site.occurrence token owner := by
  have access : site.shape ≠ .declaration := by
    rw [shape]
    exact SiteShape.noConfusion
  rw [staticVerdict]
  constructor
  · intro decided
    -- The qualifier is a name, the name means a class, and the query accepts it.
    split at decided
    · cases decided
    · rename_i qualifier found
      obtain ⟨first, written⟩ := Option.filter_eq_some_iff.mp found
      split at decided
      · cases decided
      · rename_i owner resolved
        split at decided
        · rename_i accepted
          cases decided
          refine ⟨some owner, ?_, (Site.occurrence_of_access access token (some owner)).symm⟩
          exact .staticAccess shape first (beq_iff_eq.mp written) resolved
            (Query.acceptsOwner_iff.mp accepted)
        · cases decided
  · rintro ⟨owner, credits, rfl⟩
    cases credits with
    | @staticAccess qualifier owner _ first written resolved searched =>
        have found : site.node.firstExpression?.filter (·.kind == .nameRef) = some qualifier :=
          Option.filter_eq_some_iff.mpr ⟨first, beq_iff_eq.mpr written⟩
        rw [found]
        simp only
        rw [resolved]
        simp only
        rw [if_pos (Query.acceptsOwner_iff.mpr searched), Site.occurrence_of_access access]
        rfl
    | unknownReceiver other => cases shape.symm.trans other
    | knownReceiver other => cases shape.symm.trans other
    | declaration other => cases shape.symm.trans other

section Receivers

variable {receiver : Cursor} {owner : ClassName} {name : MemberName} {span : Span}

/-- What a search decides about an access with an arrow to a receiver of unknown type. -/
theorem instanceVerdict_unknown (first : site.node.firstExpression? = some receiver)
    (type : s.analysis.typeAt s.source receiver.stop = .unknown) :
    (s.instanceVerdict site name span).occurrence = some o ↔
      s.query.member = none ∧ o = ⟨name, span, none, site.kind, false⟩ := by
  rw [instanceVerdict, first]
  simp only [type]
  cases s.query.member with
  | none => simp [Verdict.accept, @eq_comm _ o]
  | some member => simp [Verdict.reject]

/-- What a search decides about an access with an arrow to a receiver of a class. -/
theorem instanceVerdict_object (first : site.node.firstExpression? = some receiver)
    (type : s.analysis.typeAt s.source receiver.stop = .object owner) :
    (s.instanceVerdict site name span).occurrence = some o ↔
      (∀ target, s.query.owner = some target → ∀ c, s.analysis.snapshot? owner = some c →
        c.isInstanceOf target = true) ∧ o = ⟨name, span, some owner, site.kind, false⟩ := by
  rw [instanceVerdict, first]
  simp only [type]
  -- No class is searched, or one is and the class can be looked up, or it cannot.
  cases s.query.owner with
  | none => simp [Verdict.accept, @eq_comm _ o]
  | some target =>
      cases s.analysis.snapshot? owner with
      | none => simp [@eq_comm _ o]
      | some c =>
          cases below : c.isInstanceOf target with
          | true => simp [Verdict.accept, below, @eq_comm _ o]
          | false => simp [Verdict.reject, below]

end Receivers

/-- What a search decides about an access with an arrow. -/
theorem instanceVerdict_iff (shape : site.shape = .instanceAccess) :
    (s.instanceVerdict site (spelledName token) (spelledSpan token)).occurrence = some o ↔
      ∃ owner, s.Credits site owner ∧ o = site.occurrence token owner := by
  have access : site.shape ≠ .declaration := by
    rw [shape]
    exact SiteShape.noConfusion
  simp only [Site.occurrence_of_access access]
  constructor
  · intro decided
    -- Without a receiver, and with one of a primitive type, nothing is found.
    cases first : site.node.firstExpression? with
    | none =>
        rw [instanceVerdict, first] at decided
        cases decided
    | some receiver =>
        cases type : s.analysis.typeAt s.source receiver.stop with
        | unknown =>
            obtain ⟨nameless, rfl⟩ := (instanceVerdict_unknown first type).mp decided
            exact ⟨none, .unknownReceiver shape first type nameless, rfl⟩
        | primitive type' =>
            rw [instanceVerdict, first] at decided
            simp only [type] at decided
            cases decided
        | object owner =>
            obtain ⟨searched, rfl⟩ := (instanceVerdict_object first type).mp decided
            exact ⟨some owner, .knownReceiver shape first type searched, rfl⟩
  · rintro ⟨owner, credits, rfl⟩
    cases credits with
    | staticAccess other => cases shape.symm.trans other
    | unknownReceiver _ first type nameless => exact (instanceVerdict_unknown first type).mpr ⟨nameless, rfl⟩
    | knownReceiver _ first type searched => exact (instanceVerdict_object first type).mpr ⟨searched, rfl⟩
    | declaration other => cases shape.symm.trans other

/-- What a search decides about a declaration. -/
theorem declarationVerdict_iff (shape : site.shape = .declaration) {owner : ClassName}
    (enclosing : s.regions.enclosingClass? site.node = some owner) :
    (s.declarationVerdict (declarationTarget s.analysis s.query).owner site (spelledName token)
      (spelledSpan token) owner).occurrence = some o ↔
      ∃ owner, s.Credits site owner ∧ o = site.occurrence token owner := by
  unfold declarationVerdict
  constructor
  · intro decided
    simp only at decided
    have occurrence_eq := Site.occurrence_of_declaration shape token (some owner)
    -- Either nothing is compared, or the class-like can be looked up and is compared.
    split at decided
    · rename_i noTarget
      cases decided
      refine ⟨some owner, .declaration shape enclosing fun wanted aim => ?_, occurrence_eq.symm⟩
      cases noTarget.symm.trans (aim_iff.mp aim)
    · rename_i wanted target_eq
      split at decided
      · rename_i c snapshot
        split at decided
        · rename_i allowed
          cases decided
          refine ⟨some owner, .declaration shape enclosing fun wanted' aim => ?_, occurrence_eq.symm⟩
          cases target_eq.symm.trans (aim_iff.mp aim)
          exact ⟨c, snapshot, allowed⟩
        · cases decided
      · cases decided
  · rintro ⟨owner', credits, rfl⟩
    cases credits with
    | staticAccess other => cases shape.symm.trans other
    | unknownReceiver other => cases shape.symm.trans other
    | knownReceiver other => cases shape.symm.trans other
    | declaration _ enclosing' searched =>
        cases enclosing.symm.trans enclosing'
        rw [Site.occurrence_of_declaration shape]
        simp only
        split
        · rfl
        · rename_i wanted target_eq
          obtain ⟨c, snapshot, allowed⟩ := searched wanted (aim_iff.mpr target_eq)
          rw [snapshot]
          simp only
          rw [if_pos allowed]
          rfl

/-- A declaration that stands in no class-like with a name is credited to no class. -/
theorem not_credits_of_anonymous (shape : site.shape = .declaration)
    (outside : s.regions.enclosingClass? site.node = none) (owner : Option ClassName) : ¬s.Credits site owner := by
  intro credits
  cases credits with
  | staticAccess other => cases shape.symm.trans other
  | unknownReceiver other => cases shape.symm.trans other
  | knownReceiver other => cases shape.symm.trans other
  | declaration _ enclosing => cases outside.symm.trans enclosing

/-- **A site counts if its name is spelled out and it is credited to some class.** -/
theorem verdict_iff :
    (s.verdict (declarationTarget s.analysis s.query).owner site).occurrence = some o ↔
      ∃ token owner, site.name = .literal token ∧ s.Credits site owner ∧
        o = site.occurrence token owner := by
  rw [verdict]
  cases name : site.name with
  | literal token =>
      -- The token is fixed by the name of the site.
      simp only [SiteName.literal.injEq, exists_and_left, exists_eq_left']
      cases shape : site.shape with
      | staticAccess => exact staticVerdict_iff shape
      | instanceAccess => exact instanceVerdict_iff shape
      | declaration =>
          cases enclosing : s.regions.enclosingClass? site.node with
          | some owner => exact declarationVerdict_iff shape enclosing
          | none =>
              constructor
              · intro decided
                cases decided
              · rintro ⟨owner, credits, -⟩
                exact absurd credits (not_credits_of_anonymous shape enclosing owner)
  | computed part =>
      constructor
      · intro decided
        cases decided
      · rintro ⟨_, _, eq, -⟩
        cases eq
  | missing =>
      constructor
      · intro decided
        simp only at decided
        split at decided
        · cases decided
        · cases decided
      · rintro ⟨_, _, eq, -⟩
        cases eq

end Search

/-! ## (3) The sites that a query is about -/

/-- `q.Asks includeDeclarations site token`: the query is about the site, whose name `token` spells out. -/
structure Query.Asks (q : Query) (includeDeclarations : Bool) (site : Site) (token : Cursor) : Prop where
  /-- Declarations are searched only on demand. -/
  included : site.isDeclaration = true → includeDeclarations = true
  /-- The kind is the searched one, if there is one. -/
  kind : ∀ kind, q.kind = some kind → kind = site.kind
  /-- The name is the searched one, if there is one. -/
  member : ∀ member, q.member = some member → member = spelledName token

/-- A query with a kind is about that kind only. -/
theorem Query.acceptsKind_iff {q : Query} {kind : MemberKind} :
    q.acceptsKind kind = true ↔ ∀ wanted, q.kind = some wanted → wanted = kind := by
  rw [acceptsKind]
  cases q.kind with
  | none => simp
  | some wanted => simp

/-- **A site whose name is spelled out is chosen if the query is about it.** -/
theorem Query.acceptsSite_iff {source : Text} {q : Query} {includeDeclarations : Bool} {site : Site}
    {token : Cursor} (inTree : site.node ∈ (Cursor.ofText source).descendants)
    (siteNamed : site.NamedBy token) :
    q.acceptsSite includeDeclarations site = true ↔ q.Asks includeDeclarations site token := by
  have plain := (siteNamed.spelled inTree).plain
  have named : (q.member.isNone || q.acceptsName (spelledName token).text) = true ↔
      ∀ member, q.member = some member → member = spelledName token := by
    rw [← acceptsName_iff plain, acceptsName]
    cases q.member with
    | none => simp
    | some member => simp
  have included : (includeDeclarations || !site.isDeclaration) = true ↔
      (site.isDeclaration = true → includeDeclarations = true) := by
    cases includeDeclarations <;> cases site.isDeclaration <;> decide
  rw [acceptsSite, (Site.namedBy_iff.mp siteNamed).2, SiteName.spelled?, Bool.and_eq_true,
    Bool.and_eq_true, included, acceptsKind_iff, named]
  constructor
  · rintro ⟨⟨included, kind⟩, member⟩
    exact ⟨included, kind, member⟩
  · rintro ⟨included, kind, member⟩
    exact ⟨⟨included, kind⟩, member⟩

end PhpMembers
