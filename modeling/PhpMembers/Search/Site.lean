import PhpMembers.Search.Query
import PhpMembers.Source.Declaration
import PhpMembers.Source.Expression

/-! # Places that may refer to a member

A site is a node that declares or accesses a member, judged by its form alone. Sites are listed in the order
in which their names stand in the text.

* `Site`, `Cursor.site?` : the sites.
* `SiteName`, `Site.name` : how a site names its member.
* `Query.sites` : the sites of a file that a query may be about.
-/

namespace PhpMembers

/-- The forms of a site. -/
inductive SiteShape
  /-- A declaration of the member. -/
  | declaration
  /-- An access with an arrow. -/
  | instanceAccess
  /-- An access with a double colon. -/
  | staticAccess
deriving DecidableEq, Inhabited

/-- A place that may refer to a member. -/
structure Site where
  /-- Its form. -/
  shape : SiteShape
  /-- The kind of member. -/
  kind : MemberKind
  /-- The node that declares or accesses the member. -/
  node : Cursor

/-- How a site names its member. -/
inductive SiteName
  /-- It is spelled out by a token. -/
  | literal (token : Cursor)
  /-- It is computed by the given part. -/
  | computed (part : Cursor)
  /-- It was lost to a syntax error. -/
  | missing

/-- The name that a token spells out, without a sigil. -/
def spelledName (token : Cursor) : MemberName := .ofSyntax token.text

/-- The range of the name that a token spells out. The sigil does not belong to it. -/
def spelledSpan (token : Cursor) : Span :=
  match token.text with
  | '$' :: _ => ⟨token.start + 1, token.stop⟩
  | _ => token.span

namespace SiteName

/-- The name, if it is spelled out. -/
def spelled? : SiteName → Option MemberName
  | literal token => some (spelledName token)
  | _ => none

/-- The range of the name. -/
def span? : SiteName → Option Span
  | literal token => some (spelledSpan token)
  | computed part => some part.span
  | missing => none

end SiteName

namespace Cursor

/-- The name of a declaration. -/
def declaredName (c : Cursor) : SiteName :=
  let token :=
    match c.kind with
    | .methodDecl | .constElement | .enumCase => c.identifier?
    | .propertyElement | .param => c.variableToken?
    | _ => none
  match token with
  | some token => .literal token
  | none => .missing

/-- The first node behind the operator of an access, which computes the name. -/
def computedName (c : Cursor) (isOperator : Kind → Bool) : SiteName :=
  match ((c.children.dropWhile fun d => !isOperator d.kind).tail).find? fun d => !d.isLeaf with
  | some part => .computed part
  | none => .missing

/-- The name in an access with an arrow. -/
def instanceSiteName (c : Cursor) : SiteName :=
  match c.instanceName? with
  | some token => .literal token
  | none => c.computedName fun kind => kind == .arrow || kind == .nullsafeArrow

/-- The name in an access with a double colon. A variable that is called holds the name of the method. -/
def staticSiteName (c : Cursor) : SiteName :=
  match c.staticName? with
  | some token =>
    if token.kind == .variable && c.isCallee then .computed token else .literal token
  | none => c.computedName (· == .colonColon)

/-- Whether a parameter of a method is a property, too. -/
def isPromotedInMethod (c : Cursor) : Bool :=
  match c.parent?.bind parent? with
  | some owner => owner.kind == .methodDecl && c.isPromoted
  | none => false

/-- The kind of member that an access with a double colon refers to. -/
def staticAccessKind (c : Cursor) : MemberKind :=
  if c.isCallee then .method
  else
    match c.staticName? with
    | some token => if token.kind == .variable then .property else .constant
    | none => .constant

/-- The site at a node. `Foo::class` accesses no member, and neither does a constant outside of classes
declare one. -/
def site? (c : Cursor) : Option Site :=
  match c.kind with
  | .methodDecl => some ⟨.declaration, .method, c⟩
  | .propertyElement => some ⟨.declaration, .property, c⟩
  | .param => if c.isPromotedInMethod then some ⟨.declaration, .property, c⟩ else none
  | .constElement =>
    match c.parent? with
    | some parent =>
      if parent.kind == .classConstDecl then some ⟨.declaration, .constant, c⟩ else none
    | none => none
  | .enumCase => some ⟨.declaration, .constant, c⟩
  | .memberAccessExpr =>
    some ⟨.instanceAccess, if c.isCallee then .method else .property, c⟩
  | .staticAccessExpr =>
    if c.isClassConstant then none else some ⟨.staticAccess, c.staticAccessKind, c⟩
  | _ => none

end Cursor

namespace Site

/-- Whether the site declares the member. -/
def isDeclaration (s : Site) : Bool := s.shape == .declaration

/-- How the site names its member. -/
def name (s : Site) : SiteName :=
  match s.shape with
  | .declaration => s.node.declaredName
  | .instanceAccess => s.node.instanceSiteName
  | .staticAccess => s.node.staticSiteName

/-- Where the site is listed: at the start of its name or, without a name, at its end. -/
def position (s : Site) : Nat :=
  match s.name.span? with
  | some span => span.start
  | none => s.node.stop

/-- Put a site in front of the first one with the same or a greater position. -/
def insertByPosition (s : Site) : List Site → List Site
  | [] => [s]
  | other :: rest =>
    if s.position ≤ other.position then s :: other :: rest else other :: insertByPosition s rest

/-- The sites by position; those with the same position keep their order. -/
def sortByPosition (sites : List Site) : List Site := sites.foldr insertByPosition []

end Site

namespace Query

/-- Whether a site may be what a query is about, by its kind and name. -/
def acceptsSite (q : Query) (includeDeclarations : Bool) (s : Site) : Bool :=
  (includeDeclarations || !s.isDeclaration) && q.acceptsKind s.kind &&
    (q.member.isNone ||
      match s.name.spelled? with
      | some name => q.acceptsName name.text
      | none => false)

/-- The sites of a file that a query may be about, by position. -/
def sites (q : Query) (includeDeclarations : Bool) (file : Cursor) : List Site :=
  Site.sortByPosition
    ((file.descendants.filterMap Cursor.site?).filter (q.acceptsSite includeDeclarations))

end Query

end PhpMembers
