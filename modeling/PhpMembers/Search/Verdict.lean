import PhpMembers.Search.Analysis
import PhpMembers.Search.Diagnostic
import PhpMembers.Search.Site

/-! # Which sites refer to the searched members

Each form of site has a rule of its own. A static access refers to the class that stands before the double
colon, and to no class below or above it. An access with an arrow refers to the class of its receiver and to
all classes above it. A declaration belongs to the class-like around it; it counts if that class-like is a
trait, or is the searched class or below it. If the searched class has the member only from an interface,
the interface takes the place of the searched class.

* `Occurrence` : a place where a member is named.
* `Verdict` : the decision about one site, with a note if something is unclear.
* `declarationTarget` : the class with which declarations are compared.
* `Search.verdict` : the decision.
-/

namespace PhpMembers

/-- A place where a member is named. -/
structure Occurrence where
  /-- The name. -/
  name : MemberName
  /-- The range of the name. -/
  span : Span
  /-- The class to which the member belongs, if it is known. -/
  owner : Option ClassName
  /-- The kind of member. -/
  kind : MemberKind
  /-- Whether the member is declared here. -/
  isDeclaration : Bool
deriving DecidableEq

/-- The decision about a site. -/
structure Verdict where
  /-- The occurrence, if the site counts. -/
  occurrence : Option Occurrence
  /-- What was unclear. -/
  note : Option Note
deriving DecidableEq

namespace Verdict

/-- The site counts. -/
def accept (o : Occurrence) : Verdict := ⟨some o, none⟩

/-- The site does not count. -/
def reject : Verdict := ⟨none, none⟩

/-- The site does not count for the given reason. -/
def rejectFor (note : Note) : Verdict := ⟨none, some note⟩

end Verdict

/-- The class with which declarations are compared. -/
structure Target where
  /-- The class; without one every class will do. -/
  owner : Option ClassName
  /-- What was unclear. -/
  note : Option Note
deriving DecidableEq

/-- The class-likes that declare a member of a kind and are seen from the given interfaces. -/
def declaringInterfaces (analysis : Analysis) (kind : Option MemberKind) (member : MemberName)
    (interfaces : List ClassName) : List ClassName :=
  interfaces.foldl
    (fun found interface =>
      match (analysis.snapshot? interface).bind (·.member? kind member.text) with
      | some m =>
        if found.any (·.same m.declaringClass) then found else found ++ [m.declaringClass]
      | none => found)
    []

/-- The class with which the declarations for a query are compared. -/
def declarationTarget (analysis : Analysis) (q : Query) : Target :=
  match q.owner, q.member with
  | none, _ => ⟨none, none⟩
  | some target, none => ⟨some target, none⟩
  | some target, some member =>
    match analysis.snapshot? target with
    | none => ⟨some target, some (.unknownTarget target)⟩
    | some c =>
      if c.hasMember q.kind member.text then ⟨some target, none⟩
      else
        match declaringInterfaces analysis q.kind member c.interfaces with
        | [] => ⟨some target, none⟩
        | [only] => ⟨some only, none⟩
        | first :: others => ⟨some first, some (.severalInterfaces target member first others)⟩

/-- What a decision depends on. -/
structure Search where
  /-- The text that is searched. -/
  source : Text
  /-- The regions of the text. -/
  regions : Regions
  /-- What is searched for. -/
  query : Query
  /-- What is known about the program. -/
  analysis : Analysis

namespace Search

/-- The decision about an access with a double colon whose name is known. -/
def staticVerdict (s : Search) (site : Site) (name : MemberName) (span : Span) : Verdict :=
  match site.node.firstExpression?.filter (·.kind == .nameRef) with
  | none => .rejectFor (.computedClass name site.node.span)
  | some qualifier =>
    match s.regions.resolveName? qualifier with
    | none => .reject
    | some owner =>
      if s.query.acceptsOwner owner then .accept ⟨name, span, some owner, site.kind, false⟩
      else .reject

/-- The decision about an access with an arrow whose name is known. -/
def instanceVerdict (s : Search) (site : Site) (name : MemberName) (span : Span) : Verdict :=
  match site.node.firstExpression? with
  | none => .reject
  | some receiver =>
    match s.analysis.typeAt s.source receiver.stop with
    | .unknown =>
      if s.query.member.isSome then .reject
      else .accept ⟨name, span, none, site.kind, false⟩
    | .primitive _ => .reject
    | .object owner =>
      let occurrence : Occurrence := ⟨name, span, some owner, site.kind, false⟩
      match s.query.owner with
      | none => .accept occurrence
      | some target =>
        match s.analysis.snapshot? owner with
        | some c => if c.isInstanceOf target then .accept occurrence else .reject
        | none => ⟨some occurrence, some (.unknownReceiver owner name span)⟩

/-- The decision about a declaration with a name and a class around it, compared with a target. -/
def declarationVerdict (s : Search) (target : Option ClassName) (site : Site) (name : MemberName)
    (span : Span) (owner : ClassName) : Verdict :=
  let occurrence : Occurrence := ⟨name, span, some owner, site.kind, true⟩
  match target with
  | none => .accept occurrence
  | some wanted =>
    match s.analysis.snapshot? owner with
    | some c =>
      if c.kind = .trait ∨ c.isInstanceOf wanted then .accept occurrence else .reject
    | none => .rejectFor (.unknownOwner owner name span)

/-- The decision about a site, where declarations are compared with a target. -/
def verdict (s : Search) (target : Option ClassName) (site : Site) : Verdict :=
  match site.name with
  | .literal token =>
    let name := spelledName token
    let span := spelledSpan token
    match site.shape with
    | .staticAccess => s.staticVerdict site name span
    | .instanceAccess => s.instanceVerdict site name span
    | .declaration =>
      match s.regions.enclosingClass? site.node with
      | some owner => s.declarationVerdict target site name span owner
      | none => .rejectFor (.anonymousOwner site.kind name span)
  | .computed part => .rejectFor (.computedName site.kind part.text part.span)
  | .missing =>
    if site.isDeclaration then .rejectFor (.namelessDeclaration site.kind site.node.span)
    else .reject

/-- Whether the decision about a site needs the class with which declarations are compared. -/
def needsTarget (s : Search) (site : Site) : Bool :=
  site.isDeclaration && site.name.spelled?.isSome && (s.regions.enclosingClass? site.node).isSome

end Search

end PhpMembers
