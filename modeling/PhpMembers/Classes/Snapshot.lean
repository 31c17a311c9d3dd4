import PhpMembers.Typing.StaticType

/-! # Snapshots of class-likes

A snapshot tells everything that is known about one class-like: its kind, all class-likes above it, the
interfaces among these, and its members with the inherited ones. It is built up by additions, and the first
addition of a name wins.

* `Snapshot`, `Snapshot.isInstanceOf`, `Snapshot.member?` : snapshots and questions to them.
* `Snapshot.addAncestor`, `Snapshot.addInterface`, `Snapshot.addMember` : the additions.
-/

namespace PhpMembers

/-- A member that can be accessed on a class-like. -/
structure KnownMember where
  /-- Method, property or constant. -/
  kind : MemberKind
  /-- Its name. -/
  name : MemberName
  /-- The class-like whose body declares it. -/
  declaringClass : ClassName
  /-- Whether it belongs to the class and not to its objects. -/
  isStatic : Bool
  /-- The type of a property or enum case, or what a method returns. -/
  type : StaticType
  /-- Whether the type is that of the class on which the member is accessed. -/
  lateStatic : Bool
deriving DecidableEq

/-- What is known about a class-like. -/
structure Snapshot where
  /-- Its name. -/
  name : ClassName
  /-- Its kind. -/
  kind : ClassKind
  /-- The superclasses and interfaces above it, in the order in which they were added. -/
  ancestors : List ClassName
  /-- The interfaces above it. -/
  interfaces : List ClassName
  /-- Its members. -/
  members : List KnownMember
deriving DecidableEq

namespace Snapshot

/-- A class-like of which only name and kind are known. -/
def empty (name : ClassName) (kind : ClassKind) : Snapshot := ⟨name, kind, [], [], []⟩

/-- Whether the class-like is the other one or below it. -/
def isInstanceOf (c : Snapshot) (other : ClassName) : Bool :=
  c.name.same other || c.ancestors.any (·.same other)

/-- The first member with this name and, if one is given, of this kind. A leading `$` of the name does not
matter. -/
def member? (c : Snapshot) (kind : Option MemberKind) (name : Text) : Option KnownMember :=
  c.members.find? fun m =>
    (kind.isNone || kind == some m.kind) && m.kind.namesMatch m.name.text (dropLeading '$' name)

/-- Whether there is such a member. -/
def hasMember (c : Snapshot) (kind : Option MemberKind) (name : Text) : Bool :=
  (c.member? kind name).isSome

/-- Put a superclass above the class-like, unless it is already there. -/
def addAncestor (c : Snapshot) (name : ClassName) : Snapshot :=
  if c.ancestors.any (·.same name) then c else { c with ancestors := c.ancestors ++ [name] }

/-- Put an interface above the class-like, unless it is already there. -/
def addInterface (c : Snapshot) (name : ClassName) : Snapshot :=
  let listed :=
    if c.interfaces.any (·.same name) then c else { c with interfaces := c.interfaces ++ [name] }
  listed.addAncestor name

/-- Add a member, unless one of the same kind and name is already there. -/
def addMember (c : Snapshot) (member : KnownMember) : Snapshot :=
  if c.hasMember (some member.kind) member.name.text then c
  else { c with members := c.members ++ [member] }

/-- Add a member of which only kind and name are known, declared by the class-like itself. -/
def addOwnMember (c : Snapshot) (kind : MemberKind) (name : MemberName) : Snapshot :=
  c.addMember ⟨kind, name, c.name, false, .unknown, false⟩

end Snapshot

end PhpMembers
