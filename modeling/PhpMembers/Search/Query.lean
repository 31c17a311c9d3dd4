import PhpMembers.Name

/-! # Queries

A query tells which members are searched for: those of a class, those with a name, those of a kind. What is
left open does not matter.
-/

namespace PhpMembers

/-- What is searched for. -/
structure Query where
  /-- The class to which the members belong. -/
  owner : Option ClassName
  /-- The name of the member. -/
  member : Option MemberName
  /-- The kind of the members. -/
  kind : Option MemberKind
deriving DecidableEq, Inhabited

namespace Query

/-- Whether a kind is searched for. -/
def acceptsKind (q : Query) (kind : MemberKind) : Bool :=
  match q.kind with
  | some wanted => wanted == kind
  | none => true

/-- Whether a class is searched for; letter case matters. -/
def acceptsOwner (q : Query) (name : ClassName) : Bool :=
  match q.owner with
  | some wanted => wanted == name
  | none => true

/-- Whether a member name is searched for; letter case matters. One leading `$` does not belong to the
name. -/
def acceptsName (q : Query) (name : Text) : Bool :=
  match q.member with
  | some wanted =>
    match name with
    | '$' :: rest => wanted.text == rest
    | _ => wanted.text == name
  | none => true

end Query

end PhpMembers
