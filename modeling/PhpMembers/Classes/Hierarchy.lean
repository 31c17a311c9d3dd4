import PhpMembers.Classes.Table

/-! # What is above and inside a class-like

A snapshot is put together from the entries of one or more tables; earlier tables shadow later ones. The
entries may refer to each other in circles and to names without an entry.

* `explore` : the names reached from given ones, breadth first and each once.
* `superclasses`, `reachedInterfaces`, `reachedTraits` : what is above a class-like.
* `snapshot?` : the snapshot of a name; `ClassName.notFoundMessage` : the report that there is none.
-/

namespace PhpMembers

/-- The names reached from a queue, breadth first. Names whose key has been seen are skipped. The first
argument bounds how many names are taken from the queue. -/
def explore (next : ClassName → List ClassName) : Nat → List Text → List ClassName → List ClassName
  | 0, _, _ => []
  | _ + 1, _, [] => []
  | n + 1, seen, name :: queue =>
    if seen.contains name.key then explore next n seen queue
    else name :: explore next n (name.key :: seen) (queue ++ next name)

/-- The entry of a name in the first table that has one. -/
def findIn (layers : List ClassTable) (name : ClassName) : Option ClassEntry :=
  layers.findSome? (·.find? name)

/-- A bound for an exploration: every entry is expanded at most once. -/
def explorationBound (layers : List ClassTable) (links : ClassEntry → List ClassName) (start : Nat) :
    Nat :=
  start + (layers.flatMap fun table => table.entries.flatMap fun e => links e.2).length

/-- The names reached from a queue along links between entries. -/
def exploreEntries (layers : List ClassTable) (links : ClassEntry → List ClassName)
    (seen : List Text) (queue : List ClassName) : List ClassName :=
  explore (fun name => ((findIn layers name).map links).getD [])
    (explorationBound layers links queue.length) seen queue

/-- The superclasses of an entry from the nearest on, up to the first one without an entry or the first
repetition. -/
def superclasses (layers : List ClassTable) (entry : ClassEntry) : List ClassName :=
  exploreEntries layers (·.parent.toList) [entry.name.key] entry.parent.toList

/-- An entry and those of its superclasses that have one. -/
def classChain (layers : List ClassTable) (entry : ClassEntry) : List ClassEntry :=
  entry :: (superclasses layers entry).filterMap (findIn layers)

/-- The interfaces above an entry: the direct ones of the chain in order, then theirs. -/
def reachedInterfaces (layers : List ClassTable) (entry : ClassEntry) : List ClassName :=
  exploreEntries layers (·.interfaces)
    (((superclasses layers entry).map ClassName.key).reverse ++ [entry.name.key])
    ((classChain layers entry).flatMap (·.interfaces))

/-- The traits that an entry uses, directly or through other traits. -/
def reachedTraits (layers : List ClassTable) (entry : ClassEntry) : List ClassName :=
  exploreEntries layers (·.traits) [] entry.traits

/-- A member of an entry as it is seen from below. -/
def MemberEntry.known (owner : ClassName) (m : MemberEntry) : KnownMember :=
  ⟨m.kind, m.name, owner, m.isStatic, m.declared.type, m.declared.lateStatic⟩

/-- The own members of an entry. -/
def ClassEntry.knownMembers (entry : ClassEntry) : List KnownMember :=
  entry.members.map (·.known entry.name)

/-- The members that a class-like can have, those that win first: its own, those of its traits, the same
for each superclass and, for an interface, those of the interfaces above it. -/
def memberCandidates (layers : List ClassTable) (entry : ClassEntry) : List KnownMember :=
  let ofChain := (classChain layers entry).flatMap fun e =>
    e.knownMembers
      ++ ((reachedTraits layers e).filterMap (findIn layers)).flatMap (·.knownMembers)
  let ofInterfaces :=
    if entry.kind = .interface then
      ((reachedInterfaces layers entry).filterMap (findIn layers)).flatMap (·.knownMembers)
    else []
  ofChain ++ ofInterfaces

/-- The snapshot of an entry. -/
def ClassEntry.snapshot (layers : List ClassTable) (entry : ClassEntry) : Snapshot :=
  let above := (superclasses layers entry).foldl Snapshot.addAncestor (.empty entry.name entry.kind)
  let implementing := (reachedInterfaces layers entry).foldl Snapshot.addInterface above
  (memberCandidates layers entry).foldl Snapshot.addMember implementing

/-- The snapshot of a name, if a declaration of it is known. -/
def snapshot? (layers : List ClassTable) (name : ClassName) : Option Snapshot :=
  (findIn layers name).map (·.snapshot layers)

/-- The report that no declaration of a name is known. -/
def ClassName.notFoundMessage (name : ClassName) : String :=
  "Class `" ++ String.ofList name.text ++ "` not found"

end PhpMembers
