import PhpMembers.Workspace.Cache
import PhpMembers.Workspace.FileTree

/-! # Sessions

A session collects the class-likes of source texts and answers questions about classes and types. Texts are
added one by one, from a file, or from all source files of a directory. If a file cannot be read, nothing
is added.

* `Session.add`, `Session.addFile`, `Session.load` : the additions; each tells how many class-likes it has
  seen.
* `Session.snapshot?`, `Session.typeAt` : the questions.
-/

namespace PhpMembers

/-- Why files could not be added. -/
inductive LoadError
  /-- A file is missing or is not a text. -/
  | unreadable
  /-- The path leads nowhere. -/
  | missingDirectory
deriving DecidableEq

/-- The class-likes collected so far, and the files that were asked about. -/
structure Session where
  /-- The class-likes. -/
  classes : ClassTable
  /-- The files that need not be parsed again. -/
  cache : Cache

namespace Session

/-- Nothing has been added. -/
def empty : Session := ⟨.empty, .empty⟩

/-- Add the class-likes of a text. -/
def add (s : Session) (source : Text) : Session × Nat :=
  let entries := ClassEntry.allOfText source
  ({ s with classes := s.classes.insertAll entries }, entries.length)

/-- Add the class-likes of several texts in turn, and count them. -/
def addAll (s : Session) : List Text → Session × Nat
  | [] => (s, 0)
  | source :: rest =>
    let first := s.add source
    let others := addAll first.1 rest
    (others.1, first.2 + others.2)

/-- Add the class-likes of one file. -/
def addFile (s : Session) (t : FileTree) (path : Text) : Except LoadError (Session × Nat) :=
  match t.read? path with
  | some source => .ok (s.add source)
  | none => .error .unreadable

/-- Add the class-likes of all source files below a directory in the order of their paths. -/
def load (s : Session) (t : FileTree) (path : Text) : Except LoadError (Session × Nat) :=
  match t.sourceFiles? path with
  | none => .error .missingDirectory
  | some files =>
    match files.mapM (·.content) with
    | some sources => .ok (s.addAll sources)
    | none => .error .unreadable

/-- What is known about a class. -/
def snapshot? (s : Session) (name : ClassName) : Option Snapshot :=
  PhpMembers.snapshot? [s.classes] name

/-- The type of the outermost expression of a text that ends at an offset. The classes that the text itself
declares are known, too. Behind the end of the text nothing has a type. -/
def typeAt (s : Session) (hash : Text → UInt64) (source : Text) (offset : Nat) :
    StaticType × Session :=
  if utf8Length source < offset then (.unknown, s)
  else
    let found := s.cache.fetch hash source
    (found.1.typeAt s.classes offset, { s with cache := found.2 })

end Session

end PhpMembers
