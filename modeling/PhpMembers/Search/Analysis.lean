import PhpMembers.Workspace.Session

/-! # What a search knows about the program

A search asks for the types of expressions and for snapshots of classes. Who answers does not matter: a
session, or given tables.
-/

namespace PhpMembers

/-- Answers to the questions of a search. -/
structure Analysis where
  /-- The type of the expression of a text that ends at an offset. -/
  typeAt : Text → Nat → StaticType
  /-- What is known about a class. -/
  snapshot? : ClassName → Option Snapshot

/-- The text in front of an offset. -/
def textBefore : Nat → Text → Text
  | _, [] => []
  | offset, c :: rest =>
    if c.utf8Size ≤ offset then c :: textBefore (offset - c.utf8Size) rest else []

namespace Analysis

/-- The answers of a session. -/
def ofSession (s : Session) (hash : Text → UInt64) : Analysis :=
  ⟨fun source offset => (s.typeAt hash source offset).1, s.snapshot?⟩

/-- Answers from tables. An expression has the type of the longest listed text with which it ends, and of
the first one if there are several. A class is the first listed one with its name, in any letter case. -/
def ofTables (types : List (Text × StaticType)) (classes : List Snapshot) : Analysis :=
  ⟨fun source offset =>
      let before := textBefore offset source
      let fitting := types.filter fun entry => entry.1.isSuffixOf before
      let byLength := fitting.map fun entry => (entry.1.length, entry.2)
      ((lastGreatest? byLength.reverse).map (·.2)).getD .unknown,
    fun name => classes.find? fun c => c.name.same name⟩

end Analysis

end PhpMembers
