import PhpMembers.Classes.Hierarchy
import PhpMembers.Typing.Inference

/-! # Source files

A source file with all that follows from its text alone.
-/

namespace PhpMembers

/-- A source file. -/
structure SourceFile where
  /-- Its text. -/
  text : Text
  /-- Its syntax tree. -/
  tree : Tree
  /-- Its regions. -/
  regions : Regions
  /-- The class-likes that it declares. -/
  declared : ClassTable

namespace SourceFile

/-- The file with the given text. -/
def ofText (text : Text) : SourceFile :=
  let tree := (Parse.ofText text).tree
  let regions := Regions.ofFile (.root tree)
  ⟨text, tree, regions, .ofEntries (ClassEntry.allWithin regions (.root tree))⟩

/-- What the types in the file depend on, when some classes are known from elsewhere. Those of the file
itself come first. -/
def typing (file : SourceFile) (known : ClassTable) : Typing :=
  ⟨file.regions, PhpMembers.snapshot? [file.declared, known]⟩

/-- The type of the outermost expression that ends at an offset. -/
def typeAt (file : SourceFile) (known : ClassTable) (offset : Nat) : StaticType :=
  (file.typing known).typeAt (.root file.tree) offset

end SourceFile

end PhpMembers
