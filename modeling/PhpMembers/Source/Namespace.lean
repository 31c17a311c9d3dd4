import PhpMembers.Name
import PhpMembers.Source.Declaration

/-! # What the names of classes mean

A file is divided into regions, each in one namespace and with its own imports. A class name written in a
region is looked up among the imports by its first segment, and otherwise belongs to the namespace of the
region. `self`, `static` and `parent` refer to the class-like around them.

* `Region`, `Regions.ofFile` : the regions of a file.
* `Regions.resolve` : the class that a written name means at an offset.
* `Cursor.enclosingClassLike?` : the class-like around a node.
* `Regions.resolveName?` : the class that a name in the tree means.
-/

namespace PhpMembers

/-- A part of a file in one namespace. -/
structure Region where
  /-- The offset at which it starts. -/
  start : Nat
  /-- The offset at which it stops; it still belongs to the region. -/
  stop : Nat
  /-- The namespace, none for the global one. -/
  name : Option Text
  /-- The imports, latest first: the lower-cased name that is bound, and the class. -/
  imports : List (Text × Text)
deriving DecidableEq

/-- The regions of a file. -/
abbrev Regions := List Region

namespace Region

/-- Whether an offset belongs to the region, both ends included. -/
def contains (r : Region) (offset : Nat) : Bool := r.start ≤ offset && offset ≤ r.stop

/-- Bind a name, hiding an earlier binding of the same name. -/
def bind (r : Region) (shortName target : Text) : Region :=
  { r with imports := (lowerCase shortName, target) :: r.imports }

end Region

/-- The regions of namespace declarations. One without braces lasts until the next one or the end of the
file. -/
def namespaceRegions (fileStop : Nat) : List Cursor → Regions
  | [] => []
  | declaration :: rest =>
    let stop :=
      if declaration.block?.isSome then declaration.stop
      else match rest with
        | next :: _ => next.start
        | [] => fileStop
    ⟨declaration.start, stop, declaration.name?.map fun name => dropLeading '\\' name.nameText, []⟩ ::
      namespaceRegions fileStop rest

namespace Regions

/-- The position of the last-starting region that contains the offset, counted from `position`. -/
def indexFrom? (offset position : Nat) : Regions → Option (Nat × Region)
  | [] => none
  | r :: rest =>
    match indexFrom? offset (position + 1) rest with
    | some (later, s) =>
      if r.contains offset && s.start < r.start then some (position, r) else some (later, s)
    | none => if r.contains offset then some (position, r) else none

/-- The region in effect at an offset, with its position: of those that contain the offset the one that
starts last. -/
def at? (regions : Regions) (offset : Nat) : Option (Nat × Region) := indexFrom? offset 0 regions

/-- Bind one import in the region at a position. A clause without a name binds nothing. -/
def bindClause (position : Nat) (first : Option Text) (regions : Regions) (clause : Cursor) : Regions :=
  match clause.name?, clause.importedAs? with
  | some name, some shortName =>
    let path := dropLeading '\\' name.nameText
    let target :=
      match first with
      | some common => common ++ '\\' :: path
      | none => path
    regions.modify position fun r => r.bind shortName target
  | _, _ => regions

/-- Bind the imports of a declaration in the region in which it starts. Imports of functions and constants
are left out. -/
def bindDeclaration (regions : Regions) (declaration : Cursor) : Regions :=
  if declaration.hasToken .functionKw || declaration.hasToken .constKw then regions
  else
    match regions.at? declaration.start with
    | none => regions
    | some (position, _) =>
      let single := (declaration.nodesOf .useClause).foldl (bindClause position none) regions
      (declaration.nodesOf .useGroup).foldl
        (fun bound group =>
          let common := (group.name?.map fun name => dropLeading '\\' name.nameText).getD []
          (group.nodesOf .useClause).foldl (bindClause position (some common)) bound)
        single

/-- The regions of a file before imports. What stands in front of the first namespace is global. -/
def withoutImports (file : Cursor) : Regions :=
  match file.descendants.filter (·.kind == .namespaceDef) with
  | [] => [⟨file.start, file.stop, none, []⟩]
  | first :: rest =>
    let named := namespaceRegions file.stop (first :: rest)
    if file.start < first.start then ⟨file.start, first.start, none, []⟩ :: named else named

/-- The regions of a file with their imports. -/
def ofFile (file : Cursor) : Regions :=
  (file.descendants.filter (·.kind == .useDecl)).foldl bindDeclaration (withoutImports file)

/-- The namespace in effect at an offset. -/
def namespaceAt? (regions : Regions) (offset : Nat) : Option Text :=
  match regions.at? offset with
  | some (_, r) => r.name
  | none => none

/-- A name in a namespace, or as it is in the global one. -/
def qualify (space : Option Text) (name : Text) : ClassName :=
  match space with
  | some path => .ofSyntax (path ++ '\\' :: name)
  | none => .ofSyntax name

/-- The class that a text means as a class name at an offset. -/
def resolve (regions : Regions) (text : Text) (offset : Nat) : ClassName :=
  match text with
  | '\\' :: absolute => .ofSyntax absolute
  | _ =>
    let first := text.takeWhile (· != '\\')
    let rest := (text.drop first.length).tail
    let space := regions.namespaceAt? offset
    if sameIgnoringCase first namespaceWord then qualify space rest
    else
      let imports := ((regions.at? offset).map (·.2.imports)).getD []
      match imports.lookup (lowerCase first) with
      | some target =>
        if first.length < text.length then .ofSyntax (target ++ '\\' :: rest) else .ofSyntax target
      | none => qualify space text

/-- The name of a class-like declaration. -/
def className? (regions : Regions) (declaration : Cursor) : Option ClassName :=
  declaration.identifier?.map fun token =>
    qualify (regions.namespaceAt? declaration.start) token.text

end Regions

/-- The nearest class-like around the cursor, the cursor included. Inside a class without a name there is
none. -/
def Cursor.enclosingClassLike? (c : Cursor) : Option Cursor :=
  match c.ancestors.find? fun a => a.kind.isClassLike || a.kind == .anonClass with
  | some found => if found.kind.isClassLike then some found else none
  | none => none

namespace Regions

/-- The name of the class-like around the cursor. -/
def enclosingClass? (regions : Regions) (c : Cursor) : Option ClassName :=
  c.enclosingClassLike?.bind regions.className?

/-- The class that a written name means. `self` and `static` mean the class-like around it, `parent` the
first one that this class-like extends; without such a class-like they mean nothing. -/
def resolveName? (regions : Regions) (name : Cursor) : Option ClassName :=
  let text := name.nameText
  if sameIgnoringCase text selfWord || sameIgnoringCase text staticWord then
    regions.enclosingClass? name
  else if sameIgnoringCase text parentWord then
    match name.enclosingClassLike? with
    | some declaration =>
      declaration.extendsNames.head?.map fun parent => regions.resolve parent.nameText parent.start
    | none => none
  else some (regions.resolve text name.start)

end Regions

end PhpMembers
