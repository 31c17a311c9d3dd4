import PhpMembers.Classes.Snapshot
import PhpMembers.Syntax.Parse

/-! # The class-likes of source files

An entry keeps what one declaration says about itself. A table holds the entries of many files by name;
letter case does not matter in these names. Declaring a name again replaces the entry and keeps its place.

* `ClassEntry`, `ClassEntry.allOf` : the entries of a file.
* `ClassTable`, `ClassTable.insert`, `ClassTable.find?` : entries by name.
-/

namespace PhpMembers

/-- A member as its declaration shows it. -/
structure MemberEntry where
  /-- Method, property or constant. -/
  kind : MemberKind
  /-- Its name. -/
  name : MemberName
  /-- Whether it belongs to the class and not to its objects. -/
  isStatic : Bool
  /-- Its declared type. -/
  declared : DeclaredType
deriving DecidableEq

/-- What a declaration says about a class-like. -/
structure ClassEntry where
  /-- Its fully qualified name. -/
  name : ClassName
  /-- Its kind. -/
  kind : ClassKind
  /-- The superclass. Interfaces have none. -/
  parent : Option ClassName
  /-- The interfaces it implements or, for an interface, extends. -/
  interfaces : List ClassName
  /-- The traits it uses. -/
  traits : List ClassName
  /-- Its own members: methods with the properties that their parameters promote, properties, constants,
  enum cases. -/
  members : List MemberEntry
deriving DecidableEq

namespace ClassEntry

/-- A method and the properties that its parameters declare. -/
def methodMembers (regions : Regions) (owner : ClassName) (method : Cursor) : List MemberEntry :=
  match method.identifier? with
  | none => []
  | some token =>
    ⟨.method, .ofSyntax token.text, method.isStatic,
        declaredType regions method.returnHint? method returnTag none (some owner)⟩ ::
      method.promotedParams.filterMap fun param =>
        param.variableToken?.map fun token =>
          ⟨.property, .ofSyntax token.text, false,
            declaredType regions param.typeHint? param varTag none (some owner)⟩

/-- The properties of a declaration. -/
def propertyMembers (regions : Regions) (owner : ClassName) (property : Cursor) :
    List MemberEntry :=
  (property.nodesOf .propertyElement).filterMap fun element =>
    element.variableToken?.map fun token =>
      ⟨.property, .ofSyntax token.text, property.isStatic,
        declaredType regions property.typeHint? property varTag (some token.text) (some owner)⟩

/-- The constants of a declaration. -/
def constantMembers (declaration : Cursor) : List MemberEntry :=
  (declaration.nodesOf .constElement).filterMap fun element =>
    element.identifier?.map fun token => ⟨.constant, .ofSyntax token.text, true, .unknown⟩

/-- An enum case: a constant whose value is an object of the enum. -/
def caseMember? (owner : ClassName) (declaration : Cursor) : Option MemberEntry :=
  declaration.identifier?.map fun token =>
    ⟨.constant, .ofSyntax token.text, true, .fixed (.object owner)⟩

/-- What a declaration says, if it has a name. -/
def ofDeclaration? (regions : Regions) (declaration : Cursor) : Option ClassEntry :=
  (regions.className? declaration).map fun name =>
    let resolved (names : List Cursor) : List ClassName := names.filterMap regions.resolveName?
    let kind := declaration.kind.classKind
    { name
      kind
      parent :=
        if kind = .interface then none
        else declaration.extendsNames.head?.bind regions.resolveName?
      interfaces :=
        if kind = .interface then resolved declaration.extendsNames
        else resolved declaration.implementsNames
      traits := resolved declaration.traitNames
      members :=
        (declaration.membersOf .methodDecl).flatMap (methodMembers regions name)
          ++ (declaration.membersOf .propertyDecl).flatMap (propertyMembers regions name)
          ++ (declaration.membersOf .classConstDecl).flatMap constantMembers
          ++ (declaration.membersOf .enumCase).filterMap (caseMember? name) }

/-- The entries of a file with known regions, in the order of the declarations. -/
def allWithin (regions : Regions) (file : Cursor) : List ClassEntry :=
  file.classLikes.filterMap (ofDeclaration? regions)

/-- The entries of a file. -/
def allOf (file : Cursor) : List ClassEntry := allWithin (.ofFile file) file

/-- The entries of a source text. -/
def allOfText (source : Text) : List ClassEntry := allOf (.root (Parse.ofText source).tree)

end ClassEntry

/-- The key under which a name is listed. -/
def ClassName.key (name : ClassName) : Text := lowerCase name.text

/-- Entries by key, in the order in which the keys came up. -/
structure ClassTable where
  /-- The keys with their entries. -/
  entries : List (Text × ClassEntry)
deriving DecidableEq, Inhabited

namespace ClassTable

/-- No entries. -/
def empty : ClassTable := ⟨[]⟩

/-- Replace the entry of a key, or append it. -/
def insertEntry (key : Text) (entry : ClassEntry) :
    List (Text × ClassEntry) → List (Text × ClassEntry)
  | [] => [(key, entry)]
  | (other, old) :: rest =>
    if other = key then (key, entry) :: rest else (other, old) :: insertEntry key entry rest

/-- Add an entry under its name. -/
def insert (table : ClassTable) (entry : ClassEntry) : ClassTable :=
  ⟨insertEntry entry.name.key entry table.entries⟩

/-- Add several entries in turn. -/
def insertAll (table : ClassTable) (entries : List ClassEntry) : ClassTable :=
  entries.foldl insert table

/-- The table of the given entries. -/
def ofEntries (entries : List ClassEntry) : ClassTable := empty.insertAll entries

/-- The entry of a name. -/
def find? (table : ClassTable) (name : ClassName) : Option ClassEntry :=
  table.entries.lookup name.key

/-- The names as they were last declared. -/
def names (table : ClassTable) : List ClassName := table.entries.map (·.2.name)

/-- The number of names. -/
def size (table : ClassTable) : Nat := table.entries.length

end ClassTable

end PhpMembers
