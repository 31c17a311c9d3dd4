import PhpMembers.Source.Written

/-! # The parts of declarations

Where the parts of a declaration stand below its node. Damage can leave any of them out.
-/

namespace PhpMembers

/-- The constructs that have a body of members and a name. -/
inductive ClassKind
  /-- A class. -/
  | plain
  /-- An interface. -/
  | interface
  /-- A trait. -/
  | trait
  /-- An enum. -/
  | enum
deriving DecidableEq, Inhabited

/-- Which class-like a node declares. -/
def Kind.classKind : Kind → ClassKind
  | .interfaceDecl => .interface
  | .traitDecl => .trait
  | .enumDecl => .enum
  | _ => .plain

namespace Cursor

/-! ## Class-likes -/

/-- The class-likes at and below the cursor. -/
def classLikes (c : Cursor) : List Cursor := c.descendants.filter (·.kind.isClassLike)

/-- The identifier that names a class-like, method, function, constant or enum case. -/
def identifier? (c : Cursor) : Option Cursor := c.token? .ident

/-- The names in the clauses of a kind. -/
def clauseNames (c : Cursor) (clause : Kind) : List Cursor :=
  (c.nodesOf clause).flatMap names

/-- The names after `extends`. -/
def extendsNames (c : Cursor) : List Cursor := c.clauseNames .extendsClause

/-- The names after `implements`. -/
def implementsNames (c : Cursor) : List Cursor := c.clauseNames .implementsClause

/-- The body of a class-like. -/
def classBody? (c : Cursor) : Option Cursor := c.node? .classBody

/-- The parts of a kind in the body of a class-like. -/
def membersOf (c : Cursor) (kind : Kind) : List Cursor :=
  match c.classBody? with
  | some body => body.nodesOf kind
  | none => []

/-- The traits that a class-like uses. -/
def traitNames (c : Cursor) : List Cursor := (c.membersOf .traitUse).flatMap names

/-! ## Functions, parameters and types -/

/-- The variable of a parameter, property or handler. -/
def variableToken? (c : Cursor) : Option Cursor := c.token? .variable

/-- The declared type of a parameter, property, result or handler. -/
def typeHint? (c : Cursor) : Option Cursor := c.node? .type

/-- The parameter list of a function. -/
def paramList? (c : Cursor) : Option Cursor := c.node? .paramList

/-- The parameters of a function. -/
def params (c : Cursor) : List Cursor :=
  match c.paramList? with
  | some list => list.nodesOf .param
  | none => []

/-- The declared type of what a function returns. -/
def returnHint? (c : Cursor) : Option Cursor :=
  match c.node? .returnType with
  | some clause => clause.typeHint?
  | none => none

/-- Whether a parameter has a modifier, with which a constructor parameter is a property, too. -/
def isPromoted (c : Cursor) : Bool :=
  c.tokens.any fun token =>
    match token.kind with
    | .publicKw | .protectedKw | .privateKw | .readonlyKw => true
    | _ => false

/-- The parameters of a method that are properties, too. -/
def promotedParams (c : Cursor) : List Cursor := c.params.filter isPromoted

/-- Whether a member is declared `static`. -/
def isStatic (c : Cursor) : Bool := c.hasToken .staticKw

/-- Whether a declared type begins with a question mark. -/
def isNullable (c : Cursor) : Bool := c.hasToken .question

/-- Whether a declared type has alternatives. -/
def isUnion (c : Cursor) : Bool := c.hasToken .pipe

/-! ## Namespaces and imports -/

/-- The statements of a namespace in braces. -/
def block? (c : Cursor) : Option Cursor := c.node? .block

/-- The other name that an import introduces: the identifier after `as`. -/
def alias? (c : Cursor) : Option Cursor :=
  (c.tokens.dropWhile (·.kind != .asKw)).find? (·.kind == .ident)

/-- The name that an import binds: the other name, or the last segment of the imported one. -/
def importedAs? (c : Cursor) : Option Text :=
  match c.alias? with
  | some token => some token.text
  | none => c.name?.map fun name => lastSegment name.nameText

end Cursor

end PhpMembers
