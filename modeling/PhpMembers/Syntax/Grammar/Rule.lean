import PhpMembers.Syntax.Production

/-! # The rules of the grammar

A rule names a construct that other constructs contain. Its production stands in the module of its family:
expressions, declarations or statements.

* `Rule` : the names.
* `Grammar` : productions over these rules.
-/

namespace PhpMembers

/-- The constructs that productions refer to. -/
inductive Rule
  /-- A statement. -/
  | statement
  /-- Statements in braces. -/
  | block
  /-- An expression whose infix operators bind at least this strongly on their left. -/
  | expression (power : Nat)
  /-- An operand with its prefix operators. -/
  | unary
  /-- An operand with its accesses, calls and indices. -/
  | postfixed
  /-- An operand without operators. -/
  | primary
  /-- A variable, possibly a computed one. -/
  | variable
  /-- The arguments of a call, in parentheses. -/
  | argList
  /-- The creation of an object. -/
  | new
  /-- A class without a name, after `new`. -/
  | anonClass
  /-- A function without a name. -/
  | closure
  /-- A function that is an expression. -/
  | arrowFn
  /-- A choice by value. -/
  | choice
  /-- A group of attributes. -/
  | attributeGroup
  /-- A class, interface, trait or enum. -/
  | classLike
  /-- The members of a class-like, in braces. -/
  | classBody
  /-- A member of a class-like. -/
  | classMember
  /-- A named function. -/
  | functionDecl
  /-- Parameters in parentheses. -/
  | paramList
  /-- One parameter. -/
  | param
  /-- A declared type. -/
  | type
  /-- One alternative of a declared type. -/
  | typeAtom
  /-- A namespace. -/
  | namespaceDef
  /-- Imports. -/
  | useDecl
  /-- A group in braces that is kept and not interpreted. -/
  | braced
deriving DecidableEq

/-- A production that refers to rules. -/
abbrev Grammar := Production Rule

namespace Grammar

open Production

/-- An expression of any kind. -/
def expression : Grammar := call (.expression 0)

/-- A statement. -/
def statement : Grammar := call .statement

/-- A declared type. -/
def type : Grammar := call .type

/-- A name. Reserved words are taken for identifiers, but `static` and `array` keep their kind. -/
def nameRef : Grammar :=
  node .nameRef (byKind fun
    | .ident => bump
    | .qualifiedName => bump
    | .staticKw => bump
    | .arrayKw => bump
    | kind => if kind.isKeyword then bumpAs .ident else fault .expectedName)

/-- Names separated by commas. -/
def nameList : Grammar := commaList nameRef

/-- The end of a statement: a semicolon, the end of the text or a closing tag. -/
def statementEnd : Grammar :=
  either (eat .semicolon) (either atEnd (either (look .closeTag) (fault .expectedSemicolon)))

/-- Groups of attributes. -/
def attributes : Grammar := loop (branch (next .hashBracket) (also (call .attributeGroup)) stop)

/-- A declared result type, if there is one. -/
def returnType : Grammar := when (next .colon) (node .returnType (andThen bump type))

/-- The superclass or superinterfaces after their keyword, if it is there. -/
def extendsClause (names : Grammar) : Grammar :=
  when (next .extendsKw) (node .extendsClause (andThen bump names))

/-- The implemented interfaces after their keyword, if it is there. -/
def implementsClause : Grammar :=
  when (next .implementsKw) (node .implementsClause (andThen bump nameList))

/-- The expression after an equals sign, if there is one. -/
def initializer : Grammar := when (eat .eq) expression

/-- The rest of a group in braces, through the brace that closes it. The answer tells whether there is
one. -/
def braced : Grammar :=
  seq [bump,
    untilClosed .rBrace (also (branch (next .lBrace) (call .braced) bump)),
    eat .rBrace]

/-- A group in braces whose content is not interpreted. -/
def skipBraced : Grammar := either (call .braced) (fault .unterminatedBlock)

end Grammar

end PhpMembers
