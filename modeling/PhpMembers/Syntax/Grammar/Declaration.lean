import PhpMembers.Syntax.Grammar.Rule

/-! # Namespaces, imports, class-likes, functions and types -/

namespace PhpMembers

/-- The modifiers of a class. -/
def classModifiers : List Kind := [.abstractKw, .finalKw, .readonlyKw]

/-- The modifiers of a class member. -/
def memberModifiers : List Kind :=
  [.publicKw, .protectedKw, .privateKw, .staticKw, .abstractKw, .finalKw, .readonlyKw, .varKw]

/-- The modifiers of a parameter. With one, a constructor parameter is a property, too. -/
def paramModifiers : List Kind := [.publicKw, .protectedKw, .privateKw, .readonlyKw]

/-- The declaration that a keyword starts. -/
def classLikeKind : Kind → Kind
  | .interfaceKw => .interfaceDecl
  | .traitKw => .traitDecl
  | .enumKw => .enumDecl
  | _ => .classDecl

namespace Grammar

open Production

/-! ## Namespaces and imports -/

/-- A name as it is written in a namespace or an import. -/
def plainNameAhead : Grammar := nextAmong [.ident, .qualifiedName]

/-- A namespace: with its statements in braces, or up to the next one. -/
def namespaceDef : Grammar :=
  node .namespaceDef (seq [bump, when plainNameAhead nameRef,
    branch (next .lBrace) (call .block) statementEnd])

/-- The other name of an import, if there is one. -/
def useAlias : Grammar := when (eat .asKw) (memberName .expectedAlias)

/-- The mark of a function or constant import, if there is one. -/
def useMark : Grammar := when (nextAmong [.functionKw, .constKw]) bump

/-- One import of a group. -/
def groupedUse : Grammar :=
  seq [useMark, node .useClause (andThen (when plainNameAhead nameRef) useAlias), eat .comma]

/-- One import, or several with a common first part. -/
def useClause : Grammar :=
  branch plainNameAhead
    (group (andThen nameRef
      (branch (both (next .backslash) (nthIs 1 .lBrace))
        (wrap .useGroup (seq [bump, bump,
          untilClosed .rBrace (advancing .unexpectedInUseGroup [.rBrace] groupedUse),
          expect .rBrace]))
        (wrap .useClause useAlias))))
    (recover .expectedImport [.comma, .semicolon])

/-- Imports. -/
def useDecl : Grammar :=
  node .useDecl (seq [bump, useMark, commaList useClause, statementEnd])

/-- A group of attributes. -/
def attributeGroup : Grammar :=
  node .attributeGroup (seq [bump,
    untilClosed .rBracket
      (advancing .unexpectedInAttribute [.rBracket] (andThen expression (eat .comma))),
    expect .rBracket])

/-! ## Class-likes -/

/-- A class-like of a known kind, from its keyword on. -/
def classLikeAs (kind : Kind) : Grammar :=
  wrap kind (seq [bump, memberName .expectedClassName,
    if kind == .enumDecl then when (eat .colon) type else ok,
    extendsClause nameList, implementsClause, call .classBody])

/-- A class-like with its modifiers. -/
def classLike : Grammar :=
  group (andThen (eatWhile classModifiers) (byKind fun kind => classLikeAs (classLikeKind kind)))

/-- The members of a class-like. -/
def classBody : Grammar :=
  node .classBody (when (expect .lBrace)
    (andThen (untilClosed .rBrace (unstuck .rBrace (call .classMember))) (expect .rBrace)))

/-- A method after its modifiers. -/
def method : Grammar :=
  wrap .methodDecl (seq [bump, eat .amp, memberName .expectedMethodName, call .paramList, returnType,
    branch (next .lBrace) (call .block) statementEnd])

/-- One constant with its value. -/
def constElement : Grammar :=
  node .constElement (andThen (memberName .expectedConstantName) (when (expect .eq) expression))

/-- Class constants after their modifiers. A type stands before the name if neither an equals sign nor a
comma follows the next token. -/
def classConst : Grammar :=
  wrap .classConstDecl (seq [bump,
    either (look (.kind 1 fun kind => kind == .eq || kind == .comma)) type,
    commaList constElement, statementEnd])

/-- One property with its initial value. The answer tells whether there is one. -/
def propertyElement : Grammar :=
  node .propertyElement (branch (expect .variable) (also initializer) stop)

/-- Properties after their modifiers. Hooks in braces are kept and not interpreted. -/
def property : Grammar :=
  wrap .propertyDecl (seq [either (next .variable) type,
    loop (branch propertyElement (eat .comma) stop),
    branch (next .lBrace) skipBraced statementEnd])

/-- The traits that a class uses. -/
def traitUse : Grammar :=
  node .traitUse (seq [bump, nameList, branch (next .lBrace) skipBraced statementEnd])

/-- A case of an enum. -/
def enumCase : Grammar :=
  node .enumCase (seq [bump, memberName .expectedCaseName, initializer, statementEnd])

/-- Tokens at which reading goes on after damage in a class body. -/
def memberStops : List Kind :=
  [.semicolon, .rBrace, .functionKw, .constKw, .publicKw, .protectedKw, .privateKw]

/-- A method, constants or properties, with their modifiers. -/
def modifiedMember : Grammar :=
  group (andThen (eatWhile memberModifiers) (byKind fun
    | .functionKw => method
    | .constKw => classConst
    | .variable => property
    | .question => property
    | .ident => property
    | .qualifiedName => property
    | .arrayKw => property
    | .staticKw => property
    | .lParen => property
    | kind => andThen (recover (.unexpectedInClassBody kind) memberStops) (eat .semicolon)))

/-- A member of a class-like, after its attributes. -/
def classMember : Grammar :=
  andThen attributes (byKind fun
    | .useKw => traitUse
    | .caseKw => enumCase
    | .rBrace => ok
    | _ => modifiedMember)

/-! ## Functions and types -/

/-- A named function. -/
def functionDecl : Grammar :=
  node .functionDecl (seq [bump, eat .amp, bumpAs .ident, call .paramList, returnType, call .block])

/-- Parameters. Damage before an opening brace ends the list. -/
def paramList : Grammar :=
  node .paramList (when (expect .lParen) (andThen
    (untilClosed .rParen (advances (andThen (call .param)
      (either (either (eat .comma) (next .rParen))
        (andThen (recover .expectedCommaOrParen [.comma, .rParen, .lBrace])
          (branch (next .lBrace) stop (also (eat .comma))))))))
    (expect .rParen)))

/-- One parameter. -/
def param : Grammar :=
  node .param (seq [attributes, eatWhile paramModifiers,
    either (nextAmong [.variable, .amp, .ellipsis]) type,
    eat .amp, eat .ellipsis, expect .variable, initializer])

/-- A sign between two alternatives of a type. An ampersand before a variable belongs to the
parameter. -/
def typeJoinAhead : Grammar :=
  either (next .pipe) (both (next .amp)
    (look (.kind 1 fun kind => !(kind == .variable || kind == .ellipsis || kind == .amp))))

/-- A declared type. -/
def declaredType : Grammar :=
  node .type (seq [eat .question, call .typeAtom,
    loop (branch typeJoinAhead (also (andThen bump (call .typeAtom))) stop)])

/-- One alternative of a type: a name, or several in parentheses. -/
def typeAtom : Grammar :=
  branch (eat .lParen)
    (seq [call .typeAtom, loop (branch (eat .amp) (also (call .typeAtom)) stop), expect .rParen])
    nameRef

end Grammar

end PhpMembers
