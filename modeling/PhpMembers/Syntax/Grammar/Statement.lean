import PhpMembers.Syntax.Grammar.Declaration

/-! # Statements and source files -/

namespace PhpMembers

/-- Whether modifiers are followed by `class`. -/
def modifiersThenClass (kinds : List Kind) : Bool :=
  (kinds.dropWhile classModifiers.contains).head? == some .classKw

namespace Grammar

open Production

/-- Statements up to the closing brace. -/
def statements : Grammar := untilClosed .rBrace (unstuck .rBrace statement)

/-- Statements in braces. -/
def block : Grammar := node .block (seq [expect .lBrace, statements, expect .rBrace])

/-- Expressions separated by commas. -/
def expressionList : Grammar := commaList expression

/-- An expression as a statement. -/
def expressionStatement : Grammar := node .exprStmt (andThen expression statementEnd)

/-- A keyword that may be followed by an expression. -/
def keywordStatement (kind : Kind) : Grammar :=
  node kind (seq [bump, either (either (next .semicolon) atEnd) expression, statementEnd])

/-- A keyword that is followed by expressions. -/
def listStatement (kind : Kind) : Grammar := node kind (seq [bump, expressionList, statementEnd])

/-- One directive. -/
def directive : Grammar :=
  seq [when (look (.kind 0 Kind.isMemberName)) (bumpAs .ident), initializer, eat .comma]

/-- Directives, for the file or for one statement. -/
def declareStatement : Grammar :=
  node .declareStmt (seq [bump,
    when (expect .lParen) (andThen
      (untilClosed .rParen (advancing .unexpectedInDeclare [.rParen] directive))
      (expect .rParen)),
    either (either (eat .semicolon) atEnd) statement])

/-- Constants outside of classes. -/
def constStatement : Grammar :=
  node .constStmt (seq [bump, commaList constElement, statementEnd])

/-- A condition in parentheses. -/
def condition : Grammar := when (expect .lParen) (andThen expression (expect .rParen))

/-- One alternative after a conditional statement. The answer tells whether another may follow. -/
def elseClause : Grammar :=
  byKind fun
    | .elseifKw => also (node .elseClause (seq [bump, condition, statement]))
    | .elseKw => andThen (node .elseClause (andThen bump statement)) stop
    | _ => stop

/-- A conditional statement. -/
def ifStatement : Grammar := node .ifStmt (seq [bump, condition, statement, loop elseClause])

/-- A loop with its condition in front. -/
def whileStatement : Grammar := node .whileStmt (seq [bump, condition, statement])

/-- A loop with its condition at the end. -/
def doStatement : Grammar :=
  node .doWhileStmt (seq [bump, statement, when (expect .whileKw) condition, statementEnd])

/-- One of the three parts that control a counting loop. -/
def forPart (closing : Kind) : Grammar :=
  andThen (either (next closing) expressionList) (expect closing)

/-- A counting loop. -/
def forStatement : Grammar :=
  node .forStmt (seq [bump,
    when (expect .lParen) (seq [forPart .semicolon, forPart .semicolon, forPart .rParen]),
    statement])

/-- A loop over the elements of a collection. -/
def foreachStatement : Grammar :=
  node .foreachStmt (seq [bump,
    when (expect .lParen) (seq [expression,
      when (expect .asKw) (seq [eat .amp, expression,
        when (eat .fatArrow) (andThen (eat .amp) expression)]),
      expect .rParen]),
    statement])

/-- One case of a switch with its statements. -/
def switchCase : Grammar :=
  node .switchCase (seq [branch (eat .caseKw) expression bump,
    either (eat .colon) (expect .semicolon),
    loop (branch (either atEnd (nextAmong [.caseKw, .defaultKw, .rBrace])) stop
      (advancing .unexpectedInSwitch [.rBrace] statement))])

/-- A choice among cases. -/
def switchStatement : Grammar :=
  node .switchStmt (seq [bump, condition,
    when (expect .lBrace) (andThen
      (loop (branch (nextAmong [.caseKw, .defaultKw]) (also switchCase) stop))
      (expect .rBrace))])

/-- The handler of one kind of exception. -/
def catchClause : Grammar :=
  node .catchClause (seq [bump,
    when (expect .lParen) (seq [type, eat .variable, expect .rParen]),
    call .block])

/-- A block with its handlers. -/
def tryStatement : Grammar :=
  node .tryStmt (seq [bump, call .block,
    loop (branch (next .catchKw) (also catchClause) stop),
    when (next .finallyKw) (node .finallyClause (andThen bump (call .block)))])

/-- Whether a function name follows, possibly after an ampersand. -/
def functionNameAhead : Grammar :=
  either (look (.kind 1 Kind.isMemberName))
    (both (nthIs 1 .amp) (look (.kind 2 Kind.isMemberName)))

/-- A statement. What starts no other statement is read as an expression. -/
def anyStatement : Grammar :=
  byKind fun
    | .namespaceKw => branch (nthIs 1 .backslash) expressionStatement (call .namespaceDef)
    | .useKw => call .useDecl
    | .hashBracket => call .attributeGroup
    | .abstractKw => branch (look (.kinds modifiersThenClass)) (call .classLike) expressionStatement
    | .finalKw => branch (look (.kinds modifiersThenClass)) (call .classLike) expressionStatement
    | .readonlyKw => branch (look (.kinds modifiersThenClass)) (call .classLike) expressionStatement
    | .classKw => branch (nthIs 1 .lParen) expressionStatement (call .classLike)
    | .interfaceKw => call .classLike
    | .traitKw => call .classLike
    | .enumKw => branch (look (.kind 1 Kind.isMemberName)) (call .classLike) expressionStatement
    | .functionKw => branch functionNameAhead (call .functionDecl) expressionStatement
    | .lBrace => call .block
    | .ifKw => ifStatement
    | .whileKw => whileStatement
    | .doKw => doStatement
    | .forKw => forStatement
    | .foreachKw => foreachStatement
    | .switchKw => switchStatement
    | .tryKw => tryStatement
    | .returnKw => keywordStatement .returnStmt
    | .echoKw => listStatement .echoStmt
    | .breakKw => keywordStatement .jumpStmt
    | .continueKw => keywordStatement .jumpStmt
    | .globalKw => listStatement .globalStmt
    | .staticKw => branch (nthIs 1 .variable) (listStatement .staticVarStmt) expressionStatement
    | .declareKw => declareStatement
    | .constKw => constStatement
    | .semicolon => node .emptyStmt bump
    | _ => expressionStatement

/-- The statements of a file. A closing brace that nothing opened is reported. -/
def sourceFile : Grammar :=
  loop (branch atEnd stop (also (branch (next .rBrace) (recover .unmatchedBrace [])
    (either (advances (also statement))
      (either atEnd (byKind fun kind => andThen (fault (.stuck kind)) bump))))))

end Grammar

end PhpMembers
