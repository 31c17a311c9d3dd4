import PhpMembers.Syntax.Grammar.Rule

/-! # Expressions

Operators are read by binding power. Every infix operator has a left and a right power; an expression read
with power `p` takes an operator only if its left power is at least `p`, and reads the operand on the right
with the right power. Accesses, calls and indices bind more tightly than any operator and are folded onto
the operand from the left.
-/

namespace PhpMembers

/-- What an infix operator builds and how strongly it binds on either side. -/
structure InfixPower where
  /-- The power towards the left operand. -/
  left : Nat
  /-- The power with which the right operand is read. -/
  right : Nat
  /-- The kind of the expression. -/
  kind : Kind
deriving DecidableEq

/-- The infix operators. -/
def infixPower? : Kind → Option InfixPower
  | .orKw => some ⟨1, 2, .binaryExpr⟩
  | .xorKw => some ⟨3, 4, .binaryExpr⟩
  | .andKw => some ⟨5, 6, .binaryExpr⟩
  | .eq | .assignOp => some ⟨8, 7, .assignExpr⟩
  | .question => some ⟨10, 11, .ternaryExpr⟩
  | .questionQuestion => some ⟨13, 12, .binaryExpr⟩
  | .pipePipe => some ⟨14, 15, .binaryExpr⟩
  | .ampAmp => some ⟨16, 17, .binaryExpr⟩
  | .pipe => some ⟨18, 19, .binaryExpr⟩
  | .caret => some ⟨20, 21, .binaryExpr⟩
  | .amp => some ⟨22, 23, .binaryExpr⟩
  | .eqEq | .eqEqEq | .bangEq | .bangEqEq | .spaceship => some ⟨24, 25, .binaryExpr⟩
  | .lt | .gt | .ltEq | .gtEq => some ⟨26, 27, .binaryExpr⟩
  | .dot => some ⟨28, 29, .binaryExpr⟩
  | .shl | .shr => some ⟨30, 31, .binaryExpr⟩
  | .plus | .minus => some ⟨32, 33, .binaryExpr⟩
  | .star | .slash | .percent => some ⟨34, 35, .binaryExpr⟩
  | .instanceofKw => some ⟨36, 37, .binaryExpr⟩
  | .starStar => some ⟨40, 39, .binaryExpr⟩
  | _ => none

/-- The power with which the operand of a prefix operator is read. -/
def prefixPower? : Kind → Option Nat
  | .bang => some 35
  | .minus | .plus | .tilde | .atSign | .plusPlus | .minusMinus | .cloneKw | .amp => some 38
  | .printKw | .throwKw | .includeKw => some 7
  | _ => none

/-- The power with which the operand of a cast is read. -/
def castPower : Nat := 38

/-- The power with which the operand of `yield` is read. -/
def yieldPower : Nat := 7

/-- Tokens that end an expression and are left for the construct around it. -/
def expressionEnds : List Kind :=
  [.semicolon, .rParen, .rBracket, .rBrace, .lBrace, .comma, .fatArrow, .colon]

/-- The type names of casts. -/
def castTypes : List Text :=
  [['i', 'n', 't'],
    ['i', 'n', 't', 'e', 'g', 'e', 'r'],
    ['b', 'o', 'o', 'l'],
    ['b', 'o', 'o', 'l', 'e', 'a', 'n'],
    ['f', 'l', 'o', 'a', 't'],
    ['d', 'o', 'u', 'b', 'l', 'e'],
    ['r', 'e', 'a', 'l'],
    ['s', 't', 'r', 'i', 'n', 'g'],
    ['a', 'r', 'r', 'a', 'y'],
    ['o', 'b', 'j', 'e', 'c', 't'],
    ['u', 'n', 's', 'e', 't'],
    ['b', 'i', 'n', 'a', 'r', 'y']]

/-- Whether a list of kinds is that of attribute groups and then `class`. The number counts the brackets
that are open. -/
def attributesThenClass : Nat → List Kind → Bool
  | _, [] => false
  | depth, .hashBracket :: kinds => attributesThenClass (depth + 1) kinds
  | depth, .lBracket :: kinds => attributesThenClass (depth + 1) kinds
  | depth, .rBracket :: kinds => attributesThenClass (depth - 1) kinds
  | _, .error :: _ => false
  | 0, kind :: _ => kind == .classKw
  | depth + 1, _ :: kinds => attributesThenClass (depth + 1) kinds

namespace Grammar

open Production

/-! ## Operators -/

/-- A name that can stand for a class. -/
def classNameAhead : Grammar := nextAmong [.ident, .qualifiedName, .staticKw]

/-- What follows an infix operator. -/
def infixOperand (operator : Kind) (right : Nat) : Grammar :=
  match operator with
  | .question =>
    andThen (either (next .colon) expression) (when (expect .colon) (call (.expression right)))
  | .eq => andThen (eat .amp) (call (.expression right))
  | .instanceofKw => branch classNameAhead nameRef (call (.expression right))
  | _ => call (.expression right)

/-- An infix operator with its right operand, if one follows that binds strongly enough. -/
def infixStep (power : Nat) : Grammar :=
  byKind fun operator =>
    match infixPower? operator with
    | none => stop
    | some p =>
      if p.left < power then stop
      else also (wrap p.kind (andThen bump (infixOperand operator p.right)))

/-- An operand and the infix operators after it. The answer tells whether there is an operand. -/
def operatorChain (power : Nat) : Grammar :=
  group (branch (call .unary) (loop (infixStep power)) stop)

/-- A type name in parentheses. -/
def castAhead : Grammar :=
  both (next .lParen)
    (both (look (.kind 1 fun kind => kind == .ident || kind == .arrayKw))
      (both (nthIs 2 .rParen) (look (.word 1 castTypes))))

/-- A `yield` with what it yields. -/
def yieldExpression : Grammar :=
  node .unaryExpr (seq [bump,
    when (both (next .ident) (look (.word 0 [['f', 'r', 'o', 'm']]))) bump,
    either (either atEnd (nextAmong expressionEnds))
      (andThen (call (.expression yieldPower))
        (when (eat .fatArrow) (call (.expression yieldPower))))])

/-- An operand with the casts and prefix operators in front of it. -/
def unary : Grammar :=
  branch castAhead
    (also (node .unaryExpr (andThen (node .cast (seq [bump, bump, bump]))
      (call (.expression castPower)))))
    (byKind fun operator =>
      match prefixPower? operator with
      | some power => also (node .unaryExpr (andThen bump (call (.expression power))))
      | none => if operator == .yieldKw then also yieldExpression else call .postfixed)

/-! ## Accesses and calls -/

/-- A member name that is computed, in braces. -/
def bracedMemberName : Grammar :=
  node .memberNameExpr (seq [bump, expression, expect .rBrace])

/-- The name after an arrow. -/
def instanceMemberName : Grammar :=
  byKind fun kind =>
    if kind.isMemberName then bumpAs .ident
    else match kind with
      | .variable => call .variable
      | .lBrace => bracedMemberName
      | _ => fault .expectedMemberName

/-- The name after a double colon. -/
def staticMemberName : Grammar :=
  byKind fun
    | .classKw => bump
    | .variable => bump
    | .lBrace => bracedMemberName
    | .dollar => call .variable
    | kind => if kind.isMemberName then bumpAs .ident else fault .expectedMemberName

/-- One access, call, index or postfix operator, if one follows. -/
def postfixStep : Grammar :=
  byKind fun
    | .arrow => also (wrap .memberAccessExpr (andThen bump instanceMemberName))
    | .nullsafeArrow => also (wrap .memberAccessExpr (andThen bump instanceMemberName))
    | .colonColon => also (wrap .staticAccessExpr (andThen bump staticMemberName))
    | .lParen => also (wrap .callExpr (call .argList))
    | .lBracket =>
      also (wrap .indexExpr
        (seq [bump, either (next .rBracket) expression, expect .rBracket]))
    | .plusPlus => wrap .postfixExpr bump
    | .minusMinus => wrap .postfixExpr bump
    | _ => stop

/-- An operand and the accesses after it. The answer tells whether there is an operand. -/
def postfixed : Grammar := group (branch (call .primary) (loop postfixStep) stop)

/-- One argument: it may be spread or named. -/
def argument : Grammar :=
  node .arg (seq [eat .ellipsis,
    when (both (look (.kind 0 Kind.isMemberName)) (nthIs 1 .colon)) (andThen (bumpAs .ident) bump),
    expression])

/-- The arguments of a call. A lone ellipsis stands for the function itself. -/
def argList : Grammar :=
  node .argList (seq [bump,
    when (both (next .ellipsis) (nthIs 1 .rParen)) bump,
    untilClosed .rParen (advances (andThen argument
      (either (either (eat .comma) (next .rParen))
        (andThen (recover .expectedCommaOrParen [.comma, .rParen, .semicolon])
          (either (eat .comma) (next .rParen)))))),
    expect .rParen])

/-! ## Operands -/

/-- An expression in parentheses. -/
def parenthesized : Grammar := node .parenExpr (seq [bump, expression, expect .rParen])

/-- A variable. -/
def variableReference : Grammar :=
  node .variableExpr
    (branch (eat .dollar)
      (branch (next .lBrace) (seq [bump, expression, expect .rBrace])
        (branch (nextAmong [.variable, .dollar]) (call .variable) (fault .expectedVariable)))
      bump)

/-- One element of an array with its key. -/
def arrayElement : Grammar :=
  node .arrayElement (seq [eat .ellipsis, eat .amp, expression,
    when (eat .fatArrow) (andThen (eat .amp) expression)])

/-- The elements of an array up to the closing token. Elements may be left out. -/
def arrayElements (closing : Kind) : Grammar :=
  andThen
    (untilClosed closing (either (eat .comma) (advances (andThen arrayElement
      (either (either (eat .comma) (next closing))
        (also (andThen (recover .expectedCommaInArray [.comma, closing]) (eat .comma))))))))
    (expect closing)

/-- An array in brackets. -/
def bracketArray : Grammar := node .arrayExpr (andThen bump (arrayElements .rBracket))

/-- An array in parentheses after the word `array`. -/
def wordArray : Grammar := node .arrayExpr (seq [bump, bump, arrayElements .rParen])

/-- The creation of an object of a named, computed or nameless class. -/
def new : Grammar :=
  node .newExpr (andThen bump
    (branch (either (next .classKw)
        (both (next .hashBracket) (look (.kinds (attributesThenClass 0)))))
      (call .anonClass)
      (andThen
        (byKind fun
          | .ident => nameRef
          | .qualifiedName => nameRef
          | .staticKw => nameRef
          | .variable => call .variable
          | .dollar => call .variable
          | .lParen => parenthesized
          | _ => fault .expectedNewClass)
        (when (next .lParen) (call .argList)))))

/-- A class without a name, with the arguments of its constructor. -/
def anonClass : Grammar :=
  node .anonClass (seq [attributes, bump,
    when (next .lParen) (call .argList),
    extendsClause nameRef, implementsClause, call .classBody])

/-- The variables that a closure takes from around it. -/
def closureUse : Grammar :=
  node .closureUse (andThen bump (when (expect .lParen) (andThen
    (untilClosed .rParen (andThen (eat .amp)
      (branch (next .variable) (andThen (call .variable) (eat .comma))
        (andThen (recover .expectedVariable [.rParen]) stop))))
    (expect .rParen))))

/-- A function without a name. -/
def closure : Grammar :=
  node .closureExpr (seq [eat .staticKw, bump, eat .amp, call .paramList,
    when (next .useKw) closureUse, returnType, call .block])

/-- A function whose body is an expression. -/
def arrowFn : Grammar :=
  node .arrowFnExpr (seq [eat .staticKw, bump, eat .amp, call .paramList, returnType,
    when (expect .fatArrow) expression])

/-- One arm of a choice by value. -/
def matchArm : Grammar :=
  node .matchArm (andThen
    (either (eat .defaultKw)
      (loop (andThen expression (branch (eat .comma) (negate (next .fatArrow)) stop))))
    (when (expect .fatArrow) expression))

/-- A choice by value. -/
def choice : Grammar :=
  node .matchExpr (seq [bump, expect .lParen, expression, expect .rParen,
    when (expect .lBrace) (andThen
      (untilClosed .rBrace (advances (andThen matchArm
        (either (either (eat .comma) (next .rBrace))
          (also (andThen (recover .expectedCommaInMatch [.comma, .rBrace]) (eat .comma)))))))
      (expect .rBrace))])

/-- A name relative to the current namespace. -/
def relativeName : Grammar :=
  node .nameRef (seq [bump, bump,
    when (look (.kind 0 fun kind => kind.isMemberName || kind == .qualifiedName))
      (bumpAs .qualifiedName)])

/-- What is left when a token starts no operand: a reserved word that is called is a name, a token that
ends expressions is left alone, and any other becomes an error node. -/
def noOperand (kind : Kind) : Grammar :=
  branch (both (answer kind.isKeyword) (nthIs 1 .lParen)) (also nameRef)
    (if expressionEnds.contains kind then fault .expectedExpression
      else seq [fault (.unexpectedInExpression kind), node .error bump, ok])

/-- An operand without operators. The answer tells whether there is one. -/
def primary : Grammar :=
  branch atEnd (fault .expectedExpression) (byKind fun
    | .variable => also (call .variable)
    | .dollar => also (call .variable)
    | .integer => node .literal bump
    | .float => node .literal bump
    | .string => node .literal bump
    | .lBracket => also bracketArray
    | .arrayKw => branch (nthIs 1 .lParen) (also wordArray) (noOperand .arrayKw)
    | .lParen => also parenthesized
    | .newKw => also (call .new)
    | .functionKw => also (call .closure)
    | .fnKw => also (call .arrowFn)
    | .staticKw =>
      branch (nthIs 1 .fnKw) (also (call .arrowFn))
        (branch (nthIs 1 .functionKw) (also (call .closure)) (also nameRef))
    | .hashBracket => andThen attributes (call .primary)
    | .matchKw => branch (nthIs 1 .lParen) (also (call .choice)) (noOperand .matchKw)
    | .ident => also nameRef
    | .qualifiedName => also nameRef
    | .namespaceKw => branch (nthIs 1 .backslash) (also relativeName) (noOperand .namespaceKw)
    | kind => noOperand kind)

end Grammar

end PhpMembers
