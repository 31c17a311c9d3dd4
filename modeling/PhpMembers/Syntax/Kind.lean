/-! # Kinds of syntax

Every token and every node of a syntax tree has a kind. Kinds are numbered in the order in which they are
listed here, and several classes of kinds are ranges of that order.

* `Kind.name`, `Kind.number`, `Kind.ofNumber?` : the written name and the number of a kind.
* `Kind.isTrivia`, `Kind.isKeyword`, `Kind.isExpression`, ... : the classes of kinds.
-/

namespace PhpMembers

/-- The kind of a token or node. -/
inductive Kind
  -- Trivia
  | whitespace | lineComment | blockComment | docComment | openTag | closeTag
  -- Names and literals
  | ident | qualifiedName | variable | integer | float | string | cast
  -- Punctuation
  | lBrace | rBrace | lBracket | rBracket | lParen | rParen | hashBracket | semicolon | comma
  | colon | colonColon | arrow | nullsafeArrow | fatArrow | backslash | dollar | ellipsis
  | question | questionQuestion | atSign | eq | eqEq | eqEqEq | bangEq | bangEqEq | lt | gt
  | ltEq | gtEq | spaceship | plus | minus | star | slash | percent | starStar | dot | plusPlus
  | minusMinus | bang | tilde | amp | pipe | caret | ampAmp | pipePipe | shl | shr | assignOp
  -- Keywords
  | abstractKw | andKw | arrayKw | asKw | breakKw | caseKw | catchKw | classKw | cloneKw
  | constKw | continueKw | declareKw | defaultKw | doKw | echoKw | elseKw | elseifKw | enumKw
  | extendsKw | finalKw | finallyKw | fnKw | forKw | foreachKw | functionKw | globalKw | ifKw
  | implementsKw | includeKw | instanceofKw | insteadofKw | interfaceKw | matchKw | namespaceKw
  | newKw | orKw | printKw | privateKw | protectedKw | publicKw | readonlyKw | returnKw
  | staticKw | switchKw | throwKw | traitKw | tryKw | useKw | varKw | whileKw | xorKw | yieldKw
  -- The root, namespaces and imports
  | sourceFile | namespaceDef | useDecl | useClause | useGroup | nameRef
  -- Class-likes
  | classDecl | interfaceDecl | traitDecl | enumDecl | extendsClause | implementsClause
  | classBody | attributeGroup
  -- Members
  | methodDecl | propertyDecl | propertyElement | classConstDecl | constElement | traitUse
  | enumCase
  -- Functions and types
  | functionDecl | paramList | param | type | returnType
  -- Statements
  | block | exprStmt | returnStmt | echoStmt | ifStmt | elseClause | whileStmt | doWhileStmt
  | forStmt | foreachStmt | switchStmt | switchCase | tryStmt | catchClause | finallyClause
  | jumpStmt | globalStmt | staticVarStmt | declareStmt | constStmt | emptyStmt
  -- Expressions
  | variableExpr | literal | arrayExpr | arrayElement | parenExpr | newExpr | anonClass
  | callExpr | argList | arg | memberAccessExpr | staticAccessExpr | memberNameExpr | indexExpr
  | assignExpr | binaryExpr | unaryExpr | postfixExpr | ternaryExpr | closureExpr | closureUse
  | arrowFnExpr | matchExpr | matchArm
  -- Damage
  | error
deriving DecidableEq, Inhabited

namespace Kind

/-- The number of a kind: its place in the order of declaration. -/
def number (k : Kind) : Nat := k.ctorIdx

/-- All kinds, by number. -/
def all : List Kind :=
  [.whitespace, .lineComment, .blockComment, .docComment, .openTag, .closeTag, .ident,
    .qualifiedName, .variable, .integer, .float, .string, .cast, .lBrace, .rBrace, .lBracket,
    .rBracket, .lParen, .rParen, .hashBracket, .semicolon, .comma, .colon, .colonColon, .arrow,
    .nullsafeArrow, .fatArrow, .backslash, .dollar, .ellipsis, .question, .questionQuestion,
    .atSign, .eq, .eqEq, .eqEqEq, .bangEq, .bangEqEq, .lt, .gt, .ltEq, .gtEq, .spaceship, .plus,
    .minus, .star, .slash, .percent, .starStar, .dot, .plusPlus, .minusMinus, .bang, .tilde,
    .amp, .pipe, .caret, .ampAmp, .pipePipe, .shl, .shr, .assignOp, .abstractKw, .andKw,
    .arrayKw, .asKw, .breakKw, .caseKw, .catchKw, .classKw, .cloneKw, .constKw, .continueKw,
    .declareKw, .defaultKw, .doKw, .echoKw, .elseKw, .elseifKw, .enumKw, .extendsKw, .finalKw,
    .finallyKw, .fnKw, .forKw, .foreachKw, .functionKw, .globalKw, .ifKw, .implementsKw,
    .includeKw, .instanceofKw, .insteadofKw, .interfaceKw, .matchKw, .namespaceKw, .newKw, .orKw,
    .printKw, .privateKw, .protectedKw, .publicKw, .readonlyKw, .returnKw, .staticKw, .switchKw,
    .throwKw, .traitKw, .tryKw, .useKw, .varKw, .whileKw, .xorKw, .yieldKw, .sourceFile,
    .namespaceDef, .useDecl, .useClause, .useGroup, .nameRef, .classDecl, .interfaceDecl,
    .traitDecl, .enumDecl, .extendsClause, .implementsClause, .classBody, .attributeGroup,
    .methodDecl, .propertyDecl, .propertyElement, .classConstDecl, .constElement, .traitUse,
    .enumCase, .functionDecl, .paramList, .param, .type, .returnType, .block, .exprStmt,
    .returnStmt, .echoStmt, .ifStmt, .elseClause, .whileStmt, .doWhileStmt, .forStmt,
    .foreachStmt, .switchStmt, .switchCase, .tryStmt, .catchClause, .finallyClause, .jumpStmt,
    .globalStmt, .staticVarStmt, .declareStmt, .constStmt, .emptyStmt, .variableExpr, .literal,
    .arrayExpr, .arrayElement, .parenExpr, .newExpr, .anonClass, .callExpr, .argList, .arg,
    .memberAccessExpr, .staticAccessExpr, .memberNameExpr, .indexExpr, .assignExpr, .binaryExpr,
    .unaryExpr, .postfixExpr, .ternaryExpr, .closureExpr, .closureUse, .arrowFnExpr, .matchExpr,
    .matchArm, .error]

/-- The kind with a number, if there is one. -/
def ofNumber? (n : Nat) : Option Kind := all[n]?

/-- The written name of a kind. -/
def name : Kind → String
  | .whitespace => "WHITESPACE"
  | .lineComment => "LINE_COMMENT"
  | .blockComment => "BLOCK_COMMENT"
  | .docComment => "DOC_COMMENT"
  | .openTag => "OPEN_TAG"
  | .closeTag => "CLOSE_TAG"
  | .ident => "IDENT"
  | .qualifiedName => "QUALIFIED_NAME"
  | .variable => "VARIABLE"
  | .integer => "INTEGER"
  | .float => "FLOAT"
  | .string => "STRING"
  | .cast => "CAST"
  | .lBrace => "L_BRACE"
  | .rBrace => "R_BRACE"
  | .lBracket => "L_BRACKET"
  | .rBracket => "R_BRACKET"
  | .lParen => "L_PAREN"
  | .rParen => "R_PAREN"
  | .hashBracket => "HASH_BRACKET"
  | .semicolon => "SEMICOLON"
  | .comma => "COMMA"
  | .colon => "COLON"
  | .colonColon => "COLON_COLON"
  | .arrow => "ARROW"
  | .nullsafeArrow => "NULLSAFE_ARROW"
  | .fatArrow => "FAT_ARROW"
  | .backslash => "BACKSLASH"
  | .dollar => "DOLLAR"
  | .ellipsis => "ELLIPSIS"
  | .question => "QUESTION"
  | .questionQuestion => "QUESTION_QUESTION"
  | .atSign => "AT"
  | .eq => "EQ"
  | .eqEq => "EQ_EQ"
  | .eqEqEq => "EQ_EQ_EQ"
  | .bangEq => "BANG_EQ"
  | .bangEqEq => "BANG_EQ_EQ"
  | .lt => "LT"
  | .gt => "GT"
  | .ltEq => "LT_EQ"
  | .gtEq => "GT_EQ"
  | .spaceship => "SPACESHIP"
  | .plus => "PLUS"
  | .minus => "MINUS"
  | .star => "STAR"
  | .slash => "SLASH"
  | .percent => "PERCENT"
  | .starStar => "STAR_STAR"
  | .dot => "DOT"
  | .plusPlus => "PLUS_PLUS"
  | .minusMinus => "MINUS_MINUS"
  | .bang => "BANG"
  | .tilde => "TILDE"
  | .amp => "AMP"
  | .pipe => "PIPE"
  | .caret => "CARET"
  | .ampAmp => "AMP_AMP"
  | .pipePipe => "PIPE_PIPE"
  | .shl => "SHL"
  | .shr => "SHR"
  | .assignOp => "ASSIGN_OP"
  | .abstractKw => "ABSTRACT_KW"
  | .andKw => "AND_KW"
  | .arrayKw => "ARRAY_KW"
  | .asKw => "AS_KW"
  | .breakKw => "BREAK_KW"
  | .caseKw => "CASE_KW"
  | .catchKw => "CATCH_KW"
  | .classKw => "CLASS_KW"
  | .cloneKw => "CLONE_KW"
  | .constKw => "CONST_KW"
  | .continueKw => "CONTINUE_KW"
  | .declareKw => "DECLARE_KW"
  | .defaultKw => "DEFAULT_KW"
  | .doKw => "DO_KW"
  | .echoKw => "ECHO_KW"
  | .elseKw => "ELSE_KW"
  | .elseifKw => "ELSEIF_KW"
  | .enumKw => "ENUM_KW"
  | .extendsKw => "EXTENDS_KW"
  | .finalKw => "FINAL_KW"
  | .finallyKw => "FINALLY_KW"
  | .fnKw => "FN_KW"
  | .forKw => "FOR_KW"
  | .foreachKw => "FOREACH_KW"
  | .functionKw => "FUNCTION_KW"
  | .globalKw => "GLOBAL_KW"
  | .ifKw => "IF_KW"
  | .implementsKw => "IMPLEMENTS_KW"
  | .includeKw => "INCLUDE_KW"
  | .instanceofKw => "INSTANCEOF_KW"
  | .insteadofKw => "INSTEADOF_KW"
  | .interfaceKw => "INTERFACE_KW"
  | .matchKw => "MATCH_KW"
  | .namespaceKw => "NAMESPACE_KW"
  | .newKw => "NEW_KW"
  | .orKw => "OR_KW"
  | .printKw => "PRINT_KW"
  | .privateKw => "PRIVATE_KW"
  | .protectedKw => "PROTECTED_KW"
  | .publicKw => "PUBLIC_KW"
  | .readonlyKw => "READONLY_KW"
  | .returnKw => "RETURN_KW"
  | .staticKw => "STATIC_KW"
  | .switchKw => "SWITCH_KW"
  | .throwKw => "THROW_KW"
  | .traitKw => "TRAIT_KW"
  | .tryKw => "TRY_KW"
  | .useKw => "USE_KW"
  | .varKw => "VAR_KW"
  | .whileKw => "WHILE_KW"
  | .xorKw => "XOR_KW"
  | .yieldKw => "YIELD_KW"
  | .sourceFile => "SOURCE_FILE"
  | .namespaceDef => "NAMESPACE_DEF"
  | .useDecl => "USE_DECL"
  | .useClause => "USE_CLAUSE"
  | .useGroup => "USE_GROUP"
  | .nameRef => "NAME_REF"
  | .classDecl => "CLASS_DECL"
  | .interfaceDecl => "INTERFACE_DECL"
  | .traitDecl => "TRAIT_DECL"
  | .enumDecl => "ENUM_DECL"
  | .extendsClause => "EXTENDS_CLAUSE"
  | .implementsClause => "IMPLEMENTS_CLAUSE"
  | .classBody => "CLASS_BODY"
  | .attributeGroup => "ATTRIBUTE_GROUP"
  | .methodDecl => "METHOD_DECL"
  | .propertyDecl => "PROPERTY_DECL"
  | .propertyElement => "PROPERTY_ELEMENT"
  | .classConstDecl => "CLASS_CONST_DECL"
  | .constElement => "CONST_ELEMENT"
  | .traitUse => "TRAIT_USE"
  | .enumCase => "ENUM_CASE"
  | .functionDecl => "FUNCTION_DECL"
  | .paramList => "PARAM_LIST"
  | .param => "PARAM"
  | .type => "TYPE"
  | .returnType => "RETURN_TYPE"
  | .block => "BLOCK"
  | .exprStmt => "EXPR_STMT"
  | .returnStmt => "RETURN_STMT"
  | .echoStmt => "ECHO_STMT"
  | .ifStmt => "IF_STMT"
  | .elseClause => "ELSE_CLAUSE"
  | .whileStmt => "WHILE_STMT"
  | .doWhileStmt => "DO_WHILE_STMT"
  | .forStmt => "FOR_STMT"
  | .foreachStmt => "FOREACH_STMT"
  | .switchStmt => "SWITCH_STMT"
  | .switchCase => "SWITCH_CASE"
  | .tryStmt => "TRY_STMT"
  | .catchClause => "CATCH_CLAUSE"
  | .finallyClause => "FINALLY_CLAUSE"
  | .jumpStmt => "JUMP_STMT"
  | .globalStmt => "GLOBAL_STMT"
  | .staticVarStmt => "STATIC_VAR_STMT"
  | .declareStmt => "DECLARE_STMT"
  | .constStmt => "CONST_STMT"
  | .emptyStmt => "EMPTY_STMT"
  | .variableExpr => "VARIABLE_EXPR"
  | .literal => "LITERAL"
  | .arrayExpr => "ARRAY_EXPR"
  | .arrayElement => "ARRAY_ELEMENT"
  | .parenExpr => "PAREN_EXPR"
  | .newExpr => "NEW_EXPR"
  | .anonClass => "ANON_CLASS"
  | .callExpr => "CALL_EXPR"
  | .argList => "ARG_LIST"
  | .arg => "ARG"
  | .memberAccessExpr => "MEMBER_ACCESS_EXPR"
  | .staticAccessExpr => "STATIC_ACCESS_EXPR"
  | .memberNameExpr => "MEMBER_NAME_EXPR"
  | .indexExpr => "INDEX_EXPR"
  | .assignExpr => "ASSIGN_EXPR"
  | .binaryExpr => "BINARY_EXPR"
  | .unaryExpr => "UNARY_EXPR"
  | .postfixExpr => "POSTFIX_EXPR"
  | .ternaryExpr => "TERNARY_EXPR"
  | .closureExpr => "CLOSURE_EXPR"
  | .closureUse => "CLOSURE_USE"
  | .arrowFnExpr => "ARROW_FN_EXPR"
  | .matchExpr => "MATCH_EXPR"
  | .matchArm => "MATCH_ARM"
  | .error => "ERROR"

/-- Whether a kind lies between two others in the order of declaration, both included. -/
def between (first last k : Kind) : Bool := first.number ≤ k.number && k.number ≤ last.number

/-- White space, comments and the tags around code: tokens that the grammar does not see. -/
def isTrivia : Kind → Bool
  | whitespace | lineComment | blockComment | docComment | openTag | closeTag => true
  | _ => false

/-- The reserved words. -/
def isKeyword (k : Kind) : Bool := between abstractKw yieldKw k

/-- The punctuation tokens. -/
def isPunctuation (k : Kind) : Bool := between lBrace assignOp k

/-- The literal tokens. -/
def isLiteral : Kind → Bool
  | integer | float | string => true
  | _ => false

/-- The tokens that can spell the name of a member: reserved words are allowed there. -/
def isMemberName (k : Kind) : Bool := k == ident || k.isKeyword

/-- The declarations whose bodies declare members and that have a name. -/
def isClassLike : Kind → Bool
  | classDecl | interfaceDecl | traitDecl | enumDecl => true
  | _ => false

/-- The nodes that open a new scope of variables. -/
def isFunctionLike : Kind → Bool
  | functionDecl | methodDecl | closureExpr | arrowFnExpr => true
  | _ => false

/-- The expressions. A name counts as one. -/
def isExpression (k : Kind) : Bool :=
  k == nameRef ||
    (between variableExpr matchExpr k &&
      !(k == arrayElement || k == anonClass || k == argList || k == arg || k == memberNameExpr
        || k == closureUse))

end Kind

end PhpMembers
