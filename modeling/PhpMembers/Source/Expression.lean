import PhpMembers.Source.Written

/-! # The parts of expressions -/

namespace PhpMembers

/-- The text of a variable token without its sigil. -/
def variableName (token : Text) : Text := dropLeading '$' token

/-- The variable that stands for the current object. -/
def thisWord : Text := ['t', 'h', 'i', 's']

namespace Cursor

/-- The expressions among the parts. -/
def expressions (c : Cursor) : List Cursor := c.nodes.filter (·.kind.isExpression)

/-- The first expression among the parts: what is accessed, called, assigned to or parenthesized. -/
def firstExpression? (c : Cursor) : Option Cursor := c.nodes.find? (·.kind.isExpression)

/-- The name of a variable, without its sigil; a computed variable has none. -/
def plainVariable? (c : Cursor) : Option Text :=
  (c.token? .variable).map fun token => variableName token.text

/-- Whether the cursor is at the variable with the given name. -/
def isVariable (c : Cursor) (name : Text) : Bool :=
  c.kind == .variableExpr && c.plainVariable? == some name

/-- The name of the type of a literal. -/
def literalType (c : Cursor) : Text :=
  match (c.tokens.find? (·.kind.isLiteral)).map kind with
  | some .integer => ['i', 'n', 't']
  | some .float => ['f', 'l', 'o', 'a', 't']
  | _ => ['s', 't', 'r', 'i', 'n', 'g']

/-- The name after the arrow of an access; a computed one is none. -/
def instanceName? (c : Cursor) : Option Cursor :=
  (c.tokens.dropWhile fun t => !(t.kind == .arrow || t.kind == .nullsafeArrow)).find? fun t =>
    t.kind == .ident

/-- The name after the double colon of an access; a computed one is none. -/
def staticName? (c : Cursor) : Option Cursor :=
  (c.tokens.dropWhile fun t => t.kind != .colonColon).find? fun t =>
    t.kind == .ident || t.kind == .variable || t.kind == .classKw

/-- Whether an access names the class itself, as in `Foo::class`. -/
def isClassConstant (c : Cursor) : Bool :=
  match c.staticName? with
  | some token => token.kind == .classKw
  | none => false

/-- Whether an assignment is a plain `=`. -/
def isPlainAssignment (c : Cursor) : Bool := c.hasToken .eq

/-- The assigned value: the second expression. -/
def assigned? (c : Cursor) : Option Cursor := c.expressions[1]?

/-- Whether an expression is an assignment to the variable with the given name. -/
def assignsTo (c : Cursor) (name : Text) : Bool :=
  c.kind == .assignExpr &&
    match c.firstExpression? with
    | some target => target.isVariable name
    | none => false

/-- The variables that a closure takes from around it. -/
def usedVariables (c : Cursor) : List Text :=
  match c.node? .closureUse with
  | some clause => (clause.nodesOf .variableExpr).filterMap plainVariable?
  | none => []

/-- Whether the node is what a call calls: the first node among the parts of the call. -/
def isCallee (c : Cursor) : Bool :=
  match c.parent? with
  | some parent => parent.kind == .callExpr && c.left.all Tree.isLeaf
  | none => false

end Cursor

end PhpMembers
