import PhpMembers.Classes.Snapshot
import PhpMembers.Typing.Binding

/-! # The types of expressions

The type of an expression follows from its form, from the bindings of variables and from the declared types
of members. Each step from an expression to another one uses up one level, and when no level is left the
type is unknown.

* `Typing` : what the types of the expressions of a file depend on.
* `Typing.memberType` : the type of a member of a receiver.
* `Typing.typeBy` : the type of an expression by its form, given those of other expressions.
* `Typing.typeOf` : the type of an expression.
* `Cursor.expressionEndingAt?`, `Typing.typeAt` : the expression that ends at an offset, and its type.
-/

namespace PhpMembers

/-- What the types of the expressions of a file depend on. -/
structure Typing where
  /-- The regions of the file. -/
  regions : Regions
  /-- What is known about classes. -/
  snapshot? : ClassName → Option Snapshot

namespace Typing

/-- The type of a member that is accessed on a receiver. -/
def memberType (t : Typing) (receiver : StaticType) (kind : MemberKind) (name : Text) : StaticType :=
  match receiver.class? with
  | none => .unknown
  | some owner =>
    match (t.snapshot? owner).bind fun c => c.member? (some kind) name with
    | some member => if member.lateStatic then .object owner else member.type
    | none => .unknown

/-- The type of what stands before a double colon; only a written name is understood. -/
def qualifierType (t : Typing) (access : Cursor) : StaticType :=
  match access.firstExpression? with
  | some qualifier =>
    if qualifier.kind == .nameRef then .ofClass? (t.regions.resolveName? qualifier) else .unknown
  | none => .unknown

/-- The type of a static access that is not called. -/
def staticAccessType (t : Typing) (access : Cursor) : StaticType :=
  match access.staticName? with
  | none => .unknown
  | some token =>
    match token.kind with
    | .classKw => .primitive ['s', 't', 'r', 'i', 'n', 'g']
    | .variable => t.memberType (t.qualifierType access) .property token.text
    | _ => t.memberType (t.qualifierType access) .constant token.text

/-- The type of a parameter: what it declares itself, or else what the documentation of its function
says. -/
def paramType (t : Typing) (function param : Cursor) : StaticType :=
  let owner := t.regions.enclosingClass? function
  let declared := (declaredType t.regions param.typeHint? param paramTag none owner).type
  if declared.isUnknown then
    let written := param.variableToken?.map Cursor.text
    (documentedType t.regions function paramTag written owner).type
  else declared

/-- The type of a constant that is written as a plain name. -/
def constantType (name : Text) : StaticType :=
  let word := lowerCase name
  if word = ['t', 'r', 'u', 'e'] ∨ word = ['f', 'a', 'l', 's', 'e'] then
    .primitive ['b', 'o', 'o', 'l']
  else if word = nullWord then .primitive nullWord
  else .unknown

/-- The class of all functions that are values. -/
def closureClass : ClassName := ⟨['C', 'l', 'o', 's', 'u', 'r', 'e']⟩

/-- The type of an expression by its form. What it takes from other expressions is given: `part` is the type of an
expression that stands in it, and `bound` the type of an assignment that is seen through a number of functions. -/
def typeBy (t : Typing) (part : Cursor → StaticType) (bound : Nat → Cursor → StaticType) (e : Cursor) : StaticType :=
  let typeOfPart (inner : Option Cursor) : StaticType := (inner.map part).getD .unknown
  match e.kind with
  | .variableExpr =>
    match e.plainVariable? with
    | none => .unknown
    | some name =>
      if name = thisWord then .ofClass? (t.regions.enclosingClass? e)
      else
        match e.resolveVariable? name with
        | none => .unknown
        | some found =>
          match found.binding with
          | .assignment node => bound found.crossed node
          | .handler clause =>
            match clause.typeHint? with
            | some hint => (DeclaredType.ofHint t.regions hint).type
            | none => .unknown
          | .documented type offset =>
            (DeclaredType.ofText t.regions type offset (t.regions.enclosingClass? found.viewer)).type
          | .parameter function param => t.paramType function param
  | .newExpr => .ofClass? (e.name?.bind t.regions.resolveName?)
  | .parenExpr => typeOfPart e.firstExpression?
  | .assignExpr => if e.isPlainAssignment then typeOfPart e.assigned? else .unknown
  | .literal => .primitive e.literalType
  | .arrayExpr => .primitive ['a', 'r', 'r', 'a', 'y']
  | .nameRef => constantType e.nameText
  | .closureExpr => .object closureClass
  | .arrowFnExpr => .object closureClass
  | .callExpr =>
    match e.firstExpression? with
    | none => .unknown
    | some callee =>
      match callee.kind with
      | .memberAccessExpr =>
        match callee.instanceName? with
        | some token => t.memberType (typeOfPart callee.firstExpression?) .method token.text
        | none => .unknown
      | .staticAccessExpr =>
        match callee.staticName? with
        | some token => t.memberType (t.qualifierType callee) .method token.text
        | none => .unknown
      | _ => .unknown
  | .memberAccessExpr =>
    match e.instanceName? with
    | some token => t.memberType (typeOfPart e.firstExpression?) .property token.text
    | none => .unknown
  | .staticAccessExpr => t.staticAccessType e
  | .unaryExpr => if e.hasToken .cloneKw then typeOfPart e.firstExpression? else .unknown
  | _ => .unknown

/-- The type of an expression, found within a number of levels. -/
def typeOf (t : Typing) : Nat → Cursor → StaticType
  | 0, _ => .unknown
  | levels + 1, e => t.typeBy (t.typeOf levels) (fun crossed => t.typeOf (levels - crossed)) e
termination_by levels => levels

end Typing

/-- The outermost expression that ends at an offset. -/
def Cursor.expressionEndingAt? (c : Cursor) (offset : Nat) : Option Cursor :=
  match c.leafEndingAt? offset with
  | none => none
  | some leaf =>
    let ending := leaf.ancestors.tail.takeWhile (·.stop == offset)
    (ending.filter (·.kind.isExpression)).getLast?

/-- The number of levels within which types are looked for. -/
def typingLevels : Nat := 33

/-- The type of the outermost expression that ends at an offset. -/
def Typing.typeAt (t : Typing) (file : Cursor) (offset : Nat) : StaticType :=
  match file.expressionEndingAt? offset with
  | some expression => t.typeOf typingLevels expression
  | none => .unknown

end PhpMembers
