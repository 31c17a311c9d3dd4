import PhpMembers.Source.Expression
import PhpMembers.Typing.StaticType

/-! # Where a variable gets its value

A variable belongs to the function around it or, outside of functions, to the file. What it holds where it
is used is told by the last thing before that place that binds it: a plain assignment that ends there, a
handler that starts there, or documentation of the form `/** @var Type $name */` in front of a statement.
If nothing binds it, it is a parameter of the function. An arrow function also sees the variables around
it, and a closure those that it lists.

* `Cursor.scopes` : the scopes around a place.
* `Binding` : the things that bind a variable; `latestBinding?` : the one in effect within one scope.
* `Resolution`, `Cursor.resolveVariable?` : the binding in effect at a place, through all scopes that can
  be seen.
-/

namespace PhpMembers

/-- What gives a variable its value. -/
inductive Binding
  /-- An assignment to it. -/
  | assignment (node : Cursor)
  /-- A `catch` clause that stores the caught object in it. -/
  | handler (clause : Cursor)
  /-- Documentation that names its type; names in the type are looked up at the offset. -/
  | documented (type : Text) (offset : Nat)
  /-- A parameter of a function. -/
  | parameter (function param : Cursor)

/-- Whether nodes of this kind have variables of their own or hide those around them. -/
def Kind.opensScope : Kind → Bool
  | .functionDecl | .methodDecl | .closureExpr | .arrowFnExpr => true
  | .classDecl | .interfaceDecl | .traitDecl | .enumDecl | .anonClass => true
  | _ => false

/-- Whether a text occurs within another one. -/
def occursIn (part : Text) : Text → Bool
  | [] => part == []
  | c :: rest => part.isPrefixOf (c :: rest) || occursIn part rest

namespace Cursor

/-- The scopes around the cursor from the inside to the outside: the functions and at last the whole
tree. -/
def scopes : Cursor → List Cursor
  | root tree => [root tree]
  | child parent left tree right start stop =>
    if tree.kind.isFunctionLike then
      child parent left tree right start stop :: parent.scopes
    else parent.scopes

/-- Everything that belongs to a scope itself, and not to a function or class inside of it. -/
def withinScope (scope : Cursor) : List Cursor := scope.elementsWithin fun kind => !kind.opensScope

/-- The parameter of a function that declares a variable. -/
def paramNamed? (function : Cursor) (name : Text) : Option Cursor :=
  function.params.find? fun param => param.plainVariable? == some name

/-- Whether a function sees a variable of the scope around it. -/
def inherits (function : Cursor) (name : Text) : Bool :=
  match function.kind with
  | .arrowFnExpr => true
  | .closureExpr => function.usedVariables.contains name
  | _ => false

/-- The type that a comment gives to a variable: it stands in front of a statement that assigns to the
variable, or mentions the variable itself. -/
def documentedVariable? (comment : Cursor) (name : Text) : Option (Cursor × Text) :=
  match comment.following.find? fun c => !c.isLeaf with
  | none => none
  | some statement =>
    match statement.documentation? with
    | none => none
    | some doc =>
      let assigned :=
        match statement.firstExpression? with
        | some expression => expression.assignsTo name
        | none => false
      if occursIn ('$' :: name) doc || assigned then
        (taggedType? doc varTag (some name)).map fun type => (statement, type)
      else none

/-- What an assignment or handler binds at which offset, if that is not behind the given one. -/
def nodeBinding? (c : Cursor) (name : Text) (offset : Nat) : Option (Nat × Binding) :=
  match c.kind with
  | .assignExpr =>
    if c.assignsTo name && c.isPlainAssignment && c.stop ≤ offset then
      some (c.stop, .assignment c)
    else none
  | .catchClause =>
    if c.plainVariable? == some name && c.start ≤ offset then some (c.start, .handler c) else none
  | _ => none

/-- What a documentation comment binds at which offset: at the end of the statement that it describes, or
at its own end inside of that statement. -/
def commentBinding? (c : Cursor) (name : Text) (offset : Nat) : Option (Nat × Binding) :=
  if c.isLeaf && c.kind == .docComment && c.stop ≤ offset then
    (c.documentedVariable? name).map fun found =>
      (if found.1.stop ≤ offset then found.1.stop else c.stop, .documented found.2 c.start)
  else none

end Cursor

/-- The element with the greatest number, and the last such one if there are several. -/
def lastGreatest? {α : Type} : List (Nat × α) → Option (Nat × α)
  | [] => none
  | x :: rest =>
    match lastGreatest? rest with
    | some y => if x.1 ≤ y.1 then some y else some x
    | none => some x

/-- All that binds a variable in a scope up to an offset: assignments and handlers from left to right, then
comments from left to right. -/
def bindings (scope : Cursor) (name : Text) (offset : Nat) : List (Nat × Binding) :=
  let parts := scope.withinScope
  parts.filterMap (·.nodeBinding? name offset) ++ parts.filterMap (·.commentBinding? name offset)

/-- The binding of a variable that is in effect at an offset of a scope. Where two are at the same place, a
comment wins. -/
def latestBinding? (scope : Cursor) (name : Text) (offset : Nat) : Option Binding :=
  (lastGreatest? (bindings scope name offset)).map (·.2)

/-- The binding that a variable has at a place. -/
structure Resolution where
  /-- The binding. -/
  binding : Binding
  /-- A node from which the binding is seen in its own scope. -/
  viewer : Cursor
  /-- How many functions lie between the place and that scope. -/
  crossed : Nat

/-- Look a variable up in scopes from the inside to the outside, where `viewer` lies in the first one. -/
def bindingAmong? (name : Text) : List Cursor → Cursor → Nat → Nat → Option Resolution
  | [], _, _, _ => none
  | scope :: outer, viewer, offset, crossed =>
    match latestBinding? scope name offset with
    | some binding => some ⟨binding, viewer, crossed⟩
    | none =>
      if !scope.kind.isFunctionLike then none
      else
        match scope.paramNamed? name with
        | some param => some ⟨.parameter scope param, viewer, crossed⟩
        | none =>
          match scope.parent? with
          | some parent =>
            if scope.inherits name then bindingAmong? name outer parent scope.start (crossed + 1)
            else none
          | none => none

/-- The binding that a variable has where it is used. -/
def Cursor.resolveVariable? (use : Cursor) (name : Text) : Option Resolution :=
  bindingAmong? name use.scopes use use.start 0

end PhpMembers
