import PhpMembers.Source.DocComment
import PhpMembers.Source.Namespace

/-! # Static types

What is known about a value before the program runs: nothing, that it is of a built-in type, or that it is
an object of a class. Declared types are read from type hints and from documentation. A type with several
alternatives besides `null` is unknown.

* `StaticType` : the types.
* `DeclaredType.ofHint`, `DeclaredType.ofText` : the type that a hint or a documentation text declares.
* `declaredType` : the type of a declaration, by its hint or else by its documentation.
-/

namespace PhpMembers

/-- What is known about a value. -/
inductive StaticType
  /-- Nothing. -/
  | unknown
  /-- It is of a built-in type, whose name is kept in lower case. -/
  | primitive (name : Text)
  /-- It is an object of a class-like. -/
  | object (name : ClassName)
deriving DecidableEq, Inhabited

namespace StaticType

/-- A built-in type. -/
def builtin (name : Text) : StaticType := primitive (lowerCase name)

/-- An object of the class, or nothing known. -/
def ofClass? : Option ClassName → StaticType
  | some name => object name
  | none => unknown

/-- The class of the object. -/
def class? : StaticType → Option ClassName
  | object name => some name
  | _ => none

/-- Whether nothing is known. -/
def isUnknown : StaticType → Bool
  | unknown => true
  | _ => false

/-- The usual form for readers. -/
def display : StaticType → Text
  | unknown => ['<', 'u', 'n', 'k', 'n', 'o', 'w', 'n', '>']
  | primitive name => name
  | object name => name.text

end StaticType

/-- The names of built-in types; none of them names a class. -/
def primitiveNames : List Text :=
  [['i', 'n', 't'],
    ['i', 'n', 't', 'e', 'g', 'e', 'r'],
    ['f', 'l', 'o', 'a', 't'],
    ['d', 'o', 'u', 'b', 'l', 'e'],
    ['s', 't', 'r', 'i', 'n', 'g'],
    ['b', 'o', 'o', 'l'],
    ['b', 'o', 'o', 'l', 'e', 'a', 'n'],
    ['a', 'r', 'r', 'a', 'y'],
    ['i', 't', 'e', 'r', 'a', 'b', 'l', 'e'],
    ['c', 'a', 'l', 'l', 'a', 'b', 'l', 'e'],
    ['o', 'b', 'j', 'e', 'c', 't'],
    ['m', 'i', 'x', 'e', 'd'],
    ['v', 'o', 'i', 'd'],
    ['n', 'e', 'v', 'e', 'r'],
    ['n', 'u', 'l', 'l'],
    ['f', 'a', 'l', 's', 'e'],
    ['t', 'r', 'u', 'e'],
    ['r', 'e', 's', 'o', 'u', 'r', 'c', 'e'],
    ['l', 'i', 's', 't'],
    ['c', 'l', 'a', 's', 's', '-', 's', 't', 'r', 'i', 'n', 'g'],
    ['n', 'o', 'n', '-', 'e', 'm', 'p', 't', 'y', '-', 's', 't', 'r', 'i', 'n', 'g'],
    ['p', 'o', 's', 'i', 't', 'i', 'v', 'e', '-', 'i', 'n', 't'],
    ['s', 'c', 'a', 'l', 'a', 'r'],
    ['n', 'u', 'm', 'e', 'r', 'i', 'c']]

/-- Whether a text is the name of a built-in type, in any letter case. -/
def isPrimitive (name : Text) : Bool := primitiveNames.contains (lowerCase name)

/-- A declared type. -/
structure DeclaredType where
  /-- The type itself. -/
  type : StaticType
  /-- Whether it stands for the class on which a member is accessed. -/
  lateStatic : Bool
deriving DecidableEq, Inhabited

namespace DeclaredType

/-- No known type. -/
def unknown : DeclaredType := ⟨.unknown, false⟩

/-- A type that does not depend on the access. -/
def fixed (type : StaticType) : DeclaredType := ⟨type, false⟩

/-- The type that a hint declares. -/
def ofHint (regions : Regions) (hint : Cursor) : DeclaredType :=
  match hint.names.filter fun name => !sameIgnoringCase name.nameText nullWord with
  | [name] =>
    let text := name.nameText
    if sameIgnoringCase text staticWord then ⟨.ofClass? (regions.resolveName? name), true⟩
    else if isPrimitive text then fixed (.builtin text)
    else fixed (.ofClass? (regions.resolveName? name))
  | _ => unknown

/-- The type that a documentation text declares. Names are looked up at the offset, and `self`, `static`
and `$this` stand for the given class. Arguments in angle brackets do not matter. -/
def ofText (regions : Regions) (text : Text) (offset : Nat) (owner : Option ClassName) :
    DeclaredType :=
  let alternatives := ((dropLeading '?' text).splitOn '|').map trimBlank
  match alternatives.filter fun part => part ≠ [] && !sameIgnoringCase part nullWord with
  | [part] =>
    let base := part.takeWhile (· != '<')
    if ['[', ']'].isSuffixOf part then fixed (.builtin ['a', 'r', 'r', 'a', 'y'])
    else if sameIgnoringCase base staticWord || base == '$' :: ['t', 'h', 'i', 's'] then
      ⟨.ofClass? owner, true⟩
    else if sameIgnoringCase base selfWord then fixed (.ofClass? owner)
    else if isPrimitive base then fixed (.builtin base)
    else
      match ClassName.parse base with
      | .ok _ => fixed (.object (regions.resolve base offset))
      | .error _ => unknown
  | _ => unknown

end DeclaredType

/-- The type that the documentation of a node declares with a tag. -/
def documentedType (regions : Regions) (node : Cursor) (tag : Text) (wanted : Option Text)
    (owner : Option ClassName) : DeclaredType :=
  match node.documentation?.bind fun doc => taggedType? doc tag wanted with
  | some text => .ofText regions text node.start owner
  | none => .unknown

/-- The type of a declaration: what the hint says, or else what the documentation says. -/
def declaredType (regions : Regions) (hint : Option Cursor) (node : Cursor) (tag : Text)
    (wanted : Option Text) (owner : Option ClassName) : DeclaredType :=
  let hinted := (hint.map (DeclaredType.ofHint regions)).getD .unknown
  if hinted.type.isUnknown then documentedType regions node tag wanted owner else hinted

/-- The tag for the type of a variable or property. -/
def varTag : Text := ['@', 'v', 'a', 'r']

/-- The tag for the type of a parameter. -/
def paramTag : Text := ['@', 'p', 'a', 'r', 'a', 'm']

/-- The tag for the type of a result. -/
def returnTag : Text := ['@', 'r', 'e', 't', 'u', 'r', 'n']

end PhpMembers
