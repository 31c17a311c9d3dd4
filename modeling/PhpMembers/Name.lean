import PhpMembers.Text.Blank
import PhpMembers.Text.Identifier

/-! # Names of classes and members

A class name is a path of identifiers separated by `\`, kept without a leading separator. A member name is
one identifier, kept without the `$` that a property carries at its declaration.

* `ClassName.parse`, `MemberName.parse` : names from a user's text, or the reason why the text is no name.
* `ClassName.ofSyntax`, `MemberName.ofSyntax` : names from text that the lexer has already found to be one.
* `MemberKind.namesMatch` : when two names of one kind denote the same member.
-/

namespace PhpMembers

/-- Why a text is not a name. -/
inductive NameError
  /-- Nothing is left of the text. -/
  | empty
  /-- A segment of the text is not an identifier; the text is kept as it was given. -/
  | invalidSegment (name segment : Text)
deriving DecidableEq

/-- The report for a reader. -/
def NameError.message : NameError → String
  | .empty => "Name cannot be empty"
  | .invalidSegment name segment =>
    "Invalid name segment `" ++ String.ofList segment ++ "` in `" ++ String.ofList name ++ "`"

/-- The fully qualified name of a class, interface, trait or enum. -/
structure ClassName where
  /-- The path, its segments separated by `\`, without a leading separator. -/
  text : Text
deriving DecidableEq, Inhabited

namespace ClassName

/-- Read a class name. White space around it and leading separators do not belong to it. -/
def parse (name : Text) : Except NameError ClassName :=
  let body := (trimBlank name).dropWhile (· == '\\')
  if body = [] then .error .empty
  else
    match (body.splitOn '\\').find? fun segment => !isIdentifier segment with
    | some segment => .error (.invalidSegment name segment)
    | none => .ok ⟨body⟩

/-- The name spelled by a token of the source. -/
def ofSyntax (text : Text) : ClassName := ⟨dropLeading '\\' text⟩

/-- The last segment. -/
def short (name : ClassName) : Text :=
  (name.text.reverse.takeWhile (· != '\\')).reverse

/-- The segments before the last one, if there are any. -/
def namespace? (name : ClassName) : Option Text :=
  match name.text.reverse.dropWhile (· != '\\') with
  | [] => none
  | _ :: path => some path.reverse

/-- The name of `relative` inside the namespace of this name. -/
def join (name : ClassName) (relative : Text) : ClassName :=
  ⟨name.text ++ '\\' :: dropLeading '\\' relative⟩

/-- Whether two names denote the same class: letter case does not matter in class names. -/
def same (a b : ClassName) : Bool := sameIgnoringCase a.text b.text

end ClassName

/-- The name of a method, a property or a class constant. -/
structure MemberName where
  /-- The identifier, without a leading `$`. -/
  text : Text
deriving DecidableEq, Inhabited

namespace MemberName

/-- Read a member name. White space around it and leading `$` do not belong to it. -/
def parse (name : Text) : Except NameError MemberName :=
  let body := (trimBlank name).dropWhile (· == '$')
  if body = [] then .error .empty
  else if isIdentifier body then .ok ⟨body⟩
  else .error (.invalidSegment name body)

/-- The name spelled by a token of the source. -/
def ofSyntax (text : Text) : MemberName := ⟨dropLeading '$' text⟩

end MemberName

/-- The kinds of class member. An enum case is a constant. -/
inductive MemberKind
  /-- A function of the class. -/
  | method
  /-- A variable of the class or of its objects. -/
  | property
  /-- A constant of the class. -/
  | constant
deriving DecidableEq, Inhabited

namespace MemberKind

/-- The three kinds. -/
def all : List MemberKind := [.method, .property, .constant]

/-- The word for a kind. -/
def display : MemberKind → String
  | .method => "method"
  | .property => "property"
  | .constant => "constant"

/-- Whether two names of this kind denote the same member: letter case matters for all but methods. -/
def namesMatch : MemberKind → Text → Text → Bool
  | .method, a, b => sameIgnoringCase a b
  | .property, a, b => a == b
  | .constant, a, b => a == b

end MemberKind

end PhpMembers
