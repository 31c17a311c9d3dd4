import PhpMembers.Syntax.Cursor

/-! # Names as they are written

A written name is the text of its tokens without the trivia between them: `Foo`, `App\Foo`, `\App\Foo`,
`self` or `namespace\Foo`.
-/

namespace PhpMembers

/-- Some words with a meaning of their own among the names of classes and types. -/
def selfWord : Text := ['s', 'e', 'l', 'f']

@[inherit_doc selfWord]
def staticWord : Text := ['s', 't', 'a', 't', 'i', 'c']

@[inherit_doc selfWord]
def parentWord : Text := ['p', 'a', 'r', 'e', 'n', 't']

@[inherit_doc selfWord]
def namespaceWord : Text := ['n', 'a', 'm', 'e', 's', 'p', 'a', 'c', 'e']

@[inherit_doc selfWord]
def nullWord : Text := ['n', 'u', 'l', 'l']

/-- The part of a path after its last separator. -/
def lastSegment (path : Text) : Text := (path.reverse.takeWhile (· != '\\')).reverse

namespace Cursor

/-- The text of a written name. -/
def nameText (c : Cursor) : Text :=
  (c.tokens.filter fun token => !token.kind.isTrivia).flatMap text

/-- The first written name among the parts. -/
def name? (c : Cursor) : Option Cursor := c.node? .nameRef

/-- The written names among the parts. -/
def names (c : Cursor) : List Cursor := c.nodesOf .nameRef

/-- Whether a written name begins with a separator. -/
def isFullyQualified (c : Cursor) : Bool := c.nameText.head? == some '\\'

/-- Whether a written name is `self`, `static` or `parent`, in any letter case. -/
def isRelativeClass (c : Cursor) : Bool :=
  [selfWord, staticWord, parentWord].any (sameIgnoringCase c.nameText)

end Cursor

end PhpMembers
