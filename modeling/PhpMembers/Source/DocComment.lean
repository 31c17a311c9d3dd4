import PhpMembers.Syntax.Cursor

/-! # Documentation comments

A declaration is documented by the comment `/** ... */` in front of it. White space, other comments and
attributes may stand between the two. The documentation is the text of the comment line by line, without
the asterisks at the line starts and without blank lines. A line that begins with a tag such as `@var`
names a type, and after it possibly the variable that has this type.

* `documentation` : the text of a documentation comment.
* `Cursor.documentation?` : the documentation of a node.
* `taggedType?` : the type that a tag names.
-/

namespace PhpMembers

/-- One line of documentation, without blanks around it and without its leading asterisk. -/
def documentationLine (line : Text) : Text :=
  match trimBlank line with
  | '*' :: rest => trimBlankStart rest
  | rest => rest

/-- The documentation in the text of a comment, its lines joined by line feeds. -/
def documentation (comment : Text) : Text :=
  let body := (comment.drop 3).take (comment.length - 5)
  let lines := ((textLines body).map documentationLine).filter (· ≠ [])
  ['\n'].intercalate lines

/-- The documentation among the parts to the left of a node, nearest first. A comment without any text
documents nothing. -/
def documentationAmong? : List Tree → Option Text
  | .leaf .docComment comment :: _ =>
    let text := documentation comment
    if text = [] then none else some text
  | .leaf .whitespace _ :: rest => documentationAmong? rest
  | .leaf .lineComment _ :: rest => documentationAmong? rest
  | .leaf .blockComment _ :: rest => documentationAmong? rest
  | .node .attributeGroup _ :: rest => documentationAmong? rest
  | _ => none

/-- The documentation of the node at the cursor. -/
def Cursor.documentation? (c : Cursor) : Option Text := documentationAmong? c.left

/-- The type that one line names after the tag, unless it names a variable other than the wanted one. -/
def taggedTypeInLine? (tag : Text) (wanted : Option Text) (line : Text) : Option Text :=
  let body := trimBlank line
  if tag.isPrefixOf body then
    match body.drop tag.length with
    | c :: rest =>
      if isBlank c then
        match blankWords rest with
        | [] => none
        | type :: further =>
          match wanted, further with
          | some wantedName, ('$' :: name) :: _ =>
            if dropLeading '$' name = dropLeading '$' wantedName then some type else none
          | _, _ => some type
      else none
    | [] => none
  else none

/-- The type that the first suitable line with the tag names. With a wanted variable, lines that name
another one are not suitable. -/
def taggedType? (doc tag : Text) (wanted : Option Text) : Option Text :=
  (textLines doc).findSome? (taggedTypeInLine? tag wanted)

end PhpMembers
