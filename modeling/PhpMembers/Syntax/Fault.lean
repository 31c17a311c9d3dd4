import PhpMembers.Syntax.Kind
import PhpMembers.Text.Lines

/-! # Syntax errors

A syntax error is a cause together with the place where it was noticed: the next token that is not trivia,
or the end of the text.
-/

namespace PhpMembers

/-- What is wrong with the syntax. -/
inductive Fault
  /-- A token of this kind is missing. -/
  | expected (kind : Kind)
  /-- The end of a statement is missing. -/
  | expectedSemicolon
  /-- A closing brace without an opening one. -/
  | unmatchedBrace
  /-- A token that starts no statement or member. -/
  | stuck (kind : Kind)
  /-- The name of an import is missing. -/
  | expectedImport
  /-- A token that does not belong into a group of imports. -/
  | unexpectedInUseGroup
  /-- The name after `as` is missing. -/
  | expectedAlias
  /-- A name is missing. -/
  | expectedName
  /-- A token that does not belong into an attribute group. -/
  | unexpectedInAttribute
  /-- The name of a class-like is missing. -/
  | expectedClassName
  /-- A token that starts no class member. -/
  | unexpectedInClassBody (kind : Kind)
  /-- The name of a method is missing. -/
  | expectedMethodName
  /-- The name of a constant is missing. -/
  | expectedConstantName
  /-- The name of an enum case is missing. -/
  | expectedCaseName
  /-- A parameter or argument is followed by neither a comma nor the end of the list. -/
  | expectedCommaOrParen
  /-- A group in braces is not closed. -/
  | unterminatedBlock
  /-- A token that does not belong into a directive. -/
  | unexpectedInDeclare
  /-- A token that starts no statement of a switch. -/
  | unexpectedInSwitch
  /-- The name of a member is missing. -/
  | expectedMemberName
  /-- An expression is missing. -/
  | expectedExpression
  /-- A token that starts no expression. -/
  | unexpectedInExpression (kind : Kind)
  /-- A variable is missing. -/
  | expectedVariable
  /-- An array element is followed by neither a comma nor the end of the array. -/
  | expectedCommaInArray
  /-- The class of a new object is missing. -/
  | expectedNewClass
  /-- An arm of a match is followed by neither a comma nor the end of the match. -/
  | expectedCommaInMatch
deriving DecidableEq

/-- The report for a reader. -/
def Fault.message : Fault → String
  | .expected kind => "expected " ++ kind.name
  | .expectedSemicolon => "expected ';'"
  | .unmatchedBrace => "unmatched '\x7d'"
  | .stuck kind => "stuck on token: " ++ kind.name
  | .expectedImport => "expected imported name"
  | .unexpectedInUseGroup => "unexpected token in use group"
  | .expectedAlias => "expected alias name"
  | .expectedName => "expected name"
  | .unexpectedInAttribute => "unexpected token in attribute"
  | .expectedClassName => "expected class name"
  | .unexpectedInClassBody kind => "unexpected token in class body: " ++ kind.name
  | .expectedMethodName => "expected method name"
  | .expectedConstantName => "expected constant name"
  | .expectedCaseName => "expected case name"
  | .expectedCommaOrParen => "expected ',' or ')'"
  | .unterminatedBlock => "unterminated block"
  | .unexpectedInDeclare => "unexpected token in declare"
  | .unexpectedInSwitch => "unexpected token in switch"
  | .expectedMemberName => "expected member name"
  | .expectedExpression => "expected expression"
  | .unexpectedInExpression kind => "unexpected token in expression: " ++ kind.name
  | .expectedVariable => "expected variable"
  | .expectedCommaInArray => "expected ',' in array"
  | .expectedNewClass => "expected class name after 'new'"
  | .expectedCommaInMatch => "expected ',' in match"

/-- A fault at its place. -/
structure SyntaxError where
  /-- The cause. -/
  fault : Fault
  /-- The token at which it was noticed, or an empty range at the end of the text. -/
  span : Span
deriving DecidableEq

/-- The report with the place. -/
def SyntaxError.display (e : SyntaxError) : String :=
  e.fault.message ++ " at " ++ toString e.span.start ++ ".." ++ toString e.span.stop

end PhpMembers
