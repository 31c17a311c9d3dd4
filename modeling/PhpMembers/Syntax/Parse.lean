import PhpMembers.Syntax.Grammar.Expression
import PhpMembers.Syntax.Grammar.Statement
import PhpMembers.Syntax.Scan

/-! # Parsing a source file

Every text has a syntax tree; what does not follow the grammar is kept in error nodes and reported.

* `Rule.production` : the production of every rule.
* `Parse.ofTokens`, `Parse.ofText` : the tree and the errors of a source file.
-/

namespace PhpMembers

/-- What a rule reads. -/
def Rule.production : Rule → Grammar
  | .statement => Grammar.anyStatement
  | .block => Grammar.block
  | .expression power => Grammar.operatorChain power
  | .unary => Grammar.unary
  | .postfixed => Grammar.postfixed
  | .primary => Grammar.primary
  | .variable => Grammar.variableReference
  | .argList => Grammar.argList
  | .new => Grammar.new
  | .anonClass => Grammar.anonClass
  | .closure => Grammar.closure
  | .arrowFn => Grammar.arrowFn
  | .choice => Grammar.choice
  | .attributeGroup => Grammar.attributeGroup
  | .classLike => Grammar.classLike
  | .classBody => Grammar.classBody
  | .classMember => Grammar.classMember
  | .functionDecl => Grammar.functionDecl
  | .paramList => Grammar.paramList
  | .param => Grammar.param
  | .type => Grammar.declaredType
  | .typeAtom => Grammar.typeAtom
  | .namespaceDef => Grammar.namespaceDef
  | .useDecl => Grammar.useDecl
  | .braced => Grammar.braced

/-- Follow a rule, with at most `depth` rules open at once. -/
def Rule.follow : Nat → Rule → Parsing → Bool × Parsing
  | 0, _, s => (false, s)
  | depth + 1, rule, s => rule.production.run (follow depth) s

/-- A bound on how many rules are open at once: between two tokens only few rules can be opened. -/
def ruleDepth (tokens : Nat) : Nat := 32 * (tokens + 1)

/-- The outcome of parsing a file. -/
structure Parse where
  /-- The syntax tree; its root has kind `Kind.sourceFile`. -/
  tree : Tree
  /-- The errors in the order in which they were noticed. -/
  errors : List SyntaxError

namespace Parse

/-- Parse a list of tokens. -/
def ofTokens (tokens : List Token) : Parse :=
  let start := Parsing.ofTokens tokens
  let done := (Grammar.sourceFile.run (Rule.follow (ruleDepth start.ahead.length)) start).2.flush
  { tree := .node .sourceFile done.built.reverse
    errors := done.errors.reverse }

/-- Parse the text of a file. -/
def ofText (source : Text) : Parse := ofTokens (tokenize source)

/-- Whether there are no errors. -/
def isClean (p : Parse) : Bool := p.errors.isEmpty

end Parse

end PhpMembers
