import PhpMembers.Syntax.Kind
import PhpMembers.Text.Lines

/-! # Tokens

A token is a piece of the source with a kind and the byte offset at which it starts. Reserved words are
recognised after the fact: they are names whose text, in any letter case, is in the table `keywords`.
-/

namespace PhpMembers

/-- A lexical token. -/
structure Token where
  /-- What the token is. -/
  kind : Kind
  /-- The characters it covers. -/
  text : Text
  /-- The offset of its first byte. -/
  start : Nat
deriving DecidableEq

namespace Token

/-- The offset after the last byte. -/
def stop (t : Token) : Nat := t.start + utf8Length t.text

/-- The range of bytes the token covers. -/
def span (t : Token) : Span := ⟨t.start, t.stop⟩

/-- Whether the grammar does not see the token. -/
def isTrivia (t : Token) : Bool := t.kind.isTrivia

end Token

/-- The reserved words, in lower case, with their kinds. -/
def keywords : List (Text × Kind) :=
  [(['a', 'b', 's', 't', 'r', 'a', 'c', 't'], .abstractKw),
    (['a', 'n', 'd'], .andKw),
    (['a', 'r', 'r', 'a', 'y'], .arrayKw),
    (['a', 's'], .asKw),
    (['b', 'r', 'e', 'a', 'k'], .breakKw),
    (['c', 'a', 's', 'e'], .caseKw),
    (['c', 'a', 't', 'c', 'h'], .catchKw),
    (['c', 'l', 'a', 's', 's'], .classKw),
    (['c', 'l', 'o', 'n', 'e'], .cloneKw),
    (['c', 'o', 'n', 's', 't'], .constKw),
    (['c', 'o', 'n', 't', 'i', 'n', 'u', 'e'], .continueKw),
    (['d', 'e', 'c', 'l', 'a', 'r', 'e'], .declareKw),
    (['d', 'e', 'f', 'a', 'u', 'l', 't'], .defaultKw),
    (['d', 'o'], .doKw),
    (['e', 'c', 'h', 'o'], .echoKw),
    (['e', 'l', 's', 'e'], .elseKw),
    (['e', 'l', 's', 'e', 'i', 'f'], .elseifKw),
    (['e', 'n', 'u', 'm'], .enumKw),
    (['e', 'x', 't', 'e', 'n', 'd', 's'], .extendsKw),
    (['f', 'i', 'n', 'a', 'l'], .finalKw),
    (['f', 'i', 'n', 'a', 'l', 'l', 'y'], .finallyKw),
    (['f', 'n'], .fnKw),
    (['f', 'o', 'r'], .forKw),
    (['f', 'o', 'r', 'e', 'a', 'c', 'h'], .foreachKw),
    (['f', 'u', 'n', 'c', 't', 'i', 'o', 'n'], .functionKw),
    (['g', 'l', 'o', 'b', 'a', 'l'], .globalKw),
    (['i', 'f'], .ifKw),
    (['i', 'm', 'p', 'l', 'e', 'm', 'e', 'n', 't', 's'], .implementsKw),
    (['i', 'n', 'c', 'l', 'u', 'd', 'e'], .includeKw),
    (['i', 'n', 'c', 'l', 'u', 'd', 'e', '_', 'o', 'n', 'c', 'e'], .includeKw),
    (['r', 'e', 'q', 'u', 'i', 'r', 'e'], .includeKw),
    (['r', 'e', 'q', 'u', 'i', 'r', 'e', '_', 'o', 'n', 'c', 'e'], .includeKw),
    (['i', 'n', 's', 't', 'a', 'n', 'c', 'e', 'o', 'f'], .instanceofKw),
    (['i', 'n', 's', 't', 'e', 'a', 'd', 'o', 'f'], .insteadofKw),
    (['i', 'n', 't', 'e', 'r', 'f', 'a', 'c', 'e'], .interfaceKw),
    (['m', 'a', 't', 'c', 'h'], .matchKw),
    (['n', 'a', 'm', 'e', 's', 'p', 'a', 'c', 'e'], .namespaceKw),
    (['n', 'e', 'w'], .newKw),
    (['o', 'r'], .orKw),
    (['p', 'r', 'i', 'n', 't'], .printKw),
    (['p', 'r', 'i', 'v', 'a', 't', 'e'], .privateKw),
    (['p', 'r', 'o', 't', 'e', 'c', 't', 'e', 'd'], .protectedKw),
    (['p', 'u', 'b', 'l', 'i', 'c'], .publicKw),
    (['r', 'e', 'a', 'd', 'o', 'n', 'l', 'y'], .readonlyKw),
    (['r', 'e', 't', 'u', 'r', 'n'], .returnKw),
    (['s', 't', 'a', 't', 'i', 'c'], .staticKw),
    (['s', 'w', 'i', 't', 'c', 'h'], .switchKw),
    (['t', 'h', 'r', 'o', 'w'], .throwKw),
    (['t', 'r', 'a', 'i', 't'], .traitKw),
    (['t', 'r', 'y'], .tryKw),
    (['u', 's', 'e'], .useKw),
    (['v', 'a', 'r'], .varKw),
    (['w', 'h', 'i', 'l', 'e'], .whileKw),
    (['x', 'o', 'r'], .xorKw),
    (['y', 'i', 'e', 'l', 'd'], .yieldKw)]

/-- The kind of a reserved word in any letter case, none for other texts. -/
def keyword? (word : Text) : Option Kind := keywords.lookup (lowerCase word)

end PhpMembers
