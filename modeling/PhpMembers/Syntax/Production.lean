import PhpMembers.Syntax.Fault
import PhpMembers.Syntax.Tree

/-! # Productions

The grammar is written as data: a `Production` says how to read one construct, and one interpreter,
`Production.run`, executes every production. What holds of each kind of step holds of the whole grammar.

The grammar never sees trivia. A production looks at the tokens ahead that are not trivia; the trivia in
front of the next one becomes part of the tree when that token is taken or a construct is opened, and then
belongs to the construct around it. So no construct begins with white space or a comment.

A production answers `true` or `false`; what the answer means is up to its user. It never fails: an error
is recorded and reading goes on.

* `Parsing` : what is left to read and what has been built.
* `Lookahead` : the conditions a production can test.
* `Production`, `Production.run` : the steps and their execution. The type `ρ` names the rules that a
  production can refer to.
* `seq`, `eat`, `expect`, `recover`, ... : productions built from the steps.
-/

namespace PhpMembers

/-! ## The state of a parse -/

/-- A token that the grammar sees, with the trivia that follows it. -/
structure Lexeme where
  /-- The token. -/
  token : Token
  /-- The trivia up to the next such token. -/
  after : List Token

/-- A parse in progress. -/
structure Parsing where
  /-- The trivia in front of the next token. -/
  gap : List Token
  /-- The tokens ahead. -/
  ahead : List Lexeme
  /-- The offset at which the text ends. -/
  stop : Nat
  /-- The parts of the innermost open construct that are finished, latest first. -/
  built : List Tree
  /-- The errors so far, latest first. -/
  errors : List SyntaxError

/-- The leaf for a token. -/
def Token.leaf (t : Token) : Tree := .leaf t.kind t.text

namespace Parsing

/-- Split a list of tokens into leading trivia and lexemes. -/
def split : List Token → List Token × List Lexeme
  | [] => ([], [])
  | t :: ts =>
    let rest := split ts
    if t.isTrivia then (t :: rest.1, rest.2) else ([], ⟨t, rest.1⟩ :: rest.2)

/-- The start of a parse. -/
def ofTokens (tokens : List Token) : Parsing where
  gap := (split tokens).1
  ahead := (split tokens).2
  stop := (tokens.getLast?.map Token.stop).getD 0
  built := []
  errors := []

/-- The kind of the `n`-th token ahead; past the last one, `Kind.error`. -/
def kindAt (s : Parsing) (n : Nat) : Kind :=
  match s.ahead[n]? with
  | some l => l.token.kind
  | none => .error

/-- Whether only trivia is left. -/
def atEnd (s : Parsing) : Bool := s.ahead.isEmpty

/-- Put the trivia in front of the next token into the open construct. -/
def flush (s : Parsing) : Parsing :=
  { s with gap := [], built := (s.gap.map Token.leaf).reverse ++ s.built }

/-- Take the next token into the open construct, under the kind that `rename` gives it. -/
def take (s : Parsing) (rename : Kind → Kind) : Parsing :=
  let f := s.flush
  match f.ahead with
  | [] => f
  | l :: rest =>
    { f with
      gap := l.after
      ahead := rest
      built := .leaf (rename l.token.kind) l.token.text :: f.built }

/-- Where an error is noticed now. -/
def here (s : Parsing) : Span :=
  match s.ahead with
  | l :: _ => l.token.span
  | [] => ⟨s.stop, s.stop⟩

/-- Record a fault. -/
def report (s : Parsing) (fault : Fault) : Parsing :=
  { s with errors := ⟨fault, s.here⟩ :: s.errors }

/-- The same parse with nothing built in the open construct. -/
def fresh (s : Parsing) : Parsing := { s with built := [] }

end Parsing

/-! ## Conditions -/

/-- A condition on the tokens ahead. -/
inductive Lookahead
  /-- Only trivia is left. -/
  | atEnd
  /-- The kind of the `n`-th token ahead passes the test. -/
  | kind (n : Nat) (test : Kind → Bool)
  /-- The kinds of all tokens ahead pass the test. -/
  | kinds (test : List Kind → Bool)
  /-- The text of the `n`-th token ahead, in lower case, is one of the words. -/
  | word (n : Nat) (words : List Text)
  /-- A closing tag follows at once, with no other trivia in front. -/
  | closeTag

/-- Whether a condition holds now. -/
def Lookahead.holds (s : Parsing) : Lookahead → Bool
  | atEnd => s.atEnd
  | kind n test => test (s.kindAt n)
  | kinds test => test (s.ahead.map (·.token.kind))
  | word n words =>
    match s.ahead[n]? with
    | some l => words.contains (lowerCase l.token.text)
    | none => false
  | closeTag =>
    match s.gap with
    | t :: _ => t.kind == .closeTag
    | [] => false

/-! ## Steps -/

/-- A way to read a construct. -/
inductive Production (ρ : Type)
  /-- Do nothing and answer. -/
  | answer (ok : Bool)
  /-- Answer whether a condition holds. -/
  | look (condition : Lookahead)
  /-- Take the next token. -/
  | bump
  /-- Take the next token under another kind. -/
  | bumpAs (kind : Kind)
  /-- Record a fault and answer `false`. -/
  | fault (cause : Fault)
  /-- One after the other; the answer is the second one's. -/
  | andThen (first second : Production ρ)
  /-- Go on by the answer of the first. -/
  | branch (condition yes no : Production ρ)
  /-- Go on by the kind of the next token. -/
  | byKind (cases : Kind → Production ρ)
  /-- Build a node from what the production reads. Trivia in front stays outside. -/
  | node (kind : Kind) (body : Production ρ)
  /-- Read parts that a `wrap` inside can still gather. Trivia in front stays outside. -/
  | group (body : Production ρ)
  /-- Build a node from everything read since the innermost group began and from what is read now. -/
  | wrap (kind : Kind) (body : Production ρ)
  /-- Repeat as long as the answer is `true`. -/
  | loop (body : Production ρ)
  /-- Answer whether the production answers `true` and takes at least one token. -/
  | advances (body : Production ρ)
  /-- Follow a rule of the grammar. -/
  | call (rule : ρ)

/-- Repeat a step while it answers `true`, at most `n` times. -/
def iterate (step : Parsing → Bool × Parsing) : Nat → Parsing → Parsing
  | 0, s => s
  | n + 1, s =>
    match step s with
    | (true, t) => iterate step n t
    | (false, t) => t

namespace Production

variable {ρ : Type}

/-- Execute a production. A loop is bounded by the number of tokens ahead, which is enough when each round
but the last takes a token. -/
def run (follow : ρ → Parsing → Bool × Parsing) : Production ρ → Parsing → Bool × Parsing
  | answer ok, s => (ok, s)
  | look condition, s => (condition.holds s, s)
  | bump, s => (true, s.take id)
  | bumpAs kind, s => (true, s.take fun _ => kind)
  | fault cause, s => (false, s.report cause)
  | andThen first second, s => run follow second (run follow first s).2
  | branch condition yes no, s =>
    match run follow condition s with
    | (true, t) => run follow yes t
    | (false, t) => run follow no t
  | byKind cases, s => run follow (cases (s.kindAt 0)) s
  | node kind body, s =>
    let outer := s.flush
    let inner := run follow body outer.fresh
    (inner.1, { inner.2 with built := .node kind inner.2.built.reverse :: outer.built })
  | group body, s =>
    let outer := s.flush
    let inner := run follow body outer.fresh
    (inner.1, { inner.2 with built := inner.2.built ++ outer.built })
  | wrap kind body, s =>
    let inner := run follow body s
    (inner.1, { inner.2 with built := [.node kind inner.2.built.reverse] })
  | loop body, s => (true, iterate (run follow body) (s.ahead.length + 1) s)
  | advances body, s =>
    let after := run follow body s
    (after.1 && after.2.ahead.length < s.ahead.length, after.2)
  | call rule, s => follow rule s

/-! ## Productions built from steps -/

/-- Do nothing and answer `true`. -/
def ok : Production ρ := answer true

/-- Do nothing and answer `false`. -/
def stop : Production ρ := answer false

/-- Several productions in turn; the answer is the last one's. -/
def seq : List (Production ρ) → Production ρ
  | [] => ok
  | [p] => p
  | p :: ps => andThen p (seq ps)

/-- Both conditions, the second tried only if the first holds. -/
def both (a b : Production ρ) : Production ρ := branch a b stop

/-- One of two productions, the second tried only if the first answers `false`. -/
def either (a b : Production ρ) : Production ρ := branch a ok b

/-- The opposite answer. -/
def negate (a : Production ρ) : Production ρ := branch a stop ok

/-- Read `p` if the condition holds. -/
def when (condition p : Production ρ) : Production ρ := branch condition p ok

/-- Read `p` and answer `true`. -/
def also (p : Production ρ) : Production ρ := andThen p ok

/-- Whether only trivia is left. -/
def atEnd : Production ρ := look .atEnd

/-- Whether the `n`-th token ahead has this kind. -/
def nthIs (n : Nat) (kind : Kind) : Production ρ := look (.kind n (· == kind))

/-- Whether the next token has this kind. -/
def next (kind : Kind) : Production ρ := nthIs 0 kind

/-- Whether the next token has one of these kinds. -/
def nextAmong (kinds : List Kind) : Production ρ := look (.kind 0 kinds.contains)

/-- Take the next token if it has this kind. -/
def eat (kind : Kind) : Production ρ := branch (next kind) bump stop

/-- Take the next token, which has to have this kind. -/
def expect (kind : Kind) : Production ρ := either (eat kind) (fault (.expected kind))

/-- Take the next token if it has one of these kinds, as often as possible. -/
def eatWhile (kinds : List Kind) : Production ρ := loop (branch (nextAmong kinds) bump stop)

/-- Take a name, reserved words included; a missing one is a fault. -/
def memberName (missing : Fault) : Production ρ :=
  branch (look (.kind 0 Kind.isMemberName)) (bumpAs .ident) (fault missing)

/-- One or more, separated by commas. -/
def commaList (p : Production ρ) : Production ρ :=
  andThen p (loop (branch (eat .comma) (also p) stop))

/-- Repeat `p` until the closing token or the end of the text is ahead, or `p` answers `false`. -/
def untilClosed (closing : Kind) (p : Production ρ) : Production ρ :=
  loop (branch (either atEnd (next closing)) stop p)

/-- Record a fault and put the tokens up to one of the given kinds into an error node: at least one, if
there is one. -/
def recover (cause : Fault) (stops : List Kind) : Production ρ :=
  let stopped := either atEnd (nextAmong stops)
  andThen (fault cause) (node .error (branch stopped bump (loop (branch stopped stop bump))))

/-- Read `p`; if it takes no token, report that and skip to one of the given kinds. -/
def advancing (cause : Fault) (stops : List Kind) (p : Production ρ) : Production ρ :=
  also (either (advances (also p)) (recover cause stops))

/-- Read `p`; if it takes no token and neither the end of the text nor the closing token is ahead, report
and take one. -/
def unstuck (closing : Kind) (p : Production ρ) : Production ρ :=
  also (either (advances (also p))
    (either (either atEnd (next closing)) (byKind fun kind => andThen (fault (.stuck kind)) bump)))

end Production

end PhpMembers
