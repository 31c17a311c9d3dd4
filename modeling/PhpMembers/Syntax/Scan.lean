import PhpMembers.Syntax.Token
import PhpMembers.Text.Identifier

/-! # From source text to tokens

The longest token that starts at a character is found from that character on. Each function below counts
how many characters of the text *after* the ones already seen belong to the token, so that a token is never
empty and the tokens cover the text without gaps.

Text that starts no token becomes a token of kind `Kind.error`. An unfinished string or block comment is
one such token to the end of the text.

* `scan` : kind and extent of the token that starts with a given character.
* `tokenize` : all tokens of a text, trivia included.
-/

namespace PhpMembers

/-- The number of characters before the first one that fails the test. -/
def countWhile (p : Char → Bool) (cs : Text) : Nat := (cs.takeWhile p).length

/-- The decimal digits. -/
def isDigit (c : Char) : Bool := '0' ≤ c && c ≤ '9'

/-- The characters that begin a name. Every character outside ASCII does. -/
def isNameStart (c : Char) : Bool := c == '_' || c.isAlpha || 0x80 ≤ c.toNat

/-- The characters that continue a name. -/
def isNameContinue (c : Char) : Bool := isNameStart c || isDigit c

/-- The white space between tokens. -/
def isSpace (c : Char) : Bool := c == ' ' || c == '\t' || c == '\r' || c == '\n'

/-! ## Comments and strings -/

/-- The extent of the rest of a block comment, through the first `*/`. -/
def commentEnd? : Text → Option Nat
  | '*' :: '/' :: _ => some 2
  | _ :: cs => (commentEnd? cs).map (· + 1)
  | [] => none

/-- The kind of a block comment by what follows its `/*`: one that goes on with a further `*` documents
what comes after it, unless nothing stands inside. -/
def commentKind : Text → Kind
  | '*' :: '/' :: _ => .blockComment
  | '*' :: _ => .docComment
  | _ => .blockComment

/-- How a quoted string goes on after its opening quote. -/
inductive StringEnd
  /-- It is closed after this many characters. -/
  | closed (count : Nat)
  /-- The text ends inside it, and this many characters belong to it. -/
  | unclosed (count : Nat)

/-- One more character before the end. -/
def StringEnd.later (n : Nat) : StringEnd → StringEnd
  | .closed count => .closed (count + n)
  | .unclosed count => .unclosed (count + n)

/-- The end of a string with the given quote. A backslash takes the next character into the string; at
the very end of the text it does not belong to the unfinished string. -/
def stringEnd (quote : Char) : Text → StringEnd
  | [] => .unclosed 0
  | ['\\'] => .unclosed 0
  | '\\' :: _ :: cs => (stringEnd quote cs).later 2
  | c :: cs => if c = quote then .closed 1 else (stringEnd quote cs).later 1

/-- The end of a shell string, which knows no escapes. -/
def shellStringEnd (cs : Text) : StringEnd :=
  let n := countWhile (· != '\x60') cs
  if n < cs.length then .closed (n + 1) else .unclosed n

/-- The token made of a string. -/
def StringEnd.token : StringEnd → Kind × Nat
  | .closed count => (.string, count)
  | .unclosed count => (.error, count)

/-! ## Labelled strings -/

/-- The quotes that may stand around a label. -/
def isLabelQuote (c : Char) : Bool := c == '"' || c == '\x27'

/-- The extent of what ends the opening line after a label: a quote if there is one, and a line end. -/
def labelLineEnd? : Text → Option Nat
  | '\n' :: _ => some 1
  | '\r' :: '\n' :: _ => some 2
  | q :: '\n' :: _ => if isLabelQuote q then some 2 else none
  | q :: '\r' :: '\n' :: _ => if isLabelQuote q then some 3 else none
  | _ => none

/-- Whether a line closes a labelled string: after white space it starts with the label, and the label is
not the beginning of a longer word. The result is the extent through the label. -/
def closingLabel? (label line : Text) : Option Nat :=
  let body := trimBlankStart line
  if label.isPrefixOf body then
    match body.drop label.length with
    | [] => some (line.length - body.length + label.length)
    | c :: _ =>
      if isLetterOrNumber c || c == '_' then none
      else some (line.length - body.length + label.length)
  else none

/-- The extent of the rest of a labelled string from the start of a line, through its closing label. -/
def labelledEnd? (label : Text) : List Text → Option Nat
  | [] => none
  | line :: lines =>
    match closingLabel? label line with
    | some n => some n
    | none => (labelledEnd? label lines).map (· + line.length + 1)

/-- A token after `<<<`. If what follows is no complete opening line, the characters up to the end of the
label are an error token; if no line closes the string, the opening line is. -/
def scanLabelled (cs : Text) : Kind × Nat :=
  let blanks := countWhile (fun c => c == ' ' || c == '\t') cs
  let afterBlanks := cs.drop blanks
  let isLabelStart (c : Char) : Bool := c == '_' || c.isAlpha
  let quote : Nat :=
    match afterBlanks with
    | q :: c :: _ => if isLabelQuote q && isLabelStart c then 1 else 0
    | _ => 0
  let atLabel := afterBlanks.drop quote
  match atLabel with
  | [] => (.error, blanks)
  | c :: _ =>
    if isLabelStart c then
      let label := atLabel.takeWhile fun d => d == '_' || d.isAlphanum
      let opened := blanks + quote + label.length
      let afterLabel := atLabel.drop label.length
      match labelLineEnd? afterLabel with
      | none => (.error, opened)
      | some n =>
        match labelledEnd? label ((afterLabel.drop n).splitOn '\n') with
        | none => (.error, opened + n)
        | some body => (.string, opened + n + body)
    else (.error, blanks)

/-! ## Names and numbers -/

/-- The extent of the further segments of a name. A separator that no name follows is left alone. -/
def segments : Text → Nat
  | '\\' :: c :: cs =>
    if isNameStart c then
      let n := countWhile isNameContinue cs
      n + 2 + segments (cs.drop n)
    else 0
  | _ => 0
termination_by cs => cs.length
decreasing_by simp only [List.length_drop, List.length_cons]; omega

/-- A name that starts with `c`. It is qualified if it has several segments. -/
def scanName (c : Char) (cs : Text) : Kind × Nat :=
  let n := countWhile isNameContinue cs
  let more := segments (cs.drop n)
  if more = 0 then ((keyword? (c :: cs.take n)).getD .ident, n) else (.qualifiedName, n + more)

/-- A name after a leading separator, if there is one. -/
def scanRooted : Text → Kind × Nat
  | c :: cs =>
    if isNameStart c then
      let n := countWhile isNameContinue cs
      (.qualifiedName, 1 + n + segments (cs.drop n))
    else (.backslash, 0)
  | [] => (.backslash, 0)

/-- A variable after its `$`, if a name follows. -/
def scanVariable : Text → Kind × Nat
  | c :: cs => if isNameStart c then (.variable, 1 + countWhile isNameContinue cs) else (.dollar, 0)
  | [] => (.dollar, 0)

/-- The extent of an exponent: `e`, a sign if there is one, and digits. It is zero if there are no
digits. -/
def exponent : Text → Nat
  | e :: cs =>
    if e == 'e' || e == 'E' then
      let sign : Nat :=
        match cs with
        | c :: _ => if c == '+' || c == '-' then 1 else 0
        | [] => 0
      let digits := countWhile isDigit (cs.drop sign)
      if digits = 0 then 0 else 1 + sign + digits
    else 0
  | [] => 0

/-- The digits that may follow `0x`. -/
def isHexDigit (c : Char) : Bool :=
  isDigit c || ('a' ≤ c && c ≤ 'f') || ('A' ≤ c && c ≤ 'F') || c == '_'

/-- The digits that may follow `0b`. -/
def isBinaryDigit (c : Char) : Bool := c == '0' || c == '1' || c == '_'

/-- The extent of an integer that starts with the digit `c`. -/
def integerLength (c : Char) (cs : Text) : Nat :=
  let decimal := countWhile (fun d => isDigit d || d == '_') cs
  match cs with
  | x :: ds =>
    let digits : Nat :=
      if c = '0' && (x == 'x' || x == 'X') then countWhile isHexDigit ds
      else if c = '0' && (x == 'b' || x == 'B') then countWhile isBinaryDigit ds
      else 0
    if digits = 0 then decimal else 1 + digits
  | [] => decimal

/-- A number that starts with the digit `c`. Digits followed by a point or an exponent are a fraction. -/
def scanNumber (c : Char) (cs : Text) : Kind × Nat :=
  let whole := countWhile isDigit cs
  match cs.drop whole with
  | '.' :: rest =>
    let places := countWhile isDigit rest
    (.float, whole + 1 + places + exponent (rest.drop places))
  | rest =>
    let power := exponent rest
    if power = 0 then (.integer, integerLength c cs) else (.float, whole + power)

/-- A token after a point. -/
def scanPoint : Text → Kind × Nat
  | '.' :: '.' :: _ => (.ellipsis, 2)
  | '=' :: _ => (.assignOp, 1)
  | cs =>
    let places := countWhile isDigit cs
    if places = 0 then (.dot, 0) else (.float, places + exponent (cs.drop places))

/-! ## Punctuation -/

/-- A token after `/`. -/
def scanSlash : Text → Kind × Nat
  | '/' :: cs => (.lineComment, 1 + countWhile (· != '\n') cs)
  | '*' :: cs =>
    match commentEnd? cs with
    | some n => (commentKind cs, 1 + n)
    | none => (.error, 1 + cs.length)
  | '=' :: _ => (.assignOp, 1)
  | _ => (.slash, 0)

/-- A token after `#`: the start of an attribute or a comment. -/
def scanHash : Text → Kind × Nat
  | '[' :: _ => (.hashBracket, 1)
  | cs => (.lineComment, countWhile (· != '\n') cs)

/-- A token after `<`. -/
def scanLess : Text → Kind × Nat
  | '?' :: '=' :: _ => (.openTag, 2)
  | '?' :: p :: h :: q :: _ =>
    if (p == 'p' || p == 'P') && (h == 'h' || h == 'H') && (q == 'p' || q == 'P') then (.openTag, 4)
    else (.lt, 0)
  | '<' :: '<' :: cs => ((scanLabelled cs).1, 2 + (scanLabelled cs).2)
  | '<' :: '=' :: _ => (.assignOp, 2)
  | '<' :: _ => (.shl, 1)
  | '=' :: '>' :: _ => (.spaceship, 2)
  | '=' :: _ => (.ltEq, 1)
  | '>' :: _ => (.bangEq, 1)
  | _ => (.lt, 0)

/-- A token after `>`. -/
def scanGreater : Text → Kind × Nat
  | '>' :: '=' :: _ => (.assignOp, 2)
  | '>' :: _ => (.shr, 1)
  | '=' :: _ => (.gtEq, 1)
  | _ => (.gt, 0)

/-- A token after `?`. -/
def scanQuestion : Text → Kind × Nat
  | '>' :: _ => (.closeTag, 1)
  | '-' :: '>' :: _ => (.nullsafeArrow, 2)
  | '?' :: '=' :: _ => (.assignOp, 2)
  | '?' :: _ => (.questionQuestion, 1)
  | _ => (.question, 0)

/-- A token after `=`. -/
def scanEqual : Text → Kind × Nat
  | '=' :: '=' :: _ => (.eqEqEq, 2)
  | '=' :: _ => (.eqEq, 1)
  | '>' :: _ => (.fatArrow, 1)
  | _ => (.eq, 0)

/-- A token after `!`. -/
def scanBang : Text → Kind × Nat
  | '=' :: '=' :: _ => (.bangEqEq, 2)
  | '=' :: _ => (.bangEq, 1)
  | _ => (.bang, 0)

/-- A token after `*`. -/
def scanStar : Text → Kind × Nat
  | '*' :: '=' :: _ => (.assignOp, 2)
  | '*' :: _ => (.starStar, 1)
  | '=' :: _ => (.assignOp, 1)
  | _ => (.star, 0)

/-- A token after `-`. -/
def scanMinus : Text → Kind × Nat
  | '>' :: _ => (.arrow, 1)
  | '-' :: _ => (.minusMinus, 1)
  | '=' :: _ => (.assignOp, 1)
  | _ => (.minus, 0)

/-- A token after an operator character that can be doubled. -/
def scanDoubled (c : Char) (single double : Kind) : Text → Kind × Nat
  | d :: _ => if d = c then (double, 1) else if d = '=' then (.assignOp, 1) else (single, 0)
  | [] => (single, 0)

/-- A token after an operator character that can only be combined with an assignment. -/
def scanAssigning (single : Kind) : Text → Kind × Nat
  | '=' :: _ => (.assignOp, 1)
  | _ => (single, 0)

/-- A token after `:`. -/
def scanColon : Text → Kind × Nat
  | ':' :: _ => (.colonColon, 1)
  | _ => (.colon, 0)

/-! ## The whole text -/

/-- The kind of the token that starts with `c`, and how many of the characters after `c` belong to it. -/
def scan (c : Char) (cs : Text) : Kind × Nat :=
  match c with
  | '/' => scanSlash cs
  | '#' => scanHash cs
  | '<' => scanLess cs
  | '>' => scanGreater cs
  | '?' => scanQuestion cs
  | '=' => scanEqual cs
  | '!' => scanBang cs
  | '*' => scanStar cs
  | '-' => scanMinus cs
  | '.' => scanPoint cs
  | ':' => scanColon cs
  | '+' => scanDoubled '+' .plus .plusPlus cs
  | '&' => scanDoubled '&' .amp .ampAmp cs
  | '|' => scanDoubled '|' .pipe .pipePipe cs
  | '%' => scanAssigning .percent cs
  | '^' => scanAssigning .caret cs
  | '\\' => scanRooted cs
  | '$' => scanVariable cs
  | '"' => (stringEnd '"' cs).token
  | '\x27' => (stringEnd '\x27' cs).token
  | '\x60' => (shellStringEnd cs).token
  | '{' => (.lBrace, 0)
  | '}' => (.rBrace, 0)
  | '[' => (.lBracket, 0)
  | ']' => (.rBracket, 0)
  | '(' => (.lParen, 0)
  | ')' => (.rParen, 0)
  | ';' => (.semicolon, 0)
  | ',' => (.comma, 0)
  | '@' => (.atSign, 0)
  | '~' => (.tilde, 0)
  | _ =>
    if isSpace c then (.whitespace, countWhile isSpace cs)
    else if isDigit c then scanNumber c cs
    else if isNameStart c then scanName c cs
    else (.error, 0)

/-- The tokens of a text that lies at a byte offset. -/
def tokenizeFrom (offset : Nat) : Text → List Token
  | [] => []
  | c :: cs =>
    let found := scan c cs
    let text := c :: cs.take found.2
    ⟨found.1, text, offset⟩ :: tokenizeFrom (offset + utf8Length text) (cs.drop found.2)
termination_by cs => cs.length
decreasing_by simp only [List.length_drop, List.length_cons]; omega

/-- All tokens of a text in order, trivia included. -/
def tokenize (source : Text) : List Token := tokenizeFrom 0 source

end PhpMembers
