import Mathlib.Data.List.Chain
import PhpMembers.Proofs.Syntax.Trivia
import PhpMembers.Source.Written

/-! # Text that is put together from tokens

A text is written token by token, with a blank behind most of them. Where there is none, the next token
begins with a mark, so the lexer finds the tokens that were written.

* `Word`, `PlainWord` : names as they can be written.
* `Piece` : a token with the proof that it is one.
* `Tidy` : pieces that can be written one after the other.
* `tokenizeFrom_written` : the lexer finds the tokens that were written.
* `Parse.ofText_opened` : the parser starts from these tokens. -/

namespace PhpMembers

/-! ## (1) Words -/

/-- A name, or a reserved word. -/
structure Word where
  /-- The characters. -/
  text : Text
  /-- It has the form of a name. -/
  isWord : isWord text = true
deriving DecidableEq

/-- The kind of the token that spells the word. -/
def Word.kind (w : Word) : Kind := (keyword? w.text).getD .ident

/-- A name that is no reserved word, neither `self` nor `parent`. (The words `static` and `namespace` are
reserved.) -/
structure PlainWord extends Word where
  /-- It is not reserved. -/
  free : keyword? text = none
  /-- It does not stand for the class itself. -/
  notSelf : sameIgnoringCase text selfWord = false
  /-- It does not stand for the superclass. -/
  notParent : sameIgnoringCase text parentWord = false
deriving DecidableEq

/-- A plain word is an identifier. -/
@[simp] theorem PlainWord.kind_eq (w : PlainWord) : w.kind = .ident := by
  rw [Word.kind, w.free, Option.getD_none]

/-- Any word can name a member. -/
theorem Word.isMemberName_kind (w : Word) : w.kind.isMemberName = true := by
  rw [kind]
  cases found : keyword? w.text with
  | none => rfl
  | some kind =>
      rw [Option.getD_some, Kind.isMemberName, isKeyword_of_keyword? found, Bool.or_true]

/-! ## (2) Pieces -/

/-- Whether a character ends the token in front of it, whatever that token is. -/
def isBreak (c : Char) : Bool := [' ', '(', ')', '\x7b', '\x7d', ';', ','].contains c

/-- `Apart rest`: the text does not continue a token in front of it. -/
def Apart (rest : Text) : Prop := ∀ c ∈ rest.head?, isBreak c = true

/-- `Lexed kind text`: the text is one token of the kind, if what follows is apart. -/
def Lexed (kind : Kind) (text : Text) : Prop :=
  ∃ c cs, text = c :: cs ∧ isSpace c = false ∧
    ∀ rest, Apart rest → scan c (cs ++ rest) = (kind, cs.length)

/-- A token to be written. -/
structure Piece where
  /-- Its kind. -/
  kind : Kind
  /-- Its characters. -/
  text : Text
  /-- Whether a blank follows. -/
  spaced : Bool
  /-- The grammar sees it. -/
  significant : kind.isTrivia = false
  /-- The lexer finds it. -/
  lexed : Lexed kind text

/-- The only trivia between pieces. -/
def blank : Token := ⟨.whitespace, [' '], 0⟩

namespace Piece

/-- The same token with no blank behind it. -/
def tight (p : Piece) : Piece := { p with spaced := false }

/-- The piece as the grammar meets it. -/
def lexeme (p : Piece) : Lexeme := ⟨⟨p.kind, p.text, 0⟩, if p.spaced then [blank] else []⟩

/-- The tokens that are written. -/
def tokens (p : Piece) : List Token := p.lexeme.token :: p.lexeme.after

/-- The characters that are written. -/
def written (p : Piece) : Text := p.tokens.flatMap Token.text

/-- `p.Fits q`: the piece `q` may follow. -/
def Fits (p q : Piece) : Prop := p.spaced = true ∨ Apart q.text

end Piece

/-- Nothing follows, or a character that ends tokens. -/
theorem apart_cases {rest : Text} (apart : Apart rest) :
    rest = [] ∨ ∃ c cs, rest = c :: cs ∧ c ∈ [' ', '(', ')', '\x7b', '\x7d', ';', ','] := by
  cases rest with
  | nil => exact .inl rfl
  | cons c cs => exact .inr ⟨c, cs, rfl, List.contains_iff_mem.mp (apart c rfl)⟩

/-- What ends tokens is not counted with them. -/
theorem countWhile_append {test : Char → Bool} {cs rest : Text} (all : cs.all test = true)
    (ends : ∀ c, isBreak c = true → test c = false) (apart : Apart rest) :
    countWhile test (cs ++ rest) = cs.length :=
  countWhile_append_of_stop all fun c head => ends c (apart c head)

/-! ## (3) What the lexer finds -/

/-- What ends tokens continues no name. -/
theorem isNameContinue_of_isBreak (c : Char) (isBreak : isBreak c = true) : isNameContinue c = false := by
  have few := List.contains_iff_mem.mp isBreak
  simp only [List.mem_cons, List.not_mem_nil, or_false] at few
  rcases few with rfl | rfl | rfl | rfl | rfl | rfl | rfl <;> rfl

/-- **A word is one token.** -/
theorem Word.lexed (w : Word) : Lexed w.kind w.text := by
  obtain ⟨text, valid⟩ := w
  cases text with
  | nil => cases valid
  | cons c cs =>
      obtain ⟨start, more⟩ := Bool.and_eq_true_iff.mp valid
      refine ⟨c, cs, rfl, isSpace_of_isNameStart start, fun rest apart => ?_⟩
      have whole : countWhile isNameContinue (cs ++ rest) = cs.length :=
        countWhile_append more isNameContinue_of_isBreak apart
      -- What follows is no name character and no separator, so the name goes no further.
      have last : segments rest = 0 := by
        rcases apart_cases apart with rfl | ⟨d, ds, rfl, isBreak⟩
        · rw [segments]
          rintro e es ⟨⟩
        · rw [segments]
          rintro e es isSegment
          cases isSegment
          revert isBreak
          decide
      rw [scan_of_isNameStart start, scanName, whole, List.drop_left, last, List.take_left]
      rfl

/-- **A word behind a `$` is one token.** -/
theorem Word.lexed_variable (w : Word) : Lexed .variable ('$' :: w.text) := by
  obtain ⟨text, valid⟩ := w
  cases text with
  | nil => cases valid
  | cons c cs =>
      obtain ⟨start, more⟩ := Bool.and_eq_true_iff.mp valid
      refine ⟨'$', c :: cs, rfl, rfl, fun rest apart => ?_⟩
      have scanned : scan '$' (c :: cs ++ rest) = scanVariable (c :: (cs ++ rest)) := rfl
      rw [scanned, scanVariable, if_pos start, countWhile_append more isNameContinue_of_isBreak apart,
        List.length_cons, Nat.add_comm]

/-- A character that is a token by itself in front of whatever ends tokens. -/
theorem lexed_of_breaks {kind : Kind} {c : Char} (space : isSpace c = false) (atEnd : scan c [] = (kind, 0))
    (before : ∀ ds, ∀ d ∈ [' ', '(', ')', '\x7b', '\x7d', ';', ','], scan c (d :: ds) = (kind, 0)) :
    Lexed kind [c] := by
  refine ⟨c, [], rfl, space, fun rest apart => ?_⟩
  rcases apart_cases apart with rfl | ⟨d, ds, rfl, isBreak⟩
  · exact atEnd
  · exact before ds d isBreak

namespace Piece

/-- A word with a blank behind it. -/
def word (w : Word) : Piece where
  kind := w.kind
  text := w.text
  spaced := true
  significant := by
    have name := w.isMemberName_kind
    generalize w.kind = kind at name
    cases kind <;> first | rfl | (revert name; decide)
  lexed := w.lexed

/-- A plain word with a blank behind it. -/
def name (w : PlainWord) : Piece where
  kind := .ident
  text := w.text
  spaced := true
  significant := rfl
  lexed := w.kind_eq ▸ w.lexed

/-- A word behind a `$`, with a blank behind it. -/
def sigiled (w : Word) : Piece where
  kind := .variable
  text := '$' :: w.text
  spaced := true
  significant := rfl
  lexed := w.lexed_variable

/-- A reserved word with a blank behind it. -/
def keyword (kind : Kind) (text : Text) (valid : PhpMembers.isWord text = true := by decide)
    (known : keyword? text = some kind := by decide) (significant : kind.isTrivia = false := by decide) :
    Piece where
  kind := kind
  text := text
  spaced := true
  significant := significant
  lexed := by
    have lexed := (Word.mk text valid).lexed
    rwa [Word.kind, known, Option.getD_some] at lexed

/-- A single character with a blank behind it. -/
def mark (kind : Kind) (c : Char) (lexed : Lexed kind [c]) (significant : kind.isTrivia = false := by decide) :
    Piece where
  kind := kind
  text := [c]
  spaced := true
  significant := significant
  lexed := lexed

/-- The brace `{`. -/
def lBrace : Piece := mark .lBrace '\x7b' (lexed_of_breaks rfl rfl fun _ _ _ => rfl)

/-- The brace `}`. -/
def rBrace : Piece := mark .rBrace '\x7d' (lexed_of_breaks rfl rfl fun _ _ _ => rfl)

/-- The parenthesis `(`. -/
def lParen : Piece := mark .lParen '(' (lexed_of_breaks rfl rfl fun _ _ _ => rfl)

/-- The parenthesis `)`. -/
def rParen : Piece := mark .rParen ')' (lexed_of_breaks rfl rfl fun _ _ _ => rfl)

/-- A semicolon. -/
def semicolon : Piece := mark .semicolon ';' (lexed_of_breaks rfl rfl fun _ _ _ => rfl)

/-- A comma. -/
def comma : Piece := mark .comma ',' (lexed_of_breaks rfl rfl fun _ _ _ => rfl)

/-- An equals sign. -/
def equals : Piece := mark .eq '=' (lexed_of_breaks rfl rfl fun _ => by simp [scan, scanEqual])

/-- The number `1`. -/
def one : Piece := mark .integer '1' (lexed_of_breaks rfl rfl fun ds => by
  simp only [List.forall_mem_cons]
  exact ⟨rfl, rfl, rfl, rfl, rfl, rfl, rfl, List.forall_mem_nil _⟩)

end Piece

/-! ## (4) Texts with blanks behind them -/

/-- Pieces that can be written one after the other, and with a blank behind the last one. -/
structure Tidy (ps : List Piece) : Prop where
  /-- Each may follow the one in front. -/
  chain : ps.IsChain Piece.Fits
  /-- The last one has a blank behind it. -/
  ends : ∀ p ∈ ps.getLast?, p.spaced = true

namespace Tidy

variable {p q : Piece} {ps qs : List Piece}

/-- Nothing is tidy. -/
theorem nil : Tidy [] := ⟨.nil, fun _ last => (Option.not_mem_none _ last).elim⟩

/-- What is tidy may follow what is tidy. -/
theorem append (first : Tidy ps) (second : Tidy qs) : Tidy (ps ++ qs) where
  chain := List.isChain_append.mpr ⟨first.chain, second.chain, fun p last _ _ => .inl (first.ends p last)⟩
  ends := by
    intro p last
    rcases List.eq_nil_or_concat qs with rfl | ⟨qs, q, rfl⟩
    · exact first.ends p (by rwa [List.append_nil] at last)
    · exact second.ends p (by simpa using last)

/-- Anything tidy may follow a piece with a blank. -/
theorem spaced (blank : p.spaced = true) (others : Tidy ps) : Tidy (p :: ps) :=
  append ⟨.singleton p, by rintro q ⟨⟩; exact blank⟩ others

/-- A mark may follow any piece. -/
theorem mark (apart : Apart q.text) (others : Tidy (q :: qs)) : Tidy (p :: q :: qs) where
  chain := .cons_cons (.inr apart) others.chain
  ends := others.ends

/-- Tidy parts are tidy. -/
theorem flatMap {α : Type} {pieces : α → List Piece} {xs : List α} (each : ∀ x, Tidy (pieces x)) :
    Tidy (xs.flatMap pieces) := by
  induction xs with
  | nil => exact nil
  | cons x xs ih => exact (each x).append ih

end Tidy

/-- A mark is apart from what is in front. -/
theorem apart_singleton {c : Char} (ends : isBreak c = true) : Apart [c] := by
  rintro d ⟨⟩
  exact ends

/-! ## (5) Whole texts -/

/-- The lexer finds a token and goes on behind it. -/
theorem tokenizeFrom_of_scan {kind : Kind} {c : Char} {cs rest : Text} (offset : Nat)
    (scanned : scan c (cs ++ rest) = (kind, cs.length)) :
    tokenizeFrom offset (c :: cs ++ rest) =
      ⟨kind, c :: cs, offset⟩ :: tokenizeFrom (offset + utf8Length (c :: cs)) rest := by
  rw [List.cons_append, tokenizeFrom, scanned, List.take_left, List.drop_left]

namespace Piece

variable {p : Piece}

/-- What is written for a piece begins with its token. -/
theorem written_eq (p : Piece) : p.written = p.text ++ p.lexeme.after.flatMap Token.text := rfl

/-- The characters of a piece begin with one that is not white space. -/
theorem exists_written_eq_cons (p : Piece) :
    ∃ c cs, p.text = c :: cs ∧ isSpace c = false ∧ ∃ ds, p.written = c :: ds := by
  obtain ⟨c, cs, text, space, -⟩ := p.lexed
  exact ⟨c, cs, text, space, _, by rw [written_eq, text, List.cons_append]⟩

/-- What follows a piece without a blank is apart from it. -/
theorem apart_written {ps : List Piece} (chain : (p :: ps).IsChain Fits) (tight : p.spaced = false) :
    Apart (ps.flatMap written) := by
  cases ps with
  | nil => rintro c ⟨⟩
  | cons q ps =>
      rcases (List.isChain_cons_cons.mp chain).1 with spaced | apart
      · rw [tight] at spaced
        cases spaced
      · obtain ⟨c, cs, text, -, ds, written⟩ := q.exists_written_eq_cons
        rw [text] at apart
        rw [List.flatMap_cons, written]
        exact apart

/-- A blank between pieces is a token. -/
theorem tokenizeFrom_blank (offset : Nat) (ps : List Piece) :
    tokenizeFrom offset (' ' :: ps.flatMap written) =
      ⟨.whitespace, [' '], offset⟩ :: tokenizeFrom (offset + 1) (ps.flatMap written) := by
  have scanned (cs : Text) : scan ' ' cs = (.whitespace, countWhile isSpace cs) := rfl
  refine @tokenizeFrom_of_scan .whitespace ' ' [] (ps.flatMap written) offset ?_
  rw [List.nil_append, scanned, countWhile]
  cases ps with
  | nil => rfl
  | cons q ps =>
      obtain ⟨c, cs, -, space, ds, written⟩ := q.exists_written_eq_cons
      have stops : ¬isSpace c = true := by rw [space]; exact Bool.false_ne_true
      rw [List.flatMap_cons, written, List.cons_append, List.takeWhile_cons_of_neg stops, List.length_nil]

end Piece

/-- **The lexer finds the tokens that were written**, each at its own place. -/
theorem tokenizeFrom_written (offset : Nat) {ps : List Piece} (chain : ps.IsChain Piece.Fits) :
    (tokenizeFrom offset (ps.flatMap Piece.written)).map (fun t => (t.kind, t.text)) =
      (ps.flatMap Piece.tokens).map fun t => (t.kind, t.text) := by
  -- Each piece is one token, whatever is written behind it, and a blank behind it is a token of its own.
  induction ps generalizing offset with
  | nil => rw [List.flatMap_nil, tokenizeFrom, List.flatMap_nil]
  | cons p ps ih =>
      obtain ⟨c, cs, text, -, scanned⟩ := p.lexed
      have rest (offset : Nat) := ih offset (List.isChain_of_isChain_cons chain)
      rw [List.flatMap_cons, List.flatMap_cons, Piece.written_eq, Piece.tokens, Piece.lexeme, text]
      cases spaced : p.spaced with
      | false =>
          rw [if_neg Bool.false_ne_true, List.flatMap_nil, List.append_nil,
            tokenizeFrom_of_scan offset (scanned _ (Piece.apart_written chain spaced)), List.map_cons, rest]
          rfl
      | true =>
          have apart : Apart ([blank].flatMap Token.text ++ ps.flatMap Piece.written) := by
            intro d head
            cases head
            rfl
          have behind : [blank].flatMap Token.text ++ ps.flatMap Piece.written =
              ' ' :: ps.flatMap Piece.written := rfl
          rw [if_pos rfl, List.append_assoc, tokenizeFrom_of_scan offset (scanned _ apart), behind,
            Piece.tokenizeFrom_blank, List.map_cons, List.map_cons, rest]
          rfl

/-! ## (6) Where the parser starts -/

/-- Tokens of the same kinds and texts are the same to the parser, wherever they stand. -/
theorem Parsing.split_alike {tokens tokens' : List Token}
    (same : tokens.map (fun t => (t.kind, t.text)) = tokens'.map fun t => (t.kind, t.text)) :
    (split tokens).1.map (fun t => (t.kind, t.text)) = (split tokens').1.map (fun t => (t.kind, t.text)) ∧
      List.Forall₂ (LexemesAlike fun _ => false) (split tokens).2 (split tokens').2 := by
  induction tokens generalizing tokens' with
  | nil =>
      rw [List.map_eq_nil_iff.mp same.symm]
      exact ⟨rfl, .nil⟩
  | cons t ts ih =>
      obtain ⟨t', ts', rfl, first, others⟩ := List.map_eq_cons_iff.mp same.symm
      obtain ⟨kind, text⟩ := Prod.mk.inj first
      obtain ⟨gaps, ahead⟩ := ih others.symm
      have trivia : t'.isTrivia = t.isTrivia := by rw [Token.isTrivia, Token.isTrivia, kind]
      rw [split, split, trivia]
      cases t.isTrivia with
      | true =>
          simp only [if_true, List.map_cons]
          exact ⟨by rw [gaps, kind, text], ahead⟩
      | false =>
          simp only [Bool.false_eq_true, if_false]
          exact ⟨trivial, .cons ⟨kind.symm, text.symm, gapsAlike_of_map_eq gaps⟩ ahead⟩

/-- A file with the given text. -/
def opened (text : Text) : Text := ['<', '?', 'p', 'h', 'p', ' '] ++ text

/-- The trivia in front of the text of a file. -/
def openingTokens : List Token := [⟨.openTag, ['<', '?', 'p', 'h', 'p'], 0⟩, blank]

/-- The parse of a file that is put together from pieces, before anything is read. -/
def Parsing.ofPieces (ps : List Piece) : Parsing := ⟨openingTokens, ps.map Piece.lexeme, 0, [], []⟩

/-- The lexer finds the opening tag, too. -/
theorem tokenize_opened {ps : List Piece} (chain : ps.IsChain Piece.Fits) :
    (tokenize (opened (ps.flatMap Piece.written))).map (fun t => (t.kind, t.text)) =
      (openingTokens ++ ps.flatMap Piece.tokens).map fun t => (t.kind, t.text) := by
  have tag : scan '<' (['?', 'p', 'h', 'p'] ++ ' ' :: ps.flatMap Piece.written) = (.openTag, 4) := rfl
  have text : opened (ps.flatMap Piece.written) =
      '<' :: ['?', 'p', 'h', 'p'] ++ ' ' :: ps.flatMap Piece.written := rfl
  rw [tokenize, text, tokenizeFrom_of_scan 0 tag, Piece.tokenizeFrom_blank, List.map_cons, List.map_cons,
    tokenizeFrom_written _ chain, List.map_append]
  rfl

/-- The tokens of pieces are split into the pieces. -/
theorem Parsing.split_tokens (ps : List Piece) :
    split (openingTokens ++ ps.flatMap Piece.tokens) = (openingTokens, ps.map Piece.lexeme) := by
  have pieces : split (ps.flatMap Piece.tokens) = ([], ps.map Piece.lexeme) := by
    induction ps with
    | nil => rfl
    | cons p ps ih =>
        have significant : p.lexeme.token.isTrivia = false := p.significant
        rw [List.flatMap_cons, Piece.tokens, List.cons_append, split, significant]
        have after : split (p.lexeme.after ++ ps.flatMap Piece.tokens) =
            (p.lexeme.after, ps.map Piece.lexeme) := by
          rw [Piece.lexeme]
          cases p.spaced with
          | false => exact ih
          | true =>
              simp only [if_true, List.cons_append, List.nil_append]
              rw [split, ih]
              rfl
        rw [after]
        rfl
  have tag : split (openingTokens ++ ps.flatMap Piece.tokens) =
      (openingTokens ++ (split (ps.flatMap Piece.tokens)).1, (split (ps.flatMap Piece.tokens)).2) := rfl
  rw [tag, pieces, List.append_nil]

/-- **The parser starts from the pieces.** Where the tokens stand does not matter to the tree and to what is
found wrong. -/
theorem Parse.ofText_opened {ps : List Piece} (chain : ps.IsChain Piece.Fits) {built : List Tree}
    {done : Parsing}
    (run : (Grammar.sourceFile.run (Rule.follow (ruleDepth ps.length)) (Parsing.ofPieces ps)).2 = done)
    (clean : done.errors = []) (parts : done.flush.built.reverse = built) :
    (ofText (opened (ps.flatMap Piece.written))).tree = .node .sourceFile built ∧
      (ofText (opened (ps.flatMap Piece.written))).errors = [] := by
  obtain ⟨gaps, ahead⟩ := Parsing.split_alike (tokenize_opened chain)
  rw [Parsing.split_tokens] at gaps ahead
  -- The tokens of the written text and the pieces differ in their offsets only.
  have alike : (Parsing.ofTokens (tokenize (opened (ps.flatMap Piece.written)))).Alike (fun _ => false)
      (Parsing.ofPieces ps) := ⟨gapsAlike_of_map_eq gaps, ahead, rfl, rfl⟩
  have length : (Parsing.ofTokens (tokenize (opened (ps.flatMap Piece.written)))).ahead.length = ps.length := by
    rw [alike.length_eq, Parsing.ofPieces, List.length_map]
  have same := (Production.run_alike (Rule.follow_alike (ruleDepth ps.length)) Grammar.sourceFile _ _ alike).2
  rw [run] at same
  have trees := same.flush.built
  rw [Tree.allWithout_none, Tree.allWithout_none] at trees
  have faults := same.flush.faults
  have none : done.flush.errors = [] := clean
  rw [none, List.map_nil, List.map_eq_nil_iff] at faults
  rw [ofText, ofTokens, length]
  exact ⟨by rw [trees, parts], List.reverse_eq_nil_iff.mpr faults⟩

end PhpMembers
