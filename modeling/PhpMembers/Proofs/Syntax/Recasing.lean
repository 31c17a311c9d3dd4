import PhpMembers.Proofs.Syntax.Outlines

/-! # Reserved words in other letter case

The letter case of reserved words does not matter: with other letters at their places the lexer finds the same tokens,
and the tree and the errors are the same. The only exception is an opening line of a labelled string without a closing
line: there the lexer has looked at the rest of the text for the label, in the letter case of the label, and a reserved
word at the beginning of a line may have become the label.

* `Recases` : other letter case for some of the reserved words.
* `StaysOpen` : no labelled string is closed by the change.
* `scanLabelled_recased`, `tokenizeFrom_recased` : the tokens are the same if all stays open.
* `staysOpen_of_extents` : and if they are, all has stayed open.
* `keywords_recased` : tokens, trees and errors after the change. -/

namespace PhpMembers

/-! ## (1) Changes of letter case -/

/-- `Recases tokens edits`: the edits list the tokens with the texts that take the place of theirs. Reserved words get
the same letters in any case, and the other tokens keep their texts. -/
structure Recases (tokens : List Token) (edits : List (Token × Text)) : Prop where
  /-- Each token has a new text. -/
  tokens : edits.map Prod.fst = tokens
  /-- Reserved words have the same letters. -/
  keyword : ∀ e ∈ edits, e.1.kind.isKeyword = true → sameIgnoringCase e.2 e.1.text = true
  /-- All other texts are kept. -/
  other : ∀ e ∈ edits, e.1.kind.isKeyword = false → e.2 = e.1.text

/-- The text after the change. -/
def changedText (edits : List (Token × Text)) : Text := edits.flatMap Prod.snd

/-- A token with its new text. -/
def changedToken (e : Token × Text) : Token := { e.1 with text := e.2 }

/-- The kind of a token and its range. -/
def Token.extent (t : Token) : Kind × Span := (t.kind, t.span)

/-- `StaysOpen edits`: where the opening line of a labelled string is an error token, no line closes the string after
the change. -/
def StaysOpen (edits : List (Token × Text)) : Prop :=
  ∀ front t new behind, edits = front ++ (t, new) :: behind → t.kind = .error →
    ∀ label opening, Opens label opening → t.text = '<' :: '<' :: '<' :: opening →
      ∀ line ∈ (changedText behind).splitOn '\n', ¬IsClosingLine label line

namespace Recases

variable {t : Token} {new : Text} {tokens : List Token} {edits : List (Token × Text)}

/-- The rest of a change changes the rest of the tokens. -/
theorem behind (recases : Recases (t :: tokens) ((t, new) :: edits)) : Recases tokens edits where
  tokens := (List.cons.inj recases.tokens).2
  keyword e mem := recases.keyword e (List.mem_cons_of_mem _ mem)
  other e mem := recases.other e (List.mem_cons_of_mem _ mem)

/-- The letters are the same. -/
theorem lowerCase_eq (recases : Recases tokens edits) {e : Token × Text} (mem : e ∈ edits) :
    lowerCase e.2 = lowerCase e.1.text := by
  cases kind : e.1.kind.isKeyword with
  | true => exact beq_iff_eq.mp (recases.keyword e mem kind)
  | false => rw [recases.other e mem kind]

/-- So are those of the whole text. -/
theorem lowerCase_changedText (recases : Recases tokens edits) :
    lowerCase (changedText edits) = lowerCase (tokens.flatMap Token.text) := by
  induction edits generalizing tokens with
  | nil =>
      rw [← recases.tokens]
      rfl
  | cons e edits ih =>
      obtain ⟨t, new⟩ := e
      cases tokens with
      | nil => cases recases.tokens
      | cons u tokens =>
          obtain rfl : t = u := (List.cons.inj recases.tokens).1
          have first : lowerCase new = lowerCase t.text := recases.lowerCase_eq List.mem_cons_self
          rw [changedText, List.flatMap_cons, List.flatMap_cons, lowerCase_append, lowerCase_append, first,
            ← ih recases.behind, changedText]

end Recases

/-! ## (2) The tokens after a change -/

/-- Texts with the same letters have the same length. -/
theorem length_eq_of_lowerCase {cs ds : Text} (same : lowerCase cs = lowerCase ds) : cs.length = ds.length := by
  have lengths := congrArg List.length same
  rwa [lowerCase, lowerCase, List.length_map, List.length_map] at lengths

/-- What ends a label does so in any letter case. -/
theorem EndsLabel.recased {rest rest' : Text} (ends : EndsLabel rest) (same : lowerCase rest' = lowerCase rest) :
    EndsLabel rest' := by
  have word (c : Char) : (isLetterOrNumber c.toLower || c.toLower == '_') = (isLetterOrNumber c || c == '_') :=
    toLower_invariant (fun c => isLetterOrNumber c || c == '_') (by decide) c
  intro c head
  cases rest' with
  | nil => cases head
  | cons c cs =>
      cases head
      obtain ⟨d, ds, rfl, letters, -⟩ := List.map_eq_cons_iff.mp same.symm
      rw [← word, ← letters, word, ends d rfl]

/-- **A labelled string is the same after a change behind it**, if it is not closed by the change. -/
theorem scanLabelled_recased {cs cs' : Text} (same : lowerCase cs' = lowerCase cs)
    (kept : cs'.take (scanLabelled cs).2 = cs.take (scanLabelled cs).2)
    (stays : (scanLabelled cs).1 = .error → ∀ label opening, Opens label opening →
      cs.take (scanLabelled cs).2 = opening →
        ∀ line ∈ (cs'.drop (scanLabelled cs).2).splitOn '\n', ¬IsClosingLine label line) :
    scanLabelled cs' = scanLabelled cs := by
  have openings : opening? cs' = opening? cs := by rw [← opening?_caseFree cs', same, opening?_caseFree]
  have ends : unopened cs' = unopened cs := by rw [← unopened_caseFree cs', same, unopened_caseFree]
  cases found : opening? cs with
  | none => rw [scanLabelled_of_unopened found, scanLabelled_of_unopened (openings.trans found), ends]
  | some n =>
      obtain ⟨opening, body, rfl, rfl, opens⟩ := opens_of_opening? found
      have cut := List.take_append_drop (scanLabelled (opening ++ body)).2 cs'
      rcases closing_cases (labelOf (opening ++ body)) (body.splitOn '\n') with
        open_ | ⟨front, line, others, white, lines, open_, closes⟩
      · have scanned := scanLabelled_of_unclosed opens open_
        rw [scanned] at kept stays cut
        rw [List.take_left] at kept
        rw [kept] at cut
        have open' := stays rfl _ opening opens List.take_left
        rw [scanned, ← cut]
        exact scanLabelled_of_unclosed opens open'
      · have scanned := scanLabelled_of_closed opens lines open_ closes
        rw [scanned, take_of_closed opening lines open_ closes] at kept
        obtain ⟨rest, whole, closing, ends⟩ := exists_closing lines open_ closes
        generalize labelOf (opening ++ body) = label at *
        -- What stands behind the label has changed its letters at most, so the same line closes the string.
        rw [scanned] at cut
        obtain ⟨rest', changed⟩ : ∃ rest', cs' = opening ++ (closedLines front ++ (white ++ label)) ++ rest' :=
          ⟨_, cut.symm.trans (congrArg (· ++ _) kept)⟩
        have letters : lowerCase rest' = lowerCase rest := by
          rw [changed, whole, ← List.append_assoc opening _ rest, lowerCase_append _ rest',
            lowerCase_append _ rest] at same
          exact List.append_cancel_left same
        obtain ⟨line', others', lines', closes'⟩ := closing.exists_lines (ends.recased letters)
        rw [scanned, changed, List.append_assoc opening _ rest']
        exact scanLabelled_of_closed opens lines' open_ closes'

/-- The lexer finds no reserved word behind `<<<`. -/
theorem scanLabelled_isKeyword (cs : Text) : (scanLabelled cs).1.isKeyword = false := by
  have noWord := scanLabelled_isWord cs
  rw [Kind.isWord, Kind.isMemberName, Bool.or_eq_false_iff, Bool.or_eq_false_iff] at noWord
  exact noWord.2.2

/-- **A token is the same after a change of letter case**, if its own letters are kept unless it is a reserved word and
no labelled string is closed. -/
theorem scan_recased {c c' : Char} {cs cs' : Text} (first : c'.toLower = c.toLower)
    (same : lowerCase cs' = lowerCase cs)
    (kept : (scan c cs).1.isKeyword = false → cs'.take (scan c cs).2 = cs.take (scan c cs).2)
    (stays : (scan c cs).1 = .error → ∀ label opening, Opens label opening →
      c :: cs.take (scan c cs).2 = '<' :: '<' :: '<' :: opening →
        ∀ line ∈ (cs'.drop (scan c cs).2).splitOn '\n', ¬IsClosingLine label line) :
    scan c' cs' = scan c cs := by
  -- Only a labelled string is ended by letters of its own; all other tokens are found in any letter case.
  by_cases labelled : ∃ rest, c = '<' ∧ cs = '<' :: '<' :: rest
  · obtain ⟨rest, rfl, rfl⟩ := labelled
    obtain rfl : c' = '<' := (toLower_eq_iff rfl).mp first
    have marks : lowerCase cs' = '<' :: '<' :: lowerCase rest := same
    obtain ⟨rest', rfl, letters⟩ := eq_cons_cons_of_lowerCase marks rfl rfl
    have found (cs : Text) : scan '<' ('<' :: '<' :: cs) = ((scanLabelled cs).1, 2 + (scanLabelled cs).2) := rfl
    have taken (n : Nat) (cs : Text) : ('<' :: '<' :: cs).take (2 + n) = '<' :: '<' :: cs.take n := by
      rw [Nat.add_comm]
      rfl
    have dropped (n : Nat) (cs : Text) : ('<' :: '<' :: cs).drop (2 + n) = cs.drop n := by
      rw [Nat.add_comm]
      rfl
    simp only [found, taken, dropped] at kept stays ⊢
    have body := (List.cons.inj (List.cons.inj (kept (scanLabelled_isKeyword rest))).2).2
    rw [scanLabelled_recased letters body fun isError label opening opens text =>
      stays isError label opening opens (by rw [text])]
  · have noLabel : ∀ rest, c = '<' → cs ≠ '<' :: '<' :: rest := fun rest mark text => labelled ⟨rest, mark, text⟩
    have noLabel' : ∀ rest, c' = '<' → cs' ≠ '<' :: '<' :: rest := by
      rintro rest rfl rfl
      obtain ⟨rest, text, -⟩ := eq_cons_cons_of_lowerCase same.symm rfl rfl
      exact noLabel rest ((toLower_eq_iff rfl).mp first.symm) text
    rw [← scan_toLower noLabel', first, same, scan_toLower noLabel]

/-- **After a change the lexer finds the same tokens with the new texts**, if no labelled string is closed. -/
theorem tokenizeFrom_recased {offset : Nat} {source : Text} {edits : List (Token × Text)}
    (recases : Recases (tokenizeFrom offset source) edits) (stays : StaysOpen edits) :
    tokenizeFrom offset (changedText edits) = edits.map changedToken := by
  induction edits generalizing offset source with
  | nil => 
      show tokenizeFrom offset [] = []
      rw [tokenizeFrom]
  | cons e edits ih =>
      obtain ⟨t, new⟩ := e
      cases source with
      | nil =>
          rw [tokenizeFrom] at recases
          cases recases.tokens
      | cons c cs =>
          rw [tokenizeFrom] at recases
          obtain rfl : t = foundAt offset c cs := (List.cons.inj recases.tokens).1
          have others := ih recases.behind fun front u text behind rest => stays ((_, new) :: front) u text behind
            (congrArg _ rest)
          have rest := recases.behind.lowerCase_changedText
          rw [tokenizeFrom_texts] at rest
          -- The new text of the token is as long as the old one, and so is what the lexer looks at.
          have letters : lowerCase new = lowerCase (c :: cs.take (scan c cs).2) :=
            recases.lowerCase_eq List.mem_cons_self
          obtain ⟨c', word, rfl, first, inWord⟩ := List.map_eq_cons_iff.mp letters
          have extent : word.length = (scan c cs).2 := by
            rw [length_eq_of_lowerCase inWord, List.length_take, Nat.min_eq_left (scan_placed c cs).1]
          have taken : (word ++ changedText edits).take (scan c cs).2 = word := by rw [← extent, List.take_left]
          have dropped : (word ++ changedText edits).drop (scan c cs).2 = changedText edits := by
            rw [← extent, List.drop_left]
          have same : lowerCase (word ++ changedText edits) = lowerCase cs := by
            have front : lowerCase word = lowerCase (cs.take (scan c cs).2) := inWord
            rw [lowerCase_append, rest, front, ← lowerCase_append, List.take_append_drop]
          have scanned : scan c' (word ++ changedText edits) = scan c cs := by
            refine scan_recased first same (fun noKeyword => ?_) fun isError label opening opens text => ?_
            · rw [taken]
              exact (List.cons.inj (recases.other _ List.mem_cons_self noKeyword)).2
            · rw [dropped]
              exact stays [] _ _ edits rfl isError label opening opens text
          have length : utf8Length (c' :: word) = utf8Length (c :: cs.take (scan c cs).2) := by
            rw [← utf8Length_lowerCase, letters, utf8Length_lowerCase]
          show tokenizeFrom offset (c' :: (word ++ changedText edits)) = _
          rw [tokenizeFrom, scanned, taken, dropped, length, others]
          rfl

namespace Recases

variable {source : Text} {edits : List (Token × Text)}

/-- New texts have the lengths of the old ones. -/
theorem utf8Length_eq {tokens : List Token} (recases : Recases tokens edits) {e : Token × Text} (mem : e ∈ edits) :
    utf8Length e.2 = utf8Length e.1.text := by
  rw [← utf8Length_lowerCase, recases.lowerCase_eq mem, utf8Length_lowerCase]

/-- A function of tokens that says the same of the changed ones says the same of all tokens. -/
theorem map_changedToken {α : Type} {tokens : List Token} {g : Token → α} (recases : Recases tokens edits)
    (each : ∀ e ∈ edits, g (changedToken e) = g e.1) : (edits.map changedToken).map g = tokens.map g := by
  rw [← recases.tokens, List.map_map, List.map_map]
  exact List.map_congr_left each

/-- Tokens keep their kinds and their ranges. -/
theorem map_extent {tokens : List Token} (recases : Recases tokens edits) :
    (edits.map changedToken).map Token.extent = tokens.map Token.extent := by
  refine recases.map_changedToken fun e mem => ?_
  have length := recases.utf8Length_eq mem
  simp [changedToken, Token.extent, Token.span, Token.stop, length]

/-- And they keep all that counts for the grammar. -/
theorem map_sign {tokens : List Token} (recases : Recases tokens edits) :
    (edits.map changedToken).map Token.sign = tokens.map Token.sign := by
  refine recases.map_changedToken fun e mem => ?_
  simp [changedToken, Token.sign, recases.utf8Length_eq mem, recases.lowerCase_eq mem]

end Recases

/-! ## (3) No labelled string is closed -/

/-- A text is cut in one way only at a number of bytes. -/
theorem append_inj_of_utf8Length {a b rest rest' : Text} (whole : a ++ rest = b ++ rest')
    (length : utf8Length a = utf8Length b) : a = b ∧ rest = rest' := by
  induction a generalizing b with
  | nil =>
      cases b with
      | nil => exact ⟨rfl, whole⟩
      | cons d ds =>
          have positive := d.utf8Size_pos
          rw [utf8Length_nil, utf8Length_cons] at length
          omega
  | cons c cs ih =>
      cases b with
      | nil =>
          have positive := c.utf8Size_pos
          rw [utf8Length_nil, utf8Length_cons] at length
          omega
      | cons d ds =>
          obtain ⟨rfl, others⟩ := List.cons.inj whole
          obtain ⟨rfl, same⟩ := ih others (by simpa using length)
          exact ⟨rfl, same⟩

/-- Pieces of the same text with the same lengths are the same. -/
theorem eq_of_flatten_eq {as bs : List Text} (whole : as.flatten = bs.flatten)
    (lengths : as.map utf8Length = bs.map utf8Length) : as = bs := by
  induction as generalizing bs with
  | nil => exact (List.map_eq_nil_iff.mp lengths.symm).symm
  | cons a as ih =>
      cases bs with
      | nil => cases lengths
      | cons b bs =>
          obtain ⟨first, others⟩ := List.cons.inj lengths
          rw [List.flatten_cons, List.flatten_cons] at whole
          obtain ⟨rfl, rest⟩ := append_inj_of_utf8Length whole first
          rw [ih rest others]

/-- **If the tokens have the same kinds and ranges after the change, no labelled string has been closed.** -/
theorem staysOpen_of_extents {source : Text} {edits : List (Token × Text)} (recases : Recases (tokenize source) edits)
    (same : (tokenize (changedText edits)).map Token.extent = (tokenize source).map Token.extent) :
    StaysOpen edits := by
  have kinds : (tokenize (changedText edits)).map Token.kind = edits.map (·.1.kind) := by
    have kinds := congrArg (List.map Prod.fst) same
    rwa [List.map_map, List.map_map, ← recases.tokens, List.map_map] at kinds
  have texts : (tokenize (changedText edits)).map Token.text = edits.map Prod.snd := by
    refine eq_of_flatten_eq ?_ ?_
    · exact tokenizeFrom_texts 0 (changedText edits)
    · have lengths := congrArg (List.map fun extent : Kind × Span => extent.2.stop - extent.2.start) same
      have length (t : Token) : t.extent.2.stop - t.extent.2.start = utf8Length t.text := Nat.add_sub_cancel_left _ _
      rw [List.map_map, List.map_map, ← recases.tokens, List.map_map] at lengths
      simp only [Function.comp_def, length] at lengths
      rw [List.map_map, List.map_map, Function.comp_def, lengths]
      exact List.map_congr_left fun e mem => (recases.utf8Length_eq mem).symm
  have both : (tokenize (changedText edits)).map (fun t => (t.kind, t.text)) = edits.map fun e => (e.1.kind, e.2) := by
    rw [← List.zip_map', kinds, texts, List.zip_map']
  rintro front t new behind rfl isError label opening opens text
  rw [List.map_append, List.map_cons] at both
  obtain ⟨front', rest, tokens, -, others⟩ := List.map_eq_append_iff.mp both
  obtain ⟨u, behind', rfl, alike, last⟩ := List.map_eq_cons_iff.mp others
  obtain ⟨kind, newText⟩ := Prod.mk.inj alike
  -- The opening line begins a token of the changed text, which is an error as well.
  have kept : new = t.text := by
    refine recases.other (t, new) (List.mem_append_right _ List.mem_cons_self) ?_
    rw [isError]
    rfl
  have same : behind'.flatMap Token.text = changedText behind := by
    have texts := congrArg (List.map Prod.snd) last
    rw [List.map_map, List.map_map] at texts
    exact congrArg List.flatten texts
  obtain ⟨c, cs, -, found, after⟩ := tokenizeFrom_append tokens
  have ends : EndsAtLabel u (changedText behind) := by
    rw [← same, after, found]
    exact endsAtLabel_foundAt _ c cs
  have whole : u.text ++ changedText behind = '<' :: '<' :: '<' :: (opening ++ changedText behind) := by
    rw [newText, kept, text]
    rfl
  rcases ends label opening _ opens whole with ⟨-, -, -, -, -, -, -, isString, -⟩ | ⟨open_, -, -⟩
  · rw [kind, isError] at isString
    cases isString
  · exact open_

/-! ## (4) Reserved words do not tell upper from lower case -/

/-- **The letter case of reserved words is irrelevant as long as no labelled string is closed.** The outline of the tree
and the errors of a text are determined by the kinds and lengths of its tokens and by the letters of its identifiers in
lower case. If reserved words get the same letters in another case, the tokens have the same kinds and ranges exactly if
no line behind an opening line that was never closed has become a closing line. Then the tokens are those with the new
texts, the tree has the same outline, and there are the same errors at the same places. -/
theorem keywords_recased :
    (∀ source source', (tokenize source).map Token.sign = (tokenize source').map Token.sign →
      (Parse.ofText source).tree.outline = (Parse.ofText source').tree.outline ∧
      (Parse.ofText source).errors = (Parse.ofText source').errors) ∧
    ∀ source edits, Recases (tokenize source) edits →
      ((tokenize (changedText edits)).map Token.extent = (tokenize source).map Token.extent ↔ StaysOpen edits) ∧
      (StaysOpen edits →
        tokenize (changedText edits) = edits.map changedToken ∧
        (Parse.ofText (changedText edits)).tree.outline = (Parse.ofText source).tree.outline ∧
        (Parse.ofText (changedText edits)).errors = (Parse.ofText source).errors) := by
  refine ⟨fun source source' => Parse.outline_eq_of_signs, fun source edits recases => ⟨⟨?_, ?_⟩, ?_⟩⟩
  · exact staysOpen_of_extents recases
  · intro stays
    rw [tokenize, tokenizeFrom_recased recases stays]
    exact recases.map_extent
  · intro stays
    have tokens : tokenize (changedText edits) = edits.map changedToken := tokenizeFrom_recased recases stays
    exact ⟨tokens, Parse.outline_eq_of_signs (by rw [tokens, recases.map_sign])⟩

/-- An opening line that is never closed, a cast, a generator and a class with damage. -/
def lowerCasedText : Text := "<?php <<<A\n$x = (array) yield From $y; class B \x7b function \x7d a".toList

/-- Its tokens with the reserved words in capitals. -/
def upperCased : List (Token × Text) :=
  (tokenize lowerCasedText).map fun t => (t, if t.kind.isKeyword then t.text.map Char.toUpper else t.text)

/-- The change keeps the tree and the errors. -/
theorem keywords_recased_upperCased :
    changedText upperCased = "<?php <<<A\n$x = (ARRAY) YIELD From $y; CLASS B \x7b FUNCTION \x7d a".toList ∧
      (Parse.ofText (changedText upperCased)).tree.outline = (Parse.ofText lowerCasedText).tree.outline ∧
      (Parse.ofText (changedText upperCased)).errors = (Parse.ofText lowerCasedText).errors ∧
      (Parse.ofText lowerCasedText).errors.map (·.span.start) = [6, 11, 58, 58, 58] := by
  have facts : (upperCased.map Prod.fst = tokenize lowerCasedText ∧
      (∀ e ∈ upperCased, e.1.kind.isKeyword = true → sameIgnoringCase e.2 e.1.text = true) ∧
      ∀ e ∈ upperCased, e.1.kind.isKeyword = false → e.2 = e.1.text) ∧
      (tokenize (changedText upperCased)).map Token.extent = (tokenize lowerCasedText).map Token.extent ∧
      changedText upperCased = "<?php <<<A\n$x = (ARRAY) YIELD From $y; CLASS B \x7b FUNCTION \x7d a".toList ∧
      (Parse.ofText lowerCasedText).errors.map (·.span.start) = [6, 11, 58, 58, 58] := by decide +kernel
  obtain ⟨⟨tokens, keyword, other⟩, same, changed, damage⟩ := facts
  obtain ⟨extents, kept⟩ := keywords_recased.2 lowerCasedText upperCased ⟨tokens, keyword, other⟩
  obtain ⟨-, outline, errors⟩ := kept (extents.mp same)
  exact ⟨changed, outline, errors, damage⟩

/-- An opening line, and a reserved word in lower case at the beginning of the next line. -/
def openLabelText : Text := "<<<CLASS\nclass".toList

/-- The text with the reserved word in capitals. -/
def closedLabelEdits : List (Token × Text) :=
  [(⟨.error, "<<<CLASS\n".toList, 0⟩, "<<<CLASS\n".toList), (⟨.classKw, "class".toList, 9⟩, "CLASS".toList)]

/-- Not every change of reserved words keeps the tokens: here one closes a labelled string. -/
theorem not_extents_of_recases : ¬∀ source edits, Recases (tokenize source) edits →
    (tokenize (changedText edits)).map Token.extent = (tokenize source).map Token.extent := by
  intro all
  have facts : (closedLabelEdits.map Prod.fst = tokenize openLabelText ∧
      (∀ e ∈ closedLabelEdits, e.1.kind.isKeyword = true → sameIgnoringCase e.2 e.1.text = true) ∧
      ∀ e ∈ closedLabelEdits, e.1.kind.isKeyword = false → e.2 = e.1.text) ∧
      (tokenize (changedText closedLabelEdits)).map Token.extent ≠ (tokenize openLabelText).map Token.extent := by
    decide +kernel
  obtain ⟨⟨tokens, keyword, other⟩, differ⟩ := facts
  exact differ (all openLabelText closedLabelEdits ⟨tokens, keyword, other⟩)

end PhpMembers
