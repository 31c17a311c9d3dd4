import PhpMembers.Proofs.Syntax.LetterCase
import PhpMembers.Proofs.Syntax.Placement

/-! # What the grammar can tell of the texts of tokens

The grammar goes by kinds and counts bytes. Only in front of a cast and behind `yield` does it look at a text, in any
letter case, for a few words. So a change of texts that keeps their lengths and these words changes the leaves of the
tree and nothing else.

* `Tree.mapTexts`, `Parsing.mapTexts` : changes of texts.
* `Unnoticed` : the changes that the grammar does not notice.
* `Production.run_mapTexts`, `Rule.follow_mapTexts` : reading after the change is the change after reading.
* `Tree.outline` : a tree of which only the lengths of the texts are left.
* `Token.sign`, `Parse.outline_eq_of_signs` : what the outline of the tree and the errors depend on. -/

namespace PhpMembers

/-! ## (1) Changes of texts -/

namespace Tree

mutual

/-- The same tree with other texts at the leaves. -/
def mapTexts (f : Text → Text) : Tree → Tree
  | leaf kind text => leaf kind (f text)
  | node kind children => node kind (mapTextsOfAll f children)

/-- The same trees with other texts at the leaves. -/
def mapTextsOfAll (f : Text → Text) : List Tree → List Tree
  | [] => []
  | tree :: trees => mapTexts f tree :: mapTextsOfAll f trees

end

theorem mapTextsOfAll_eq (f : Text → Text) (trees : List Tree) : mapTextsOfAll f trees = trees.map (mapTexts f) := by
  induction trees with
  | nil => rfl
  | cons tree trees ih => rw [mapTextsOfAll, ih, List.map_cons]

theorem mapTexts_node (f : Text → Text) (kind : Kind) (children : List Tree) :
    mapTexts f (node kind children) = node kind (children.map (mapTexts f)) := by
  rw [mapTexts, mapTextsOfAll_eq]

mutual

/-- Successive changes act as their composition. -/
theorem mapTexts_comp (g f : Text → Text) : ∀ tree : Tree, mapTexts g (mapTexts f tree) = mapTexts (g ∘ f) tree
  | leaf kind text => rfl
  | node kind children => by rw [mapTexts, mapTexts, mapTexts, mapTextsOfAll_comp]

theorem mapTextsOfAll_comp (g f : Text → Text) :
    ∀ trees : List Tree, mapTextsOfAll g (mapTextsOfAll f trees) = mapTextsOfAll (g ∘ f) trees
  | [] => rfl
  | tree :: trees => by rw [mapTextsOfAll, mapTextsOfAll, mapTextsOfAll, mapTexts_comp, mapTextsOfAll_comp]

end

end Tree

/-- The same token with another text. -/
def Token.mapText (f : Text → Text) (t : Token) : Token := { t with text := f t.text }

/-- The same token with another text, and the same for the trivia behind it. -/
def Lexeme.mapTexts (f : Text → Text) (l : Lexeme) : Lexeme := ⟨l.token.mapText f, l.after.map (Token.mapText f)⟩

/-- The same parse with other texts. -/
def Parsing.mapTexts (f : Text → Text) (s : Parsing) : Parsing :=
  { s with
    gap := s.gap.map (Token.mapText f)
    ahead := s.ahead.map (Lexeme.mapTexts f)
    built := s.built.map (Tree.mapTexts f) }

/-- The words for which the grammar looks. -/
def soughtWords : List Text := ['f', 'r', 'o', 'm'] :: castTypes

/-- `Unnoticed f`: the change keeps the lengths of texts, and it keeps apart the words for which the grammar looks. -/
structure Unnoticed (f : Text → Text) : Prop where
  /-- Texts keep their lengths. -/
  length : ∀ text, utf8Length (f text) = utf8Length text
  /-- A word is found after the change where it is found before. -/
  word : ∀ text, ∀ word ∈ soughtWords, lowerCase (f text) = word ↔ lowerCase text = word

/-! ## (2) Reading after a change -/

variable {f : Text → Text}

namespace Unnoticed

/-- A token keeps its range. -/
theorem span (unnoticed : Unnoticed f) (t : Token) : (t.mapText f).span = t.span := by
  show (⟨t.start, t.start + utf8Length (f t.text)⟩ : Span) = _
  rw [unnoticed.length]
  rfl

/-- What is asked of a text has the same answer. -/
theorem contains (unnoticed : Unnoticed f) {words : List Text} (sought : words.all soughtWords.contains = true)
    (text : Text) : words.contains (lowerCase (f text)) = words.contains (lowerCase text) := by
  rw [Bool.eq_iff_iff, List.contains_iff_mem, List.contains_iff_mem]
  constructor
  · intro mem
    have among := List.contains_iff_mem.mp (List.all_eq_true.mp sought _ mem)
    rwa [(unnoticed.word text _ among).mp rfl]
  · intro mem
    have among := List.contains_iff_mem.mp (List.all_eq_true.mp sought _ mem)
    rwa [(unnoticed.word text _ among).mpr rfl]

end Unnoticed

namespace Parsing

variable (f) (s : Parsing)

theorem kindAt_mapTexts (n : Nat) : (s.mapTexts f).kindAt n = s.kindAt n := by
  rw [kindAt, kindAt, mapTexts, List.getElem?_map]
  cases s.ahead[n]? <;> rfl

theorem atEnd_mapTexts : (s.mapTexts f).atEnd = s.atEnd := List.isEmpty_map

theorem fresh_mapTexts : (s.mapTexts f).fresh = s.fresh.mapTexts f := rfl

theorem flush_mapTexts : (s.mapTexts f).flush = s.flush.mapTexts f := by
  simp [flush, mapTexts, Token.leaf, Token.mapText, Tree.mapTexts, Function.comp_def]

theorem take_mapTexts (rename : Kind → Kind) : (s.mapTexts f).take rename = (s.take rename).mapTexts f := by
  rw [take, take, flush_mapTexts]
  cases ahead : s.flush.ahead with
  | nil => simp [mapTexts, ahead]
  | cons l rest => simp [mapTexts, ahead, Lexeme.mapTexts, Token.mapText, Tree.mapTexts]

variable {f} (unnoticed : Unnoticed f)
include unnoticed

theorem here_mapTexts : (s.mapTexts f).here = s.here := by
  rw [here, here, mapTexts]
  cases s.ahead with
  | nil => rfl
  | cons l rest => exact unnoticed.span l.token

theorem report_mapTexts (fault : Fault) : (s.mapTexts f).report fault = (s.report fault).mapTexts f := by
  rw [report, here_mapTexts s unnoticed]
  rfl

end Parsing

namespace Lookahead

/-- Whether a condition looks at texts only for the words that are kept. -/
def seeks : Lookahead → Bool
  | word _ words => words.all soughtWords.contains
  | _ => true

/-- A condition holds after the change if it holds before. -/
theorem holds_mapTexts (unnoticed : Unnoticed f) {condition : Lookahead} (seeks : condition.seeks = true)
    (s : Parsing) : condition.holds (s.mapTexts f) = condition.holds s := by
  cases condition with
  | atEnd => exact s.atEnd_mapTexts f
  | kind n test => exact congrArg test (s.kindAt_mapTexts f n)
  | kinds test => simp [holds, Parsing.mapTexts, Lexeme.mapTexts, Token.mapText, Function.comp_def]
  | word n words =>
      rw [holds, holds, Parsing.mapTexts, List.getElem?_map]
      cases s.ahead[n]? with
      | none => rfl
      | some l => exact unnoticed.contains seeks l.token.text
  | closeTag =>
      rw [holds, holds, Parsing.mapTexts]
      cases s.gap <;> rfl

end Lookahead

namespace Production

variable {ρ : Type} {follow : ρ → Parsing → Bool × Parsing}

/-- Whether all conditions of a production look at texts only for the words that are kept. -/
def seeks : Production ρ → Bool
  | answer _ | bump | bumpAs _ | fault _ | call _ => true
  | look condition => condition.seeks
  | andThen first second => first.seeks && second.seeks
  | branch condition yes no => condition.seeks && yes.seeks && no.seeks
  | byKind cases => Kind.all.all fun kind => (cases kind).seeks
  | node _ body | group body | wrap _ body | loop body | advances body => body.seeks

/-- Repeating a step commutes with the change if the step does. -/
theorem iterate_mapTexts {step : Parsing → Bool × Parsing}
    (steps : ∀ s : Parsing, step (s.mapTexts f) = ((step s).1, (step s).2.mapTexts f)) (n : Nat) (s : Parsing) :
    iterate step n (s.mapTexts f) = (iterate step n s).mapTexts f := by
  induction n generalizing s with
  | zero => rfl
  | succ n ih =>
      rw [iterate, iterate, steps]
      obtain ⟨ok, t⟩ := step s
      cases ok with
      | true => exact ih t
      | false => rfl

/-- **Reading after the change is the change after reading**, and the answer is the same. -/
theorem run_mapTexts (unnoticed : Unnoticed f)
    (rules : ∀ rule (s : Parsing), follow rule (s.mapTexts f) = ((follow rule s).1, (follow rule s).2.mapTexts f))
    (p : Production ρ) (seeks : p.seeks = true) (s : Parsing) :
    p.run follow (s.mapTexts f) = ((p.run follow s).1, (p.run follow s).2.mapTexts f) := by
  -- A production sees kinds and numbers of tokens, and of the texts only what the change leaves alone.
  induction p generalizing s with
  | answer ok => rfl
  | look condition => exact congrArg (·, s.mapTexts f) (Lookahead.holds_mapTexts unnoticed seeks s)
  | bump => exact congrArg (true, ·) (s.take_mapTexts f id)
  | bumpAs kind => exact congrArg (true, ·) (s.take_mapTexts f fun _ => kind)
  | fault cause => exact congrArg (false, ·) (s.report_mapTexts unnoticed cause)
  | andThen first second ih₁ ih₂ =>
      obtain ⟨seeks₁, seeks₂⟩ := Bool.and_eq_true_iff.mp seeks
      rw [run, run, ih₁ seeks₁, ih₂ seeks₂]
  | branch condition yes no ih ihYes ihNo =>
      obtain ⟨seeks, seeksNo⟩ := Bool.and_eq_true_iff.mp seeks
      obtain ⟨seeks, seeksYes⟩ := Bool.and_eq_true_iff.mp seeks
      rw [run, run, ih seeks]
      obtain ⟨ok, t⟩ := condition.run follow s
      cases ok with
      | true => exact ihYes seeksYes t
      | false => exact ihNo seeksNo t
  | byKind cases ih =>
      rw [run, run, s.kindAt_mapTexts f]
      exact ih (s.kindAt 0) (List.all_eq_true.mp seeks _ (Kind.mem_all _)) s
  | node kind body ih =>
      rw [run, run]
      simp only [Parsing.flush_mapTexts, Parsing.fresh_mapTexts, ih seeks]
      simp [Parsing.mapTexts, Tree.mapTexts_node]
  | group body ih =>
      rw [run, run]
      simp only [Parsing.flush_mapTexts, Parsing.fresh_mapTexts, ih seeks]
      simp [Parsing.mapTexts]
  | wrap kind body ih =>
      rw [run, run]
      simp only [ih seeks]
      simp [Parsing.mapTexts, Tree.mapTexts_node]
  | loop body ih =>
      have rounds : (s.mapTexts f).ahead.length = s.ahead.length := List.length_map _
      rw [run, run, rounds, iterate_mapTexts (ih seeks)]
  | advances body ih =>
      have before : (s.mapTexts f).ahead.length = s.ahead.length := List.length_map _
      have after (t : Parsing) : (t.mapTexts f).ahead.length = t.ahead.length := List.length_map _
      rw [run, run]
      simp only [ih seeks, before, after]
  | call rule => exact rules rule s

end Production

set_option maxRecDepth 4000 in
/-- A round over infix operators looks at no texts. -/
theorem Grammar.seeks_infixStep (power : Nat) : (infixStep power).seeks = true := by
  obtain ⟨cases, same, each⟩ := infixStep_induction power (fun _ p => p.seeks = true) (fun _ => rfl) (by decide)
  rw [same]
  exact List.all_eq_true.mpr each

set_option maxRecDepth 4000 in
/-- **No rule looks at texts for other words.** -/
theorem Rule.seeks_all (rule : Rule) : rule.production.seeks = true := by
  cases rule with
  | expression power =>
      have round := Grammar.seeks_infixStep power
      simp only [production, Grammar.operatorChain, Production.seeks, Production.stop, round, Bool.and_true]
  | _ => decide

/-- Following a rule after the change is the change after following it. -/
theorem Rule.follow_mapTexts (unnoticed : Unnoticed f) (depth : Nat) (rule : Rule) (s : Parsing) :
    Rule.follow depth rule (s.mapTexts f) =
      ((Rule.follow depth rule s).1, (Rule.follow depth rule s).2.mapTexts f) := by
  induction depth generalizing rule s with
  | zero => rfl
  | succ depth ih => exact Production.run_mapTexts unnoticed ih rule.production rule.seeks_all s

namespace Parsing

theorem split_mapTexts (f : Text → Text) (tokens : List Token) :
    split (tokens.map (Token.mapText f)) =
      ((split tokens).1.map (Token.mapText f), (split tokens).2.map (Lexeme.mapTexts f)) := by
  induction tokens with
  | nil => rfl
  | cons t tokens ih =>
      have kind : (t.mapText f).isTrivia = t.isTrivia := rfl
      rw [List.map_cons, split, split, ih, kind]
      cases t.isTrivia <;> rfl

theorem ofTokens_mapTexts (unnoticed : Unnoticed f) (tokens : List Token) :
    ofTokens (tokens.map (Token.mapText f)) = (ofTokens tokens).mapTexts f := by
  have stop (t : Token) : (t.mapText f).stop = t.stop := congrArg Span.stop (unnoticed.span t)
  rw [ofTokens, ofTokens, split_mapTexts, List.getLast?_map]
  cases tokens.getLast? with
  | none => rfl
  | some t => simp [mapTexts, stop]

end Parsing

/-- **The parser does not notice the change**: it is made at the leaves of the tree, and the errors are the same. -/
theorem Parse.ofTokens_mapTexts (unnoticed : Unnoticed f) (tokens : List Token) :
    ofTokens (tokens.map (Token.mapText f)) = ⟨(ofTokens tokens).tree.mapTexts f, (ofTokens tokens).errors⟩ := by
  have ahead : ((Parsing.ofTokens tokens).mapTexts f).ahead.length = (Parsing.ofTokens tokens).ahead.length :=
    List.length_map _
  have run := Production.run_mapTexts unnoticed
    (Rule.follow_mapTexts unnoticed (ruleDepth (Parsing.ofTokens tokens).ahead.length)) Grammar.sourceFile
    (by decide) (Parsing.ofTokens tokens)
  rw [ofTokens, ofTokens, Parsing.ofTokens_mapTexts unnoticed]
  simp only [ahead, run, Parsing.flush_mapTexts]
  simp [Parsing.mapTexts, Tree.mapTexts_node]

/-! ## (3) What the outline of a tree depends on -/

/-- A text of which only the length is left. -/
def blanked (text : Text) : Text := List.replicate (utf8Length text) ' '

/-- The outline of a tree: its shape, its kinds and the lengths of its texts. -/
def Tree.outline (tree : Tree) : Tree := tree.mapTexts blanked

/-- A text of which the length is left, and also the letters if the grammar looks for it. -/
def faded (text : Text) : Text :=
  if soughtWords.contains (lowerCase text) then lowerCase text else blanked text

/-- What counts of a token: its kind, its length and, of an identifier, the letters in lower case. -/
def Token.sign (t : Token) : Kind × Nat × Option Text :=
  (t.kind, utf8Length t.text, if t.kind = .ident then some (lowerCase t.text) else none)

@[simp] theorem utf8Length_blanked (text : Text) : utf8Length (blanked text) = utf8Length text := by
  have each (n : Nat) : utf8Length (List.replicate n ' ') = n := by
    induction n with
    | zero => rfl
    | succ n ih =>
        have size : ' '.utf8Size = 1 := rfl
        rw [List.replicate_succ, utf8Length_cons, ih, size, Nat.add_comm]
  exact each _

@[simp] theorem utf8Length_faded (text : Text) : utf8Length (faded text) = utf8Length text := by
  rw [faded]
  split <;> simp

/-- No word for which the grammar looks is left of other texts. -/
theorem lowerCase_blanked_ne {word : Text} (sought : word ∈ soughtWords) (text : Text) :
    lowerCase (blanked text) ≠ word := by
  have begins : ∀ word ∈ soughtWords, word ≠ [] ∧ word.head? ≠ some ' ' := by decide
  rintro rfl
  obtain ⟨some, noBlank⟩ := begins _ sought
  revert some noBlank
  rw [blanked]
  cases utf8Length text with
  | zero => exact fun some => absurd rfl some
  | succ n => exact fun _ noBlank => absurd rfl noBlank

/-- The grammar does not notice that texts fade. -/
theorem unnoticed_faded : Unnoticed faded where
  length := utf8Length_faded
  word text word sought := by
    rw [faded]
    split
    · rw [lowerCase_lowerCase]
    · rename_i other
      constructor
      · exact fun same => absurd same (lowerCase_blanked_ne sought text)
      · rintro rfl
        exact absurd (List.contains_iff_mem.mpr sought) other

/-- What has faded goes on to be blank. -/
theorem outline_faded (tree : Tree) : (tree.mapTexts faded).outline = tree.outline := by
  have same : blanked ∘ faded = blanked := by
    funext text
    show List.replicate (utf8Length (faded text)) ' ' = _
    rw [utf8Length_faded]
    rfl
  rw [Tree.outline, Tree.mapTexts_comp, same]
  rfl

/-! ## (4) The tokens of a text -/

section Lexed

variable {source : Text} {t u : Token}

/-- A token that has the form of a name is an identifier or a reserved word. -/
theorem Token.kind_eq_of_isWord (mem : t ∈ tokenize source) (word : isWord t.text = true) :
    t.kind = (keyword? t.text).getD .ident := by
  obtain ⟨c, cs, scanned, text⟩ := exists_scan_of_mem_tokenizeFrom mem
  rw [text] at word ⊢
  rw [scanned]
  obtain ⟨start, inside⟩ := Bool.and_eq_true_iff.mp word
  obtain ⟨first, more, rest, rfl, word, words, ends⟩ := exists_segments start cs
  rw [scan_of_isNameStart start, scanName_eq word words ends] at inside ⊢
  cases more with
  | nil => simp [separated]
  | cons piece more =>
      -- There would be a separator in the name.
      rw [← List.append_assoc, List.take_left, separated_cons, List.all_append, List.all_cons] at inside
      have stops : isNameContinue '\\' = false := rfl
      simp [stops] at inside

/-- An identifier or a reserved word has the form of a name. -/
theorem Token.isWord_text (mem : t ∈ tokenize source) (kind : t.kind.isMemberName = true) : isWord t.text = true := by
  obtain ⟨c, cs, start, scanned, text⟩ := exists_scanName mem kind
  obtain ⟨first, more, rest, rfl, word, words, ends⟩ := exists_segments start cs
  rw [scanName_eq word words ends] at scanned text
  cases more with
  | nil => simpa [text, separated] using word
  | cons piece more =>
      rw [scanned] at kind
      cases kind

/-- The reserved words with the kind of `array`. -/
theorem Token.lowerCase_of_arrayKw (mem : t ∈ tokenize source) (kind : t.kind = .arrayKw) :
    lowerCase t.text = ['a', 'r', 'r', 'a', 'y'] := by
  have only : ∀ entry ∈ keywords, entry.2 = .arrayKw → entry.1 = ['a', 'r', 'r', 'a', 'y'] := by decide
  have same := kind_eq_of_isWord mem (isWord_text mem (by rw [kind]; rfl))
  rw [kind, keyword?] at same
  cases found : keywords.lookup (lowerCase t.text) with
  | none =>
      rw [found] at same
      cases same
  | some other =>
      rw [found, Option.getD_some] at same
      obtain ⟨before, after, table, -⟩ := List.lookup_eq_some_iff.mp found
      refine only (lowerCase t.text, other) ?_ same.symm
      rw [table]
      exact List.mem_append_right before List.mem_cons_self

/-- Of the words for which the grammar looks only `array` is reserved. -/
theorem Token.contains_iff_arrayKw (mem : t ∈ tokenize source) (other : t.kind ≠ .ident) :
    soughtWords.contains (lowerCase t.text) = true ↔ t.kind = .arrayKw := by
  constructor
  · intro sought
    have words : ∀ word ∈ soughtWords, isWord word = true ∧
        ((keywords.lookup word).getD .ident = .ident ∨ (keywords.lookup word).getD .ident = .arrayKw) := by decide
    obtain ⟨word, few⟩ := words _ (List.contains_iff_mem.mp sought)
    rw [isWord_caseFree] at word
    rw [kind_eq_of_isWord mem word] at other ⊢
    exact few.resolve_left other
  · intro kind
    rw [lowerCase_of_arrayKw mem kind]
    decide

/-- Tokens that have all in common that counts fade to the same text. -/
theorem Token.faded_eq_of_sign {source' : Text} (mem : t ∈ tokenize source) (mem' : u ∈ tokenize source')
    (same : t.sign = u.sign) : faded t.text = faded u.text := by
  simp only [sign, Prod.mk.injEq] at same
  obtain ⟨kind, length, letters⟩ := same
  have blank : blanked t.text = blanked u.text := by rw [blanked, length, blanked]
  by_cases ident : t.kind = .ident
  · rw [if_pos ident, if_pos (kind ▸ ident), Option.some.injEq] at letters
    rw [faded, faded, letters, blank]
  · rw [faded, faded]
    by_cases array : t.kind = .arrayKw
    · rw [lowerCase_of_arrayKw mem array, lowerCase_of_arrayKw mem' (kind ▸ array), blank]
    · rw [if_neg (mt (contains_iff_arrayKw mem ident).mp array),
        if_neg (mt (contains_iff_arrayKw mem' (kind ▸ ident)).mp (kind ▸ array)), blank]

end Lexed

/-- Tokens of the same lengths start at the same offsets. -/
theorem starts_eq_of_signs (offset : Nat) (source : Text) : ∀ source',
    (tokenizeFrom offset source).map Token.sign = (tokenizeFrom offset source').map Token.sign →
      (tokenizeFrom offset source).map (fun t => (t.sign, t.start)) =
        (tokenizeFrom offset source').map (fun t => (t.sign, t.start)) := by
  induction offset, source using tokenizeFrom.induct with
  | case1 offset =>
      intro source' same
      rw [tokenizeFrom] at same ⊢
      rw [List.map_eq_nil_iff.mp same.symm]
  | case2 offset c cs found text ih =>
      intro source' same
      cases source' with
      | nil =>
          rw [tokenizeFrom, tokenizeFrom] at same
          cases same
      | cons d ds =>
          rw [tokenizeFrom, tokenizeFrom, List.map_cons, List.map_cons] at same ⊢
          obtain ⟨first, others⟩ := List.cons.inj same
          -- The next tokens start alike because the first ones are equally long.
          have length : utf8Length (c :: cs.take found.2) = utf8Length (d :: ds.take (scan d ds).2) :=
            congrArg (·.2.1) first
          rw [← length] at others ⊢
          rw [first, ih _ others]

/-- Functions of what is equal are equal. -/
theorem map_eq_of_map_eq {α β γ : Type} {p : α → β} {g : α → γ} {as bs : List α} (same : as.map p = bs.map p)
    (each : ∀ a ∈ as, ∀ b ∈ bs, p a = p b → g a = g b) : as.map g = bs.map g := by
  induction as generalizing bs with
  | nil => rw [List.map_eq_nil_iff.mp same.symm]
  | cons a as ih =>
      cases bs with
      | nil => cases same
      | cons b bs =>
          obtain ⟨first, others⟩ := List.cons.inj same
          rw [List.map_cons, List.map_cons, each a List.mem_cons_self b List.mem_cons_self first,
            ih others fun a inAs b inBs => each a (List.mem_cons_of_mem _ inAs) b (List.mem_cons_of_mem _ inBs)]

/-- **The outline of the tree and the errors depend on nothing of the tokens but their kinds, their lengths and the
letters of identifiers in lower case.** -/
theorem Parse.outline_eq_of_signs {source source' : Text}
    (same : (tokenize source).map Token.sign = (tokenize source').map Token.sign) :
    (ofText source).tree.outline = (ofText source').tree.outline ∧
      (ofText source).errors = (ofText source').errors := by
  have faint : (tokenize source).map (Token.mapText faded) = (tokenize source').map (Token.mapText faded) := by
    refine map_eq_of_map_eq (starts_eq_of_signs 0 source source' same) fun t mem u mem' alike => ?_
    obtain ⟨signs, start⟩ := Prod.mk.inj alike
    have kind : t.kind = u.kind := congrArg (·.1) signs
    rw [Token.mapText, Token.mapText, Token.faded_eq_of_sign mem mem' signs, kind, start]
  have once := Parse.ofTokens_mapTexts unnoticed_faded (tokenize source)
  have twice := Parse.ofTokens_mapTexts unnoticed_faded (tokenize source')
  rw [faint, twice] at once
  obtain ⟨tree, errors⟩ := Parse.mk.inj once
  exact ⟨by rw [ofText, ofText, ← outline_faded, ← tree, outline_faded], errors.symm⟩

end PhpMembers
