import Mathlib.Data.List.Forall2
import PhpMembers.Proofs.Syntax.Lossless

/-! # Trivia does not change what is read

Two parses are compared step by step. They meet the same tokens with different trivia in between, so they
stand at different offsets, but they take the same steps and build the same parts.

* `Tree.without` : a tree without the leaves of some kinds.
* `Parsing.Alike` : parses that differ in hidden leaves, in offsets and in nothing else.
* `Production.run_alike` : no production of a grammar tells such parses apart.
* `Parse.alike_ofTokens` : neither does the parser of a file.
* `Parse.same_of_significant` : the law for lists of tokens. -/

namespace PhpMembers

variable {hidden : Kind → Bool}

/-! ## (1) Trees without some of their leaves -/

namespace Tree

mutual

/-- The tree without the leaves below it that have a hidden kind. -/
def without (hidden : Kind → Bool) : Tree → Tree
  | leaf kind text => leaf kind text
  | node kind children => node kind (allWithout hidden children)

/-- Several trees without the hidden leaves among and below them. -/
def allWithout (hidden : Kind → Bool) : List Tree → List Tree
  | [] => []
  | tree :: trees =>
    if tree.isLeaf && hidden tree.kind then allWithout hidden trees
    else without hidden tree :: allWithout hidden trees

end

@[simp] theorem allWithout_append (trees others : List Tree) :
    allWithout hidden (trees ++ others) = allWithout hidden trees ++ allWithout hidden others := by
  induction trees with
  | nil => rw [List.nil_append, allWithout, List.nil_append]
  | cons tree trees ih =>
      rw [List.cons_append, allWithout, allWithout, ih]
      split
      · rfl
      · rw [List.cons_append]

/-- The order of the trees does not matter to what is hidden. -/
@[simp] theorem allWithout_reverse (trees : List Tree) :
    allWithout hidden trees.reverse = (allWithout hidden trees).reverse := by
  induction trees with
  | nil => rw [List.reverse_nil, allWithout, List.reverse_nil]
  | cons tree trees ih =>
      rw [List.reverse_cons, allWithout_append, ih, allWithout, allWithout, allWithout]
      split
      · rw [List.append_nil]
      · rw [List.reverse_cons]

@[simp] theorem allWithout_node_cons (kind : Kind) (children trees : List Tree) :
    allWithout hidden (node kind children :: trees) =
      node kind (allWithout hidden children) :: allWithout hidden trees := by
  rw [allWithout, without]
  exact if_neg Bool.false_ne_true

/-- Whether a leaf is hidden depends on its kind only. -/
theorem allWithout_leaf_cons {trees others : List Tree}
    (same : allWithout hidden trees = allWithout hidden others) (kind : Kind) (text : Text) :
    allWithout hidden (leaf kind text :: trees) = allWithout hidden (leaf kind text :: others) := by
  rw [allWithout, allWithout, same]

mutual

/-- Nothing is lost if nothing is hidden. -/
theorem without_none : ∀ tree : Tree, tree.without (fun _ => false) = tree
  | leaf kind text => by rw [without]
  | node kind children => by rw [without, allWithout_none]

/-- The same for several trees. -/
theorem allWithout_none : ∀ trees : List Tree, allWithout (fun _ => false) trees = trees
  | [] => by rw [allWithout]
  | tree :: trees => by
      rw [allWithout, without_none tree, allWithout_none trees, Bool.and_false]
      exact if_neg Bool.false_ne_true

end

end Tree

/-! ## (2) Parses that cannot be told apart -/

/-- What remains of tokens when those of hidden kinds are left out: kinds and texts, but not the places. -/
def shown (hidden : Kind → Bool) (tokens : List Token) : List (Kind × Text) :=
  (tokens.filter fun t => !hidden t.kind).map fun t => (t.kind, t.text)

/-- Whether trivia begins with a closing tag. -/
def beginsWithTag (trivia : List Token) : Bool := trivia.head?.any (·.kind == .closeTag)

/-- `GapsAlike hidden gap gap'`: trivia between tokens that differs in hidden tokens only, and ends a
statement in both cases or in neither. -/
structure GapsAlike (hidden : Kind → Bool) (gap gap' : List Token) : Prop where
  /-- The same tokens are shown. -/
  shown : shown hidden gap = shown hidden gap'
  /-- A closing tag follows at once in both or in neither. -/
  tag : beginsWithTag gap = beginsWithTag gap'

/-- `LexemesAlike hidden l l'`: the same token, with trivia after it that cannot be told apart. -/
structure LexemesAlike (hidden : Kind → Bool) (l l' : Lexeme) : Prop where
  /-- The kinds are the same. -/
  kind : l.token.kind = l'.token.kind
  /-- The texts are the same. -/
  text : l.token.text = l'.token.text
  /-- The trivia after the token. -/
  after : GapsAlike hidden l.after l'.after

/-- `s.Alike hidden t`: the two parses differ in hidden leaves, in offsets and in nothing else. -/
structure Parsing.Alike (hidden : Kind → Bool) (s t : Parsing) : Prop where
  /-- The trivia in front of the next token. -/
  gap : GapsAlike hidden s.gap t.gap
  /-- The tokens ahead. -/
  ahead : List.Forall₂ (LexemesAlike hidden) s.ahead t.ahead
  /-- The finished parts of the open construct. -/
  built : Tree.allWithout hidden s.built = Tree.allWithout hidden t.built
  /-- What has been found wrong. -/
  faults : s.errors.map (·.fault) = t.errors.map (·.fault)

/-- Trivia of the same kinds and texts cannot be told apart. -/
theorem gapsAlike_of_map_eq {gap gap' : List Token}
    (same : gap.map (fun t => (t.kind, t.text)) = gap'.map fun t => (t.kind, t.text)) :
    GapsAlike hidden gap gap' := by
  have kinds : gap.map (·.kind) = gap'.map (·.kind) := by
    have firsts := congrArg (List.map Prod.fst) same
    rwa [List.map_map, List.map_map] at firsts
  have shown_eq (tokens : List Token) : shown hidden tokens =
      (tokens.map fun t => (t.kind, t.text)).filter fun t => !hidden t.1 := by
    rw [shown, List.filter_map]
    rfl
  have tag_eq (tokens : List Token) : beginsWithTag tokens =
      (tokens.map (·.kind)).head?.any (· == .closeTag) := by
    rw [beginsWithTag, List.head?_map]
    cases tokens.head? <;> rfl
  exact ⟨by rw [shown_eq, shown_eq, same], by rw [tag_eq, tag_eq, kinds]⟩

/-- The leaves for trivia show the same tokens. -/
theorem allWithout_map_leaf (tokens : List Token) :
    Tree.allWithout hidden (tokens.map Token.leaf) =
      (shown hidden tokens).map fun t => .leaf t.1 t.2 := by
  induction tokens with
  | nil => rw [List.map_nil, Tree.allWithout, shown, List.filter_nil, List.map_nil, List.map_nil]
  | cons t tokens ih =>
      rw [List.map_cons, Tree.allWithout, ih, shown, shown, List.filter_cons, Token.leaf, Tree.isLeaf,
        Tree.kind, Tree.without]
      cases hidden t.kind with
      | true => rfl
      | false => rfl

namespace Parsing.Alike

variable {s t : Parsing}

/-- As many tokens are ahead. -/
theorem length_eq (alike : s.Alike hidden t) : s.ahead.length = t.ahead.length :=
  alike.ahead.length_eq

/-- The end is reached in both or in neither. -/
theorem isEmpty_eq (alike : s.Alike hidden t) : s.ahead.isEmpty = t.ahead.isEmpty := by
  rw [Bool.eq_iff_iff, List.isEmpty_iff_length_eq_zero, List.isEmpty_iff_length_eq_zero, alike.length_eq]

/-- The tokens ahead have the same kinds. -/
theorem kinds_eq (alike : s.Alike hidden t) :
    s.ahead.map (·.token.kind) = t.ahead.map (·.token.kind) := by
  have all := alike.ahead
  generalize s.ahead = ahead, t.ahead = ahead' at all
  induction all with
  | nil => rfl
  | cons first _ ih => rw [List.map_cons, List.map_cons, first.kind, ih]

/-- At each place ahead stands the same token, or none in both. -/
theorem lexeme_cases (alike : s.Alike hidden t) (n : Nat) :
    (s.ahead[n]? = none ∧ t.ahead[n]? = none) ∨
      ∃ l l', s.ahead[n]? = some l ∧ t.ahead[n]? = some l' ∧ LexemesAlike hidden l l' := by
  have all := alike.ahead
  generalize s.ahead = ahead, t.ahead = ahead' at all
  induction all generalizing n with
  | nil => exact .inl ⟨rfl, rfl⟩
  | @cons l l' _ _ first _ ih =>
      cases n with
      | zero => exact .inr ⟨l, l', rfl, rfl, first⟩
      | succ n => exact ih n

/-- Each token ahead has the same kind. -/
theorem kindAt_eq (alike : s.Alike hidden t) (n : Nat) : s.kindAt n = t.kindAt n := by
  rw [kindAt, kindAt]
  rcases alike.lexeme_cases n with ⟨first, second⟩ | ⟨l, l', first, second, token⟩
  · rw [first, second]
  · rw [first, second]
    exact token.kind

/-- **Every condition has the same answer.** -/
theorem holds_eq (alike : s.Alike hidden t) (condition : Lookahead) :
    condition.holds s = condition.holds t := by
  cases condition with
  | atEnd => rw [Lookahead.holds, Lookahead.holds, atEnd, atEnd, alike.isEmpty_eq]
  | kind n test => rw [Lookahead.holds, Lookahead.holds, alike.kindAt_eq]
  | kinds test => rw [Lookahead.holds, Lookahead.holds, alike.kinds_eq]
  | word n words =>
      rw [Lookahead.holds, Lookahead.holds]
      rcases alike.lexeme_cases n with ⟨first, second⟩ | ⟨l, l', first, second, token⟩
      · rw [first, second]
      · rw [first, second]
        simp only [token.text]
  | closeTag =>
      have tag := alike.gap.tag
      rw [Lookahead.holds, Lookahead.holds]
      generalize s.gap = gap, t.gap = gap' at tag
      cases gap <;> cases gap' <;> exact tag

/-- The trivia in front of the next token is put into both trees. -/
theorem flush (alike : s.Alike hidden t) : s.flush.Alike hidden t.flush := by
  refine ⟨⟨rfl, rfl⟩, alike.ahead, ?_, alike.faults⟩
  rw [Parsing.flush, Parsing.flush, Tree.allWithout_append, Tree.allWithout_append,
    Tree.allWithout_reverse, Tree.allWithout_reverse, allWithout_map_leaf, allWithout_map_leaf,
    alike.gap.shown, alike.built]

/-- A construct is opened in both. -/
theorem fresh (alike : s.Alike hidden t) : s.fresh.Alike hidden t.fresh :=
  ⟨alike.gap, alike.ahead, rfl, alike.faults⟩

/-- The finished parts are replaced in both. -/
theorem withBuilt (alike : s.Alike hidden t) {parts parts' : List Tree}
    (same : Tree.allWithout hidden parts = Tree.allWithout hidden parts') :
    ({ s with built := parts } : Parsing).Alike hidden { t with built := parts' } :=
  ⟨alike.gap, alike.ahead, same, alike.faults⟩

/-- **The next token is taken in both**, under the same kind. -/
theorem take (alike : s.Alike hidden t) (rename : Kind → Kind) :
    (s.take rename).Alike hidden (t.take rename) := by
  have flushed := alike.flush
  have all := flushed.ahead
  rw [Parsing.take, Parsing.take]
  cases first : s.flush.ahead with
  | nil =>
      rw [first] at all
      rw [List.forall₂_nil_left_iff.mp all]
      exact flushed
  | cons l rest =>
      rw [first] at all
      obtain ⟨l', rest', token, others, second⟩ := List.forall₂_cons_left_iff.mp all
      rw [second]
      refine ⟨token.after, others, ?_, flushed.faults⟩
      simp only [token.kind, token.text]
      exact Tree.allWithout_leaf_cons flushed.built _ _

/-- The same fault is recorded in both, each time at its own place. -/
theorem report (alike : s.Alike hidden t) (fault : Fault) :
    (s.report fault).Alike hidden (t.report fault) := by
  refine ⟨alike.gap, alike.ahead, alike.built, ?_⟩
  rw [Parsing.report, Parsing.report, List.map_cons, List.map_cons, alike.faults]

end Parsing.Alike

/-! ## (3) Productions -/

/-- `StepsAlike hidden step step'`: from parses that cannot be told apart, the steps give the same answer and
go on to such parses. -/
def StepsAlike (hidden : Kind → Bool) (step step' : Parsing → Bool × Parsing) : Prop :=
  ∀ s t, s.Alike hidden t → (step s).1 = (step' t).1 ∧ (step s).2.Alike hidden (step' t).2

/-- Steps that cannot be told apart are repeated equally often. -/
theorem StepsAlike.iterate {step step' : Parsing → Bool × Parsing} (alike : StepsAlike hidden step step')
    (n : Nat) {s t : Parsing} (same : s.Alike hidden t) :
    (iterate step n s).Alike hidden (iterate step' n t) := by
  induction n generalizing s t with
  | zero => exact same
  | succ n ih =>
      obtain ⟨answer, after⟩ := alike s t same
      rw [PhpMembers.iterate, PhpMembers.iterate]
      rcases first : step s with ⟨goesOn, s'⟩
      rcases second : step' t with ⟨goesOn', t'⟩
      rw [first, second] at answer after
      cases answer
      cases goesOn with
      | true => exact ih after
      | false => exact after

variable {ρ : Type}

/-- **No production tells parses apart that differ in hidden leaves only**, if the rules that it follows do
not. -/
theorem Production.run_alike {follow follow' : ρ → Parsing → Bool × Parsing}
    (rules : ∀ rule, StepsAlike hidden (follow rule) (follow' rule)) (p : Production ρ) :
    StepsAlike hidden (p.run follow) (p.run follow') := by
  -- The induction is on the production: each step looks at both parses in the same way.
  induction p with
  | answer ok => exact fun s t alike => ⟨rfl, alike⟩
  | look condition => exact fun s t alike => ⟨alike.holds_eq condition, alike⟩
  | bump => exact fun s t alike => ⟨rfl, alike.take id⟩
  | bumpAs kind => exact fun s t alike => ⟨rfl, alike.take fun _ => kind⟩
  | fault cause => exact fun s t alike => ⟨rfl, alike.report cause⟩
  | andThen first second ih₁ ih₂ => exact fun s t alike => ih₂ _ _ (ih₁ s t alike).2
  | branch condition yes no ih ihYes ihNo =>
      intro s t alike
      obtain ⟨answer, after⟩ := ih s t alike
      rw [run, run]
      rcases first : condition.run follow s with ⟨holds, s'⟩
      rcases second : condition.run follow' t with ⟨holds', t'⟩
      rw [first, second] at answer after
      cases answer
      cases holds with
      | true => exact ihYes _ _ after
      | false => exact ihNo _ _ after
  | byKind cases ih =>
      intro s t alike
      rw [run, run, alike.kindAt_eq 0]
      exact ih _ s t alike
  | node kind body ih =>
      intro s t alike
      obtain ⟨answer, inner⟩ := ih _ _ alike.flush.fresh
      refine ⟨answer, inner.withBuilt ?_⟩
      rw [Tree.allWithout_node_cons, Tree.allWithout_node_cons, Tree.allWithout_reverse,
        Tree.allWithout_reverse, inner.built, alike.flush.built]
  | group body ih =>
      intro s t alike
      obtain ⟨answer, inner⟩ := ih _ _ alike.flush.fresh
      refine ⟨answer, inner.withBuilt ?_⟩
      rw [Tree.allWithout_append, Tree.allWithout_append, inner.built, alike.flush.built]
  | wrap kind body ih =>
      intro s t alike
      obtain ⟨answer, inner⟩ := ih s t alike
      refine ⟨answer, inner.withBuilt ?_⟩
      rw [Tree.allWithout_node_cons, Tree.allWithout_node_cons, Tree.allWithout_reverse,
        Tree.allWithout_reverse, inner.built]
  | loop body ih =>
      intro s t alike
      rw [run, run, alike.length_eq]
      exact ⟨rfl, StepsAlike.iterate ih _ alike⟩
  | advances body ih =>
      intro s t alike
      obtain ⟨answer, after⟩ := ih s t alike
      rw [run, run]
      refine ⟨?_, after⟩
      simp only [answer, after.length_eq, alike.length_eq]
  | call rule => exact rules rule

/-- No rule of the grammar tells such parses apart. -/
theorem Rule.follow_alike (depth : Nat) (rule : Rule) :
    StepsAlike hidden (follow depth rule) (follow depth rule) := by
  induction depth generalizing rule with
  | zero => exact fun s t alike => ⟨rfl, alike⟩
  | succ depth ih => exact Production.run_alike ih rule.production

/-! ## (4) Files -/

/-- **The parser of a file does not tell such parses apart.** -/
theorem Parse.alike_ofTokens {tokens tokens' : List Token}
    (alike : (Parsing.ofTokens tokens).Alike hidden (Parsing.ofTokens tokens')) :
    (ofTokens tokens).tree.without hidden = (ofTokens tokens').tree.without hidden ∧
      (ofTokens tokens).errors.map (·.fault) = (ofTokens tokens').errors.map (·.fault) := by
  have done := (Production.run_alike
    (Rule.follow_alike (ruleDepth (Parsing.ofTokens tokens).ahead.length)) Grammar.sourceFile _ _ alike).2.flush
  rw [ofTokens, ofTokens, ← alike.length_eq]
  constructor
  · rw [Tree.without, Tree.without, Tree.allWithout_reverse, Tree.allWithout_reverse, done.built]
  · rw [List.map_reverse, List.map_reverse, done.faults]

/-- The tokens that the grammar sees, with the trivia between them left out. -/
def significant (tokens : List Token) : List (Kind × Text) := shown Kind.isTrivia tokens

/-- Trivia shows nothing. -/
theorem shown_trivia {tokens : List Token} (trivia : ∀ t ∈ tokens, t.isTrivia = true) :
    shown Kind.isTrivia tokens = [] := by
  rw [shown, List.map_eq_nil_iff, List.filter_eq_nil_iff]
  intro t mem
  have isTrivia : t.kind.isTrivia = true := trivia t mem
  rw [isTrivia]
  exact Bool.false_ne_true

/-- Tokens ahead with the same kinds and texts, and with trivia between them that ends no statement. -/
theorem forall₂_lexemesAlike {ahead ahead' : List Lexeme}
    (same : ahead.map (fun l => (l.token.kind, l.token.text)) =
      ahead'.map fun l => (l.token.kind, l.token.text))
    (gaps : ∀ l ∈ ahead, ∀ l' ∈ ahead', GapsAlike hidden l.after l'.after) :
    List.Forall₂ (LexemesAlike hidden) ahead ahead' := by
  induction ahead generalizing ahead' with
  | nil =>
      rw [List.map_eq_nil_iff.mp same.symm]
      exact .nil
  | cons l rest ih =>
      obtain ⟨l', rest', rfl, first, others⟩ := List.map_eq_cons_iff.mp same.symm
      obtain ⟨kind, text⟩ := Prod.mk.inj first
      refine .cons ⟨kind.symm, text.symm, gaps l List.mem_cons_self l' List.mem_cons_self⟩ ?_
      exact ih others.symm fun m mem m' mem' =>
        gaps m (List.mem_cons_of_mem _ mem) m' (List.mem_cons_of_mem _ mem')

/-- The tokens ahead at the start of a parse are the significant ones. -/
theorem significant_eq (tokens : List Token) :
    significant tokens = (Parsing.split tokens).2.map fun l => (l.token.kind, l.token.text) := by
  rw [significant, shown]
  induction tokens with
  | nil => rfl
  | cons t tokens ih =>
      rw [Parsing.split, List.filter_cons]
      by_cases trivia : t.isTrivia = true
      · have isTrivia : t.kind.isTrivia = true := trivia
        rw [if_pos trivia, isTrivia, ← ih]
        rfl
      · have significant : t.kind.isTrivia = false := Bool.eq_false_iff.mpr trivia
        rw [if_neg trivia, significant, List.map_cons, ← ih]
        rfl

/-- Trivia without a closing tag cannot be told from other such trivia. -/
theorem gapsAlike_of_trivia {gap gap' : List Token}
    (trivia : ∀ t ∈ gap, t.isTrivia = true ∧ t.kind ≠ .closeTag)
    (trivia' : ∀ t ∈ gap', t.isTrivia = true ∧ t.kind ≠ .closeTag) :
    GapsAlike Kind.isTrivia gap gap' := by
  have untagged {gap : List Token} (trivia : ∀ t ∈ gap, t.isTrivia = true ∧ t.kind ≠ .closeTag) :
      beginsWithTag gap = false := by
    cases gap with
    | nil => rfl
    | cons t _ => exact beq_eq_false_iff_ne.mpr (trivia t List.mem_cons_self).2
  refine ⟨?_, ?_⟩
  · rw [shown_trivia fun t mem => (trivia t mem).1, shown_trivia fun t mem => (trivia' t mem).1]
  · rw [untagged trivia, untagged trivia']

/-- Every token of the text stands in front of the first significant token, is one, or follows one. -/
theorem Parsing.mem_split {tokens : List Token} {t : Token}
    (mem : t ∈ (split tokens).1 ∨ ∃ l ∈ (split tokens).2, t ∈ l.after) : t ∈ tokens := by
  rw [← split_eq tokens]
  rcases mem with inGap | ⟨l, inAhead, inAfter⟩
  · exact List.mem_append_left _ inGap
  · exact List.mem_append_right _
      (List.mem_flatMap.mpr ⟨l, inAhead, List.mem_cons_of_mem _ inAfter⟩)

/-- **Trivia does not matter to the grammar.** Two lists of tokens without closing tags have the same
significant tokens, in kind and text, with whatever white space, comments and opening tags in between. Then
their trees are the same apart from trivia, and the parser reports the same faults in the same order, with
the same messages. -/
theorem Parse.same_of_significant (tokens tokens' : List Token)
    (untagged : ∀ t ∈ tokens, t.kind ≠ .closeTag) (untagged' : ∀ t ∈ tokens', t.kind ≠ .closeTag)
    (same : significant tokens = significant tokens') :
    (ofTokens tokens).tree.without Kind.isTrivia = (ofTokens tokens').tree.without Kind.isTrivia ∧
      (ofTokens tokens).errors.map (·.fault) = (ofTokens tokens').errors.map (·.fault) ∧
      (ofTokens tokens).errors.map (·.fault.message) = (ofTokens tokens').errors.map (·.fault.message) := by
  have gaps {tokens : List Token} (untagged : ∀ t ∈ tokens, t.kind ≠ .closeTag) :
      (∀ t ∈ (Parsing.split tokens).1, t.isTrivia = true ∧ t.kind ≠ .closeTag) ∧
        ∀ l ∈ (Parsing.split tokens).2, ∀ t ∈ l.after, t.isTrivia = true ∧ t.kind ≠ .closeTag := by
    obtain ⟨gap, ahead⟩ := Parsing.tidy_split tokens
    exact ⟨fun t mem => ⟨gap t mem, untagged t (Parsing.mem_split (.inl mem))⟩, fun l inAhead t mem =>
      ⟨(ahead l inAhead).2 t mem, untagged t (Parsing.mem_split (.inr ⟨l, inAhead, mem⟩))⟩⟩
  have alike : (Parsing.ofTokens tokens).Alike Kind.isTrivia (Parsing.ofTokens tokens') := by
    refine ⟨gapsAlike_of_trivia (gaps untagged).1 (gaps untagged').1, ?_, rfl, rfl⟩
    rw [significant_eq, significant_eq] at same
    exact forall₂_lexemesAlike same fun l mem l' mem' =>
      gapsAlike_of_trivia ((gaps untagged).2 l mem) ((gaps untagged').2 l' mem')
  obtain ⟨tree, faults⟩ := alike_ofTokens alike
  refine ⟨tree, faults, ?_⟩
  have messages := congrArg (List.map Fault.message) faults
  rwa [List.map_map, List.map_map] at messages

/-- A class with an unfinished member and a call, with no more blanks than the tokens need. -/
def crowdedTokens : List Token := tokenize "<?php class A \x7bpublic\x7d $a->b(1);".toList

/-- The same tokens with lines, comments and a second opening tag in between. -/
def airyTokens : List Token :=
  tokenize "<?php\nclass/* C */A\n\x7b public # none\n\x7d <?php $a -> b\n(\t1 ) ;".toList

/-- The two files are read alike, damage included. -/
theorem Parse.same_of_significant_airyTokens :
    significant crowdedTokens = significant airyTokens ∧
      (ofTokens crowdedTokens).tree.without Kind.isTrivia =
        (ofTokens airyTokens).tree.without Kind.isTrivia ∧
      (ofTokens crowdedTokens).errors.map (·.fault.message) =
        (ofTokens airyTokens).errors.map (·.fault.message) := by
  have same : significant crowdedTokens = significant airyTokens := by decide +kernel
  obtain ⟨tree, -, messages⟩ := same_of_significant crowdedTokens airyTokens (by decide +kernel)
    (by decide +kernel) same
  exact ⟨same, tree, messages⟩

end PhpMembers
