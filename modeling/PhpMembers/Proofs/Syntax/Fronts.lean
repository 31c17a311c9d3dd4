import PhpMembers.Proofs.Syntax.Applied

/-! # What class-likes and use declarations begin with

In the tree of every text, damaged or not, a class-like with a token of its own begins with one: with a modifier
or with its keyword. Where the text has ended in front of the keyword, no further token is taken, so there is none
behind a part that is no token. It follows that everything that a class-like contains begins behind its front. A use
declaration is read only where its keyword is ahead, so it has that token.

* `Production.leaves_run` : where the text has ended, no token is taken.
* `Production.follows`, `Production.run_congr` : the rules that a production follows.
* `Fronted`, `Parse.fronted_ofTokens` : the tokens of class-likes and use declarations.
* `Cursor.start_lt_of_mem_elements`, `Cursor.strictly_within` : what a class-like contains lies inside of it.
* `Cursor.exists_token_of_useDecl` : a use declaration has a token. -/

namespace PhpMembers

/-- The kinds of nodes whose tokens are in question. -/
def Kind.isFronted (kind : Kind) : Bool := kind.isClassLike || kind == .useDecl

/-- A class-like with a token of its own begins with one, and a use declaration has a token. -/
structure Fronted (kind : Kind) (parts : List Tree) : Prop where
  /-- The front of a class-like. -/
  classLike : kind.isClassLike = true → (∃ part ∈ parts, part.isLeaf = true) →
    ∃ first rest, parts = first :: rest ∧ first.isLeaf = true
  /-- The keyword of a use declaration. -/
  useDecl : kind = .useDecl → ∃ part ∈ parts, part.isLeaf = true

/-! ## (1) Behind the end of a text -/

/-- `s.Over`: nothing is left, not even trivia. -/
def Parsing.Over (s : Parsing) : Prop := s.ahead = [] ∧ s.gap = []

/-- Nothing can be taken when nothing is left. -/
theorem Parsing.Over.take {s : Parsing} (spent : s.Over) (rename : Kind → Kind) : s.take rename = s := by
  obtain ⟨gap, ahead, stop, built, errors⟩ := s
  obtain ⟨rfl, rfl⟩ := spent
  rfl

/-- Behind the last token all trivia is taken. -/
theorem Parsing.over_take {s : Parsing} (ended : s.ahead = []) (rename : Kind → Kind) : (s.take rename).Over := by
  obtain ⟨gap, ahead, stop, built, errors⟩ := s
  obtain rfl := ended
  exact ⟨rfl, rfl⟩

namespace Production

variable {ρ : Type} {follow : ρ → Parsing → Bool × Parsing}

/-- `s.EndsIn t`: nothing is left after the step, and the tokens in the open construct were there before. -/
def EndsIn (s t : Parsing) : Prop := t.Over ∧ ∀ part ∈ t.built, part.isLeaf = true → part ∈ s.built

/-- Nothing is done. -/
theorem EndsIn.refl {s : Parsing} (spent : s.Over) : EndsIn s s := ⟨spent, fun _ mem _ => mem⟩

/-- One step after the other. -/
theorem EndsIn.trans {s t u : Parsing} (first : EndsIn s t) (second : EndsIn t u) : EndsIn s u :=
  ⟨second.1, fun part mem leaf => first.2 part (second.2 part mem leaf) leaf⟩

/-- **Where the text has ended, no token is taken.** -/
theorem leaves_run (rules : ∀ rule s, s.Over → EndsIn s (follow rule s).2) (p : Production ρ) {s : Parsing}
    (spent : s.Over) : EndsIn s (p.run follow s).2 := by
  -- At the end no trivia is left, so opening a construct adds nothing either.
  induction p generalizing s with
  | answer ok => exact .refl spent
  | look condition => exact .refl spent
  | bump =>
      rw [run, spent.take]
      exact .refl spent
  | bumpAs kind =>
      rw [run, spent.take]
      exact .refl spent
  | fault cause => exact ⟨spent, fun _ mem _ => mem⟩
  | andThen first second ih₁ ih₂ => exact (ih₁ spent).trans (ih₂ (ih₁ spent).1)
  | branch condition yes no ih ihYes ihNo =>
      have before := ih spent
      exact branch_cases (P := fun result => EndsIn s result.2) (fun _ => before.trans (ihYes before.1))
        (fun _ => before.trans (ihNo before.1))
  | byKind cases ih => exact ih _ spent
  | node kind body ih =>
      have flushed : s.flush.fresh.Over := ⟨spent.1, rfl⟩
      refine ⟨(ih flushed).1, fun part mem leaf => ?_⟩
      rcases List.mem_cons.mp mem with rfl | before
      · cases leaf
      · have silent : s.flush.built = s.built := by rw [Parsing.flush, spent.2]; rfl
        rwa [silent] at before
  | group body ih =>
      have flushed : s.flush.fresh.Over := ⟨spent.1, rfl⟩
      refine ⟨(ih flushed).1, fun part mem leaf => ?_⟩
      rcases List.mem_append.mp mem with inside | before
      · exact absurd ((ih flushed).2 part inside leaf) List.not_mem_nil
      · have silent : s.flush.built = s.built := by rw [Parsing.flush, spent.2]; rfl
        rwa [silent] at before
  | wrap kind body ih =>
      refine ⟨(ih spent).1, fun part mem leaf => ?_⟩
      rw [List.mem_singleton.mp mem] at leaf
      cases leaf
  | loop body ih =>
      exact iterate_induction (P := fun t => EndsIn s t) (fun t kept => kept.trans (ih kept.1)) _ (.refl spent)
  | advances body ih => exact ih spent
  | call rule => exact rules rule s spent

end Production

/-- The same for the rules of the grammar. -/
theorem Rule.leaves_follow (depth : Nat) (rule : Rule) (s : Parsing) (spent : s.Over) :
    Production.EndsIn s (Rule.follow depth rule s).2 := by
  induction depth generalizing rule s with
  | zero => exact .refl spent
  | succ depth ih => exact Production.leaves_run ih rule.production spent

/-! ## (2) The rules that a production follows -/

namespace Production

variable {ρ : Type} {follow follow' : ρ → Parsing → Bool × Parsing} {test : ρ → Bool}

/-- Whether all rules that a production follows pass a test. -/
def follows (test : ρ → Bool) : Production ρ → Bool
  | answer _ | look _ | bump | bumpAs _ | fault _ => true
  | andThen first second => first.follows test && second.follows test
  | branch condition yes no => condition.follows test && yes.follows test && no.follows test
  | byKind cases => Kind.all.all fun k => (cases k).follows test
  | node _ body | wrap _ body | group body | loop body | advances body => body.follows test
  | call rule => test rule

/-- **What a production does is settled by the rules that it follows.** -/
theorem run_congr (same : ∀ rule, test rule = true → follow rule = follow' rule) (p : Production ρ)
    (follows : p.follows test = true) : p.run follow = p.run follow' := by
  induction p with
  | answer ok => rfl
  | look condition => rfl
  | bump => rfl
  | bumpAs kind => rfl
  | fault cause => rfl
  | andThen first second ih₁ ih₂ =>
      obtain ⟨follows₁, follows₂⟩ := Bool.and_eq_true_iff.mp follows
      funext s
      rw [run, run, ih₁ follows₁, ih₂ follows₂]
  | branch condition yes no ih ihYes ihNo =>
      obtain ⟨follows, followsNo⟩ := Bool.and_eq_true_iff.mp follows
      obtain ⟨follows, followsYes⟩ := Bool.and_eq_true_iff.mp follows
      funext s
      rw [run, run, ih follows, ihYes followsYes, ihNo followsNo]
  | byKind cases ih =>
      funext s
      rw [run, run, ih _ (List.all_eq_true.mp follows _ (Kind.mem_all _))]
  | node kind body ih | group body ih | wrap kind body ih | loop body ih | advances body ih =>
      funext s
      rw [run, run, ih follows]
  | call rule => exact same rule follows

end Production

/-! ## (3) Class-likes and use declarations -/

/-- Whether only tokens are in the open construct. -/
def Parsing.Flat (s : Parsing) : Prop := ∀ part ∈ s.built, part.isLeaf = true

/-- A token is a token. -/
theorem Parsing.Flat.take {s : Parsing} (flat : s.Flat) (rename : Kind → Kind) : (s.take rename).Flat := by
  have flushed : s.flush.Flat := by
    intro part mem
    rcases List.mem_append.mp mem with trivia | before
    · obtain ⟨t, -, rfl⟩ := List.mem_map.mp (List.mem_reverse.mp trivia)
      rfl
    · exact flat part before
  rw [Parsing.take]
  split
  · exact flushed
  · exact List.forall_mem_cons.mpr ⟨rfl, flushed⟩

/-- The rules other than that for use declarations. -/
def Rule.isOther (rule : Rule) : Bool := rule != .useDecl

namespace Grammar

open Production

variable {depth : Nat}

/-- Modifiers are tokens. -/
theorem flat_eatWhile (kinds : List Kind) {s : Parsing} (flat : s.Flat) :
    ((eatWhile kinds : Grammar).run (Rule.follow depth) s).2.Flat := by
  refine iterate_induction (P := Parsing.Flat) (fun t kept => ?_) _ flat
  exact branch_cases (P := fun result => result.2.Flat) (fun _ => kept.take id) (fun _ => kept)

/-- What begins with a token, behind modifiers if there are any, has a token in front if it has one at all. -/
theorem exists_first_of_bump (rest : Grammar) (keeps : rest.keeps = true) {s : Parsing} (flat : s.Flat)
    (some : ∃ part ∈ ((andThen bump rest).run (Rule.follow depth) s).2.built.reverse, part.isLeaf = true) :
    ∃ first more, ((andThen bump rest).run (Rule.follow depth) s).2.built.reverse = first :: more ∧
      first.isLeaf = true := by
  rw [run, run] at some ⊢
  have later := built_run (Rule.built_follow depth) rest keeps (s.take id)
  obtain ⟨added, all⟩ := later
  rcases reversed : (s.take id).built.reverse with _ | ⟨first, more⟩
  · -- Nothing is there yet although a token was to be taken, so the text has ended.
    have none : (s.take id).built = [] := List.reverse_eq_nil_iff.mp reversed
    have ended : s.ahead = [] := by
      rcases ahead : s.ahead with _ | ⟨next, others⟩
      · rfl
      · rw [Parsing.take, Parsing.flush, ahead] at none
        cases none
    obtain ⟨part, mem, leaf⟩ := some
    have spent := Parsing.over_take ended id
    have before := (leaves_run (Rule.leaves_follow depth) rest spent).2 part (List.mem_reverse.mp mem) leaf
    rw [none] at before
    cases before
  · refine ⟨first, more ++ added.reverse, ?_, ?_⟩
    · rw [← all, List.reverse_append, reversed, List.cons_append]
    · refine (flat.take id) first (List.mem_reverse.mp ?_)
      rw [reversed]
      exact List.mem_cons_self

/-- What begins with a token that is ahead has this token. -/
theorem exists_leaf_of_bump (rest : Grammar) (keeps : rest.keeps = true) {s : Parsing} (more : s.kindAt 0 ≠ .error) :
    ∃ part ∈ ((andThen bump rest).run (Rule.follow depth) s).2.built.reverse, part.isLeaf = true := by
  obtain ⟨text, taken⟩ := Parsing.mem_built_take more id
  have kept := (built_run (Rule.built_follow depth) rest keeps (s.take id)).subset taken
  exact ⟨_, List.mem_reverse.mpr kept, rfl⟩

/-- What other rules build is not in question. -/
theorem fronted_of_not_isFronted (kind : Kind) (parts : List Tree) (other : (!kind.isFronted) = true) :
    Fronted kind parts := by
  obtain ⟨plain, noUse⟩ : kind.isClassLike = false ∧ kind ≠ .useDecl := by
    simpa [Kind.isFronted] using other
  refine ⟨fun isClassLike => ?_, fun isUse => absurd isUse noUse⟩
  rw [isClassLike] at plain
  cases plain

/-- **What follows no use declaration, and builds no class-like itself, keeps the condition.** -/
theorem fronted_run (rules : ∀ rule s, rule.isOther = true → s.Tidy → s.BuiltWith Fronted →
      (Rule.follow depth rule s).2.BuiltWith Fronted)
    (p : Grammar) (follows : p.follows Rule.isOther = true)
    (yields : p.yields (fun _ => true) (fun kind => !kind.isFronted) = true) {s : Parsing}
    (tidy : s.Tidy) (built : s.BuiltWith Fronted) : (p.run (Rule.follow depth) s).2.BuiltWith Fronted := by
  -- The rule for use declarations is not followed, so it might as well do nothing.
  let others (rule : Rule) (s : Parsing) : Bool × Parsing :=
    if rule.isOther then Rule.follow depth rule s else (true, s)
  have same : ∀ rule : Rule, rule.isOther = true → Rule.follow depth rule = others rule := fun rule other =>
    funext fun s => (if_pos other).symm
  have tidies : ∀ rule s, s.Tidy → (others rule s).2.Tidy := by
    intro rule s tidy
    by_cases other : rule.isOther = true
    · rw [← same rule other]
      exact Rule.tidy_follow depth rule s tidy
    · rw [show others rule s = (true, s) from if_neg other]
      exact tidy
  have kept : ∀ rule s, s.Tidy → s.BuiltWith Fronted → (others rule s).2.BuiltWith Fronted := by
    intro rule s tidy built
    by_cases other : rule.isOther = true
    · rw [← same rule other]
      exact rules rule s other tidy built
    · rw [show others rule s = (true, s) from if_neg other]
      exact built
  rw [run_congr same p follows]
  exact builtWith_run fronted_of_not_isFronted tidies kept p yields tidy built

/-- A class-like behind its keyword. -/
def classLikeRest (kind : Kind) : Grammar :=
  seq [memberName .expectedClassName, if kind == .enumDecl then when (eat .colon) type else ok,
    extendsClause nameList, implementsClause, call .classBody]

set_option maxRecDepth 2000 in
/-- The rule for class-likes builds them with a token in front. -/
theorem fronted_classLike (rules : ∀ rule s, rule.isOther = true → s.Tidy → s.BuiltWith Fronted →
      (Rule.follow depth rule s).2.BuiltWith Fronted)
    {s : Parsing} (tidy : s.Tidy) (built : s.BuiltWith Fronted) :
    (classLike.run (Rule.follow depth) s).2.BuiltWith Fronted := by
  let modified := ((eatWhile classModifiers : Grammar).run (Rule.follow depth) s.flush.fresh).2
  have flat : modified.Flat := flat_eatWhile classModifiers fun _ mem => absurd mem List.not_mem_nil
  have modifiedTidy : modified.Tidy := tidy_run (Rule.tidy_follow depth) (eatWhile classModifiers) tidy.opened
  have kinds : ∀ kind ∈ Kind.all, (classLikeRest (classLikeKind kind)).keeps = true ∧
      (andThen bump (classLikeRest (classLikeKind kind))).follows Rule.isOther = true ∧
      (andThen bump (classLikeRest (classLikeKind kind))).yields (fun _ => true) (fun kind => !kind.isFronted) = true ∧
      classLikeKind kind ≠ .useDecl := by
    decide
  obtain ⟨keeps, follows, yields, noUse⟩ := kinds _ (Kind.mem_all (modified.kindAt 0))
  have inside : ((andThen bump (classLikeRest (classLikeKind (modified.kindAt 0)))).run (Rule.follow depth)
      modified).2.BuiltWith Fronted :=
    fronted_run rules _ follows yields modifiedTidy
      (fronted_run rules (eatWhile classModifiers) (by decide) (by decide) tidy.opened
        fun _ mem => absurd mem List.not_mem_nil)
  exact built.flush.group (inside.wrap ⟨fun _ => exists_first_of_bump _ keeps flat, fun isUse => absurd isUse noUse⟩)

/-- The rule for use declarations builds them with a token where their keyword is ahead. -/
theorem fronted_useDecl (rules : ∀ rule s, rule.isOther = true → s.Tidy → s.BuiltWith Fronted →
      (Rule.follow depth rule s).2.BuiltWith Fronted)
    {s : Parsing} (tidy : s.Tidy) (built : s.BuiltWith Fronted) (ahead : s.kindAt 0 = .useKw) :
    (useDecl.run (Rule.follow depth) s).2.BuiltWith Fronted := by
  let rest : Grammar := seq [useMark, commaList useClause, statementEnd]
  have inside : ((andThen bump rest).run (Rule.follow depth) s.flush.fresh).2.BuiltWith Fronted :=
    fronted_run rules _ (by decide) (by decide) tidy.opened fun _ mem => absurd mem List.not_mem_nil
  have more : s.flush.fresh.kindAt 0 ≠ .error := by
    show s.kindAt 0 ≠ .error
    rw [ahead]
    decide
  have token := @exists_leaf_of_bump depth rest (by decide) _ more
  have shape : useDecl = .node .useDecl (andThen bump rest) := rfl
  rw [shape, run]
  refine built.flush.node inside ⟨fun isClassLike => ?_, fun _ => token⟩
  cases isClassLike

/-- An expression follows no use declaration. -/
theorem follows_operatorChain (power : Nat) : (operatorChain power).follows Rule.isOther = true := by
  have nameRef : nameRef.follows Rule.isOther = true := by decide
  have operand (operator : Kind) (right : Nat) : (infixOperand operator right).follows Rule.isOther = true := by
    unfold infixOperand
    split
    case h_3 => rw [follows, nameRef]; rfl
    all_goals rfl
  have step : (infixStep power).follows Rule.isOther = true := by
    obtain ⟨cases, same, each⟩ := infixStep_induction power (fun _ p => p.follows Rule.isOther = true) (fun _ => rfl)
      fun operator _ p _ => by simp [also, ok, follows, operand]
    rw [same]
    exact List.all_eq_true.mpr each
  rw [operatorChain, follows, follows, follows, follows, step]
  rfl

set_option maxRecDepth 2000 in
/-- Of all statements only the one with the keyword is a use declaration. -/
theorem exists_cases_anyStatement : ∃ cases : Kind → Grammar, anyStatement = byKind cases ∧
    cases .useKw = call .useDecl ∧ ∀ kind, kind ≠ .useKw → (cases kind).follows Rule.isOther = true := by
  refine ⟨_, rfl, rfl, ?_⟩
  suffices all : ∀ kind ∈ Kind.all, kind ≠ .useKw → _ from fun kind ne => all kind (Kind.mem_all kind) ne
  decide

end Grammar

set_option maxRecDepth 2000 in
/-- All rules but two build no class-likes and no use declarations. -/
theorem Rule.yields_not_isFronted (rule : Rule) (notClassLike : rule ≠ .classLike) (other : rule.isOther = true) :
    rule.production.yields (fun _ => true) (fun kind => !kind.isFronted) = true := by
  cases rule with
  | classLike => exact absurd rfl notClassLike
  | useDecl => cases other
  | expression power =>
      have chain := @Grammar.yields_operatorChain (fun kind => !kind.isFronted) rfl (by decide) power
      exact Production.yields_mono (fun _ _ => rfl) (fun _ same => same) _ chain
  | _ => decide

/-- All rules but that for statements follow no use declaration. -/
theorem Rule.follows_isOther (rule : Rule) (notStatement : rule ≠ .statement) :
    rule.production.follows Rule.isOther = true := by
  cases rule with
  | statement => exact absurd rfl notStatement
  | expression power => exact Grammar.follows_operatorChain power
  | _ => decide

/-- **All rules keep the condition**, however many rules may be open, if that for use declarations is followed only
where their keyword is ahead. -/
theorem Rule.fronted_follow (depth : Nat) (rule : Rule) (s : Parsing) (ahead : rule = .useDecl → s.kindAt 0 = .useKw)
    (tidy : s.Tidy) (built : s.BuiltWith Fronted) : (Rule.follow depth rule s).2.BuiltWith Fronted := by
  induction depth generalizing rule s with
  | zero => exact built
  | succ depth ih =>
      have rules : ∀ rule s, rule.isOther = true → s.Tidy → s.BuiltWith Fronted →
          (Rule.follow depth rule s).2.BuiltWith Fronted := fun rule s other =>
        ih rule s fun isUse => absurd isUse (bne_iff_ne.mp other)
      by_cases isUse : rule = .useDecl
      · subst isUse
        exact Grammar.fronted_useDecl rules tidy built (ahead rfl)
      have other : rule.isOther = true := bne_iff_ne.mpr isUse
      by_cases isClassLike : rule = .classLike
      · subst isClassLike
        exact Grammar.fronted_classLike rules tidy built
      -- Of the other rules only the one for statements leads to a use declaration, and only at its keyword.
      have yields := rule.yields_not_isFronted isClassLike other
      by_cases isStatement : rule = .statement
      · subst isStatement
        obtain ⟨cases, shape, atUse, others⟩ := Grammar.exists_cases_anyStatement
        have run : Rule.follow (depth + 1) .statement s = (cases (s.kindAt 0)).run (Rule.follow depth) s := by
          rw [Rule.follow, show Rule.statement.production = .byKind cases from shape, Production.run]
        have yields : (cases (s.kindAt 0)).yields (fun _ => true) (fun kind => !kind.isFronted) = true := by
          rw [show Rule.statement.production = .byKind cases from shape] at yields
          exact List.all_eq_true.mp yields _ (Kind.mem_all _)
        rw [run]
        by_cases atKeyword : s.kindAt 0 = .useKw
        · rw [atKeyword, atUse, Production.run]
          exact ih .useDecl s (fun _ => atKeyword) tidy built
        · exact Grammar.fronted_run rules _ (others _ atKeyword) yields tidy built
      · exact Grammar.fronted_run rules rule.production (rule.follows_isOther isStatement) yields tidy built

/-- **In the tree of every text class-likes and use declarations have their tokens.** -/
theorem Parse.fronted_ofTokens (tokens : List Token) : (Parse.ofTokens tokens).tree.Everywhere Fronted := by
  let start := Parsing.ofTokens tokens
  let depth := ruleDepth start.ahead.length
  have rules : ∀ rule s, rule.isOther = true → s.Tidy → s.BuiltWith Fronted →
      (Rule.follow depth rule s).2.BuiltWith Fronted := fun rule s other =>
    Rule.fronted_follow depth rule s fun isUse => absurd isUse (bne_iff_ne.mp other)
  have follows : Grammar.sourceFile.follows Rule.isOther = true := by decide
  have yields : Grammar.sourceFile.yields (fun _ => true) (fun kind => !kind.isFronted) = true :=
    Grammar.yields_sourceFile rfl
  have built : (Grammar.sourceFile.run (Rule.follow depth) start).2.BuiltWith Fronted :=
    Grammar.fronted_run rules Grammar.sourceFile follows yields (Parsing.tidy_split tokens)
      fun _ mem => absurd mem List.not_mem_nil
  exact .node (Grammar.fronted_of_not_isFronted _ _ rfl) fun part mem => built.flush part (List.mem_reverse.mp mem)

/-! ## (4) Places in class-likes -/

namespace Cursor

variable {source : Text} {d e token : Cursor}

/-- **What a class-like with a token of its own contains begins behind its front**, unless it is the first token. -/
theorem start_lt_of_mem_elements (mem : d ∈ (root (Parse.ofText source).tree).elements)
    (isClassLike : d.kind.isClassLike = true) (inTokens : token ∈ d.tokens) (inside : e ∈ d.elements) (ne : e ≠ d)
    (node : e.isLeaf = false) : d.start < e.start := by
  obtain ⟨isPart, leaf⟩ := List.mem_filter.mp inTokens
  have isNode : d.isLeaf = false := isLeaf_of_mem_elements inside node
  have all : (root (Parse.ofText source).tree).tree.Everywhere Fronted := Parse.fronted_ofTokens (tokenize source)
  obtain ⟨first, rest, parts, firstLeaf⟩ := ((everywhere_of_mem_elements all mem).here isNode).classLike isClassLike
    ⟨token.tree, tree_mem_of_mem_childrenFrom isPart, leaf⟩
  have children : d.children = childrenFrom d [] d.start (first :: rest) := by rw [Cursor.children, parts]
  rw [childrenFrom] at children
  obtain ⟨part, inChildren, below⟩ := (mem_elements_iff.mp inside).resolve_left ne
  have inFile : ∀ {part : Cursor}, part ∈ d.children → part ∈ (root (Parse.ofText source).tree).elements :=
    children_subset_elements mem
  have frontInFile := inFile (by rw [children]; exact List.mem_cons_self)
  have filled := start_lt_stop_of_isLeaf frontInFile firstLeaf
  rw [children] at inChildren
  rcases List.mem_cons.mp inChildren with rfl | later
  · -- Nothing is inside of a token.
    cases (isLeaf_of_mem_elements below node).symm.trans firstLeaf
  · have inOrder := childrenFrom_pairwise_le d [] (first :: rest) d.start
    rw [childrenFrom] at inOrder
    have behind := (List.pairwise_cons.mp inOrder).1 part later
    have within := within_of_mem_elements (stop_of_mem_elements (inFile (by rw [children]; exact inChildren))) below
    exact Nat.lt_of_lt_of_le filled (behind.trans within.1)

/-- A place with a token somewhere below is not empty. -/
theorem start_lt_stop_of_mem_tokens (mem : d ∈ (root (Parse.ofText source).tree).elements) (below : e ∈ d.elements)
    (inTokens : token ∈ e.tokens) : d.start < d.stop := by
  obtain ⟨isPart, leaf⟩ := List.mem_filter.mp inTokens
  have inFile := mem_elements_trans below mem
  have filled := start_lt_stop_of_isLeaf (children_subset_elements inFile isPart) leaf
  have inner := within_of_mem_children (stop_of_mem_elements inFile) isPart
  have outer := within_of_mem_elements (stop_of_mem_elements mem) below
  omega

/-- **What a class-like with a token of its own contains lies strictly inside of it**, if there is a token in it. -/
theorem strictly_within (mem : d ∈ (root (Parse.ofText source).tree).elements) (isClassLike : d.kind.isClassLike = true)
    {front : Cursor} (inFront : front ∈ d.tokens) {part : Cursor} (inside : part ∈ d.elements)
    (plain : part.kind.isClassLike = false) (below : e ∈ part.elements) (inTokens : token ∈ e.tokens) :
    d.start < part.start ∧ part.start < d.stop := by
  have ne : part ≠ d := by
    rintro rfl
    rw [isClassLike] at plain
    cases plain
  have inner : e.isLeaf = false := by
    refine Bool.eq_false_iff.mpr fun leaf => ?_
    rw [tokens, children_of_isLeaf leaf] at inTokens
    cases inTokens
  have filled := start_lt_stop_of_mem_tokens (mem_elements_trans inside mem) below inTokens
  have within := within_of_mem_elements (stop_of_mem_elements mem) inside
  exact ⟨start_lt_of_mem_elements mem isClassLike inFront inside ne (isLeaf_of_mem_elements below inner), by omega⟩

/-- **A use declaration has a token.** -/
theorem exists_token_of_useDecl (mem : d ∈ (root (Parse.ofText source).tree).elements) (node : d.isLeaf = false)
    (isUse : d.kind = .useDecl) : ∃ token, token ∈ d.tokens := by
  have all : (root (Parse.ofText source).tree).tree.Everywhere Fronted := Parse.fronted_ofTokens (tokenize source)
  obtain ⟨part, inParts, leaf⟩ := ((everywhere_of_mem_elements all mem).here node).useDecl isUse
  obtain ⟨token, inChildren, rfl⟩ := exists_mem_childrenFrom inParts d [] d.start
  exact ⟨token, List.mem_filter.mpr ⟨inChildren, leaf⟩⟩

/-- **Use declarations in a class-like lie strictly inside of it**, if it has a token of its own. -/
theorem within_of_mem_useDecl (mem : d ∈ (root (Parse.ofText source).tree).elements)
    (isClassLike : d.kind.isClassLike = true) {front : Cursor} (inFront : front ∈ d.tokens)
    (inside : e ∈ d.ofKind .useDecl) : d.start < e.start ∧ e.start < d.stop := by
  obtain ⟨inNodes, kind⟩ := List.mem_filter.mp inside
  obtain ⟨inClass, node⟩ := List.mem_filter.mp inNodes
  have isUse : e.kind = .useDecl := beq_iff_eq.mp kind
  have plain : e.kind.isClassLike = false := by rw [isUse]; rfl
  obtain ⟨token, inTokens⟩ :=
    exists_token_of_useDecl (mem_elements_trans inClass mem) (Bool.not_eq_true' _ ▸ node) isUse
  exact strictly_within mem isClassLike inFront inClass plain e.self_mem_elements inTokens

end Cursor

end PhpMembers
