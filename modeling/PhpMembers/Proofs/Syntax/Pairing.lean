import PhpMembers.Proofs.Syntax.Braces

/-! # The grammar takes braces in pairs

In a parse without faults every rule takes braces in pairs. For most rules this can be read off their
productions. Six have an argument of their own: the operators of an expression are read with any power, a
statement looks past the modifiers of a class, a class-like is recognised behind them, a class body is what
the others are shown to leave alone, the keyword of a class without a name is taken untested, and a group in
braces is followed from inside itself.

* `Rule.pairs_of_balances` : rules for which it can be read off.
* `Rule.pairs_statement`, `Rule.pairs_classLike`, `Rule.pairs_classBody`, `Rule.pairs_anonClass`,
  `Rule.pairs_braced` : the others.
* `Rule.allPair`, `Parse.paired_ofTokens` : all rules, and whole files. -/

namespace PhpMembers

open Production

/-! ## (1) Rules for which it can be read off -/

/-- Whether it can be read off a rule that it takes braces in pairs, and in nodes only. -/
def Rule.balances (rule : Rule) : Bool :=
  rule.starts.all fun pattern =>
    rule.production.balances rule.rank (.ofPattern pattern) fun _ done =>
      done.braces == .bare && (done.moved || !rule.moves)

/-- A parse without faults in which a rule is followed. -/
structure Rule.Due (depth : Nat) (rule : Rule) (s : Parsing) : Prop where
  /-- Enough rules may be open. -/
  enough : rule.rank + 32 * s.ahead.length ≤ depth
  /-- The tokens ahead are as they were. -/
  tidy : s.Tidy
  /-- The braces of each node are in pairs. -/
  built : s.BuiltWith Paired
  /-- The rule reports no fault. -/
  clean : Clean s (rule.production.run (Rule.follow depth) s).2

/-- Nothing has been taken when a rule begins. -/
theorem Stage.Holds.initial {s : Parsing} (tidy : s.Tidy) :
    (Stage.start .bare false).Holds s.built s.ahead.length s :=
  .of_start tidy le_rfl (fun moved => absurd moved Bool.false_ne_true) ⟨[], rfl, braceless_nil⟩

/-- Only that nothing has been taken needs to be known. -/
theorem Stage.Holds.bare {stage : Stage} {base : List Tree} {limit : Nat} {s : Parsing}
    (holds : stage.Holds base limit s) (bare : (stage.braces == .bare) = true) :
    (Stage.start .bare false).Holds base limit s := by
  have fits := holds.braces
  rw [beq_iff_eq.mp bare] at fits
  exact .of_start holds.tidy holds.room (fun moved => absurd moved Bool.false_ne_true) fits

/-- What has to be reached for a rule to take braces in pairs, and in nodes only. -/
theorem Rule.Pairs.of_reached {rule : Rule} (group : rule ≠ .braced) {s : Parsing} {result : Bool × Parsing}
    (reached : Stage.Reached (fun _ done => done.braces == .bare && (done.moved || !rule.moves)) s.built
      s.ahead.length result) : rule.Pairs s result := by
  obtain ⟨done, known, holds, built⟩ := reached
  obtain ⟨bare, moved⟩ := Bool.and_eq_true_iff.mp known
  obtain ⟨added, parts, fits⟩ := holds.braces
  rw [beq_iff_eq.mp bare] at fits
  refine ⟨holds.tidy, built, fun moves => holds.moved ?_, ?_, fun isGroup => absurd isGroup group⟩
  · simpa [moves] using moved
  · exact ⟨added, parts, fun _ => fits, fun isGroup => absurd isGroup group⟩

/-- A rule that adds parts without braces of their own takes braces in pairs if these parts do. -/
theorem Rule.Pairs.of_parts {rule : Rule} (group : rule ≠ .braced) (still : rule.moves = false)
    {s t : Parsing} (start : s.Tidy) (parts : List Tree) (plain : Braceless (ownKinds parts.reverse))
    (shorter : t.ahead.length ≤ s.ahead.length) (tidy : t.Tidy)
    (built : { t with built := parts ++ s.flush.built }.BuiltWith Paired) (answer : Bool) :
    rule.Pairs s (answer, { t with built := parts ++ s.flush.built }) := by
  have outside := (Stage.Holds.initial start).put parts plain shorter tidy
    fun moved => absurd moved Bool.false_ne_true
  exact .of_reached group ⟨_, by rw [still]; rfl, outside, built⟩

namespace Rule

variable {depth : Nat} {s : Parsing}

/-- **A rule takes braces in pairs where this can be read off it.** -/
theorem pairs_of_balances (rules : AllPair depth) {rule : Rule} (balances : rule.balances = true)
    (group : rule ≠ .braced) (due : rule.Due depth s) {pattern : List (List Kind)}
    (listed : pattern ∈ rule.starts) (begins : ∀ n kinds, pattern[n]? = some kinds → s.kindAt n ∈ kinds) :
    rule.Pairs s (rule.production.run (Rule.follow depth) s) := by
  have holds : (Stage.ofPattern pattern).Holds s.built s.ahead.length s :=
    ⟨begins, ⟨[], rfl, braceless_nil⟩, le_rfl, fun moved => absurd moved Bool.false_ne_true, due.tidy⟩
  exact .of_reached group (balances_run rules due.enough rule.production
    (List.all_eq_true.mp balances pattern listed) (.inl rule.keeps_all) holds due.built due.clean)

end Rule

/-! ## (2) Expressions and statements -/

namespace Grammar

/-- Rounds that keep what is known of the braces. -/
theorem balances_loop {rank : Nat} {body : Grammar} {stage : Stage} {Q : Bool → Stage → Bool}
    (each : ∀ moved, body.balances rank (.start stage.braces moved)
      (fun _ done => done.braces == stage.braces) = true)
    (next : ∀ moved, Q true (.start stage.braces moved) = true) :
    (loop body).balances rank stage Q = true :=
  Bool.and_eq_true_iff.mpr ⟨each _, next _⟩

set_option maxRecDepth 2000 in
/-- An infix operator with its right operand takes braces in pairs. -/
theorem balances_infixOperand : ∀ operator ∈ Kind.all, ∀ p ∈ infixPower? operator, ∀ moved,
    (also (wrap p.kind (andThen bump (infixOperand operator p.right)))).balances 4
      ((Stage.start .bare moved).refine 0 [operator]) (fun _ done => done.braces == .bare) = true := by
  decide

/-- So does every infix operator that may follow, whatever its power. -/
theorem balances_infixStep (power : Nat) (moved : Bool) :
    (infixStep power).balances 4 (.start .bare moved) (fun _ done => done.braces == .bare) = true := by
  obtain ⟨cases, same, each⟩ := infixStep_induction power
    (fun operator p => p.balances 4 ((Stage.start .bare moved).refine 0 [operator])
      (fun _ done => done.braces == .bare) = true) (fun _ => rfl)
    fun operator listed p found => balances_infixOperand operator listed p found moved
  rw [same]
  exact List.all_eq_true.mpr each

end Grammar

/-- An expression takes braces in pairs. -/
theorem Rule.balances_expression (power : Nat) : (Rule.expression power).balances = true := by
  -- The power is a variable, so nothing can be evaluated as a whole.
  have rounds : (loop (Grammar.infixStep power)).balances 4 (.start .bare false)
      (fun _ done => done.braces == .bare) = true :=
    Grammar.balances_loop (Grammar.balances_infixStep power) fun _ => rfl
  have chain : (branch (call .unary) (loop (Grammar.infixStep power)) stop : Grammar).balances 4
      (.start .bare false) (fun _ done => done.braces == .bare) = true :=
    Bool.and_eq_true_iff.mpr ⟨rounds, rfl⟩
  have whole : (Grammar.operatorChain power).balances 4 (.ofPattern []) (fun _ done =>
      done.braces == .bare && (done.moved || true)) = true :=
    Bool.and_eq_true_iff.mpr ⟨Bool.and_eq_true_iff.mpr ⟨chain, rfl⟩, rfl⟩
  exact List.all_eq_true.mpr (List.forall_mem_singleton.mpr whole)

namespace Rule

variable {depth : Nat} {s : Parsing}

set_option maxRecDepth 2000 in
/-- A statement that does not begin with a modifier takes braces in pairs. -/
theorem balances_statement : Grammar.anyStatement.balances 5
    ((Stage.start .bare false).refine 0 (Kind.all.filter (!classModifiers.contains ·)))
    (fun _ done => done.braces == .bare && (done.moved || !Rule.statement.moves)) = true := by
  decide

/-- After a modifier, either the keyword of a class follows or an expression is read. -/
theorem run_anyStatement_of_modifier {follow : Rule → Parsing → Bool × Parsing}
    (modifier : s.kindAt 0 ∈ classModifiers) :
    Grammar.anyStatement.run follow s =
      (branch (look (.kinds modifiersThenClass)) (call .classLike) Grammar.expressionStatement).run
        follow s := by
  have choose (cases : Kind → Grammar) :
      (byKind cases).run follow s = (cases (s.kindAt 0)).run follow s := rfl
  simp only [classModifiers, List.mem_cons, List.not_mem_nil, or_false] at modifier
  rcases modifier with kind | kind | kind
  all_goals rw [Grammar.anyStatement, choose, kind]

/-- **A statement takes braces in pairs.** -/
theorem pairs_statement (rules : AllPair depth) (due : Rule.statement.Due depth s) :
    Rule.statement.Pairs s (Grammar.anyStatement.run (Rule.follow depth) s) := by
  have clean : Clean s (Grammar.anyStatement.run (Rule.follow depth) s).2 := due.clean
  have enough : 5 + 32 * s.ahead.length ≤ depth := due.enough
  by_cases modifier : s.kindAt 0 ∈ classModifiers
  · -- A stage knows single tokens ahead, not that a keyword stands behind any number of modifiers.
    rw [run_anyStatement_of_modifier modifier, run] at clean ⊢
    cases keyword : modifiersThenClass (s.ahead.map (·.token.kind)) with
    | true =>
        have look : (look (.kinds modifiersThenClass) : Grammar).run (Rule.follow depth) s = (true, s) := by
          rw [run, Lookahead.holds, keyword]
        rw [look] at clean ⊢
        have pairs := rules .classLike s (show 0 + _ < depth by omega) (.inr ⟨rfl, keyword⟩) due.tidy
          due.built clean
        obtain ⟨added, parts, plain, -⟩ := pairs.braces
        have group : Rule.statement ≠ .braced := by decide
        exact ⟨pairs.tidy, pairs.built, fun moves => absurd moves Bool.false_ne_true,
          ⟨added, parts, fun _ => plain (by decide), fun isGroup => absurd isGroup group⟩,
          fun isGroup => absurd isGroup group⟩
    | false =>
        have look : (look (.kinds modifiersThenClass) : Grammar).run (Rule.follow depth) s = (false, s) := by
          rw [run, Lookahead.holds, keyword]
        rw [look] at clean ⊢
        have balances : Grammar.expressionStatement.balances 5 (.start .bare false) (fun _ done =>
            done.braces == .bare && (done.moved || !Rule.statement.moves)) = true := by decide
        exact .of_reached (show Rule.statement ≠ .braced by decide)
          (balances_run rules enough Grammar.expressionStatement balances (.inl rfl) (.initial due.tidy)
            due.built clean)
  · have other : s.kindAt 0 ∈ Kind.all.filter (!classModifiers.contains ·) :=
      List.mem_filter.mpr ⟨Kind.mem_all _, by simpa using modifier⟩
    exact .of_reached (show Rule.statement ≠ .braced by decide)
      (balances_run rules enough Grammar.anyStatement balances_statement (.inl (keeps_all .statement))
        ((Stage.Holds.initial due.tidy).refine other) due.built clean)

end Rule

/-! ## (3) Class-likes -/

/-- The kind of the next token is the first kind ahead. -/
theorem Parsing.kindAt_of_head? (s : Parsing) {kind : Kind} (head : s.kinds.head? = some kind) :
    s.kindAt 0 = kind := by
  rw [kindAt]
  rw [kinds, List.head?_map, List.head?_eq_getElem?] at head
  obtain ⟨next, found, rfl⟩ := Option.map_eq_some_iff.mp head
  rw [found]

section Modifiers

variable {follow : Rule → Parsing → Bool × Parsing} {kinds : List Kind}

/-- A round of taking tokens of given kinds. -/
theorem Grammar.run_modifier (s : Parsing) :
    (branch (nextAmong kinds) bump stop : Grammar).run follow s =
      if kinds.contains (s.kindAt 0) then (true, s.take id) else (false, s) := by
  rw [nextAmong, run, run, Lookahead.holds]
  cases kinds.contains (s.kindAt 0) with
  | true => rfl
  | false => rfl

/-- Taking tokens of given kinds as often as possible leaves the tokens behind them. -/
theorem Grammar.kinds_eatWhile (noEnd : kinds.contains .error = false) (s : Parsing) :
    ((eatWhile kinds : Grammar).run follow s).2.kinds = s.kinds.dropWhile kinds.contains := by
  -- There are enough rounds, so the last one is at a token of another kind or at the end.
  have rounds (n : Nat) (t : Parsing) (enough : t.ahead.length < n) :
      (iterate ((branch (nextAmong kinds) bump stop : Grammar).run follow) n t).kinds =
        t.kinds.dropWhile kinds.contains := by
    induction n generalizing t with
    | zero => cases enough
    | succ n ih =>
        rw [iterate, Grammar.run_modifier]
        cases ahead : t.ahead with
        | nil =>
            have atEnd : t.kindAt 0 = .error := by simp [Parsing.kindAt, ahead]
            rw [if_neg (by rw [atEnd, noEnd]; exact Bool.false_ne_true)]
            simp [Parsing.kinds, ahead]
        | cons next rest =>
            have kind : t.kindAt 0 = next.token.kind := by simp [Parsing.kindAt, ahead]
            have all : t.kinds = next.token.kind :: rest.map (·.token.kind) := by simp [Parsing.kinds, ahead]
            rw [kind, all]
            by_cases taken : kinds.contains next.token.kind = true
            · have behind : (t.take id).ahead = rest := by rw [Parsing.ahead_take, ahead, List.tail_cons]
              have shorter : (t.take id).ahead.length < n := by
                rw [ahead, List.length_cons] at enough
                rw [behind]
                omega
              rw [if_pos taken, List.dropWhile_cons_of_pos taken]
              simp only
              rw [ih _ shorter, Parsing.kinds, behind]
            · rw [if_neg taken, List.dropWhile_cons_of_neg taken]
              exact all
  exact rounds (s.ahead.length + 1) s (Nat.lt_succ_self _)

end Modifiers

namespace Rule

variable {depth : Nat} {s : Parsing}

/-- The keywords of class-likes. -/
def classLikeKeywords : List Kind := [.classKw, .interfaceKw, .traitKw, .enumKw]

/-- Where a class-like begins, a keyword follows the modifiers. -/
theorem Begins.keyword (begins : Rule.classLike.Begins s) :
    ∃ keyword ∈ classLikeKeywords, (s.kinds.dropWhile classModifiers.contains).head? = some keyword := by
  rcases begins with ⟨pattern, listed, begins⟩ | ⟨-, modified⟩
  · obtain rfl := List.mem_singleton.mp listed
    have keyword : s.kindAt 0 ∈ classLikeKeywords := begins 0 _ rfl
    refine ⟨s.kindAt 0, keyword, ?_⟩
    have noModifier : ∀ kind ∈ classLikeKeywords, classModifiers.contains kind ≠ true := by decide
    cases ahead : s.ahead with
    | nil =>
        rw [Parsing.kindAt, ahead] at keyword
        exact absurd keyword (by decide)
    | cons next rest =>
        have kind : s.kindAt 0 = next.token.kind := by simp [Parsing.kindAt, ahead]
        have all : s.kinds = next.token.kind :: rest.map (·.token.kind) := by simp [Parsing.kinds, ahead]
        rw [kind] at keyword ⊢
        rw [all, List.dropWhile_cons_of_neg (noModifier _ keyword), List.head?_cons]
  · exact ⟨.classKw, by decide, beq_iff_eq.mp modified⟩

set_option maxRecDepth 2000 in
/-- **A class-like takes braces in pairs.** -/
theorem pairs_classLike (rules : AllPair depth) (due : Rule.classLike.Due depth s)
    (begins : Rule.classLike.Begins s) :
    Rule.classLike.Pairs s (Grammar.classLike.run (Rule.follow depth) s) := by
  let rest : Grammar := byKind fun kind => Grammar.classLikeAs (classLikeKind kind)
  let behind := ((eatWhile classModifiers : Grammar).run (Rule.follow depth) s.flush.fresh).2
  let inner := rest.run (Rule.follow depth) behind
  have enough : 0 + 32 * s.ahead.length ≤ depth := due.enough
  have clean : Clean s.flush.fresh inner.2 :=
    ⟨due.clean.errors, fun tree mem => due.clean.unbraced tree (List.mem_append_left _ mem)⟩
  obtain ⟨clean₁, clean₂⟩ := clean.split rest
    (errors_run (Rule.errors_follow depth) (eatWhile classModifiers) s.flush.fresh)
  -- The modifiers are no braces, and behind them stands the keyword.
  obtain ⟨done, bare, holds, built⟩ := balances_run rules enough (eatWhile classModifiers)
    (Q := fun _ done => done.braces == .bare) (by decide) (.inr rfl)
    (Stage.Holds.initial due.tidy).fresh .fresh clean₁
  obtain ⟨keyword, listed, next⟩ := begins.keyword
  have kind : behind.kindAt 0 = keyword := by
    have kinds : behind.kinds = s.kinds.dropWhile classModifiers.contains :=
      Grammar.kinds_eatWhile (by decide) s.flush.fresh
    rw [← kinds] at next
    exact behind.kindAt_of_head? next
  have balances : ∀ keyword ∈ classLikeKeywords,
      (Grammar.classLikeAs (classLikeKind keyword)).balances 0 ((Stage.start .bare false).refine 0 [keyword])
        (fun _ done => done.braces == .bare) = true := by decide
  have choose : (Grammar.classLikeAs (classLikeKind keyword)).run (Rule.follow depth) behind = inner := by
    rw [← kind]
    rfl
  obtain ⟨done, bare, holds, built⟩ := balances_run rules enough
    (Grammar.classLikeAs (classLikeKind keyword)) (balances keyword listed) (.inr rfl)
    ((holds.bare bare).refine (List.mem_singleton.mpr kind)) built (by rw [choose]; exact clean₂)
  rw [choose] at holds built
  exact .of_parts (show Rule.classLike ≠ .braced by decide) rfl due.tidy inner.2.built
    (holds.braceless bare) holds.room holds.tidy (due.built.flush.group built) inner.1

/-! ## (4) Class bodies -/

/-- Taking a token that has to be there. -/
theorem run_expect {follow : Rule → Parsing → Bool × Parsing} (kind : Kind) (t : Parsing) :
    (expect kind : Grammar).run follow t =
      if t.kindAt 0 = kind then (true, t.take id) else (false, t.report (.expected kind)) := by
  have next : (next kind : Grammar).run follow t = (t.kindAt 0 == kind, t) := rfl
  rw [expect, either, run, eat, run, next]
  by_cases same : t.kindAt 0 = kind
  · rw [if_pos same, beq_iff_eq.mpr same]
    rfl
  · rw [if_neg same, beq_eq_false_iff_ne.mpr same]
    rfl

/-- Without a fault the token is there. -/
theorem kindAt_of_expect {kind : Kind} {t : Parsing}
    (clean : Clean t ((expect kind : Grammar).run (Rule.follow depth) t).2) : t.kindAt 0 = kind := by
  by_contra other
  have errors := clean.errors
  rw [run_expect, if_neg other] at errors
  exact List.cons_ne_self _ _ errors

/-- Nor can a construct that has to begin with the token do without it. -/
theorem run_when_expect {kind : Kind} {rest : Grammar} {t : Parsing}
    (clean : Clean t ((when (expect kind) rest).run (Rule.follow depth) t).2) :
    t.kindAt 0 = kind ∧
      (when (expect kind) rest).run (Rule.follow depth) t = rest.run (Rule.follow depth) (t.take id) := by
  rw [when, run, run_expect] at clean ⊢
  by_cases found : t.kindAt 0 = kind
  · rw [if_pos found]
    exact ⟨found, rfl⟩
  · rw [if_neg found] at clean
    exact absurd clean.errors (List.cons_ne_self _ _)

/-- A token of a kind that only tokens have is not the end of the text. -/
theorem more_of_kindAt {t : Parsing} {kind : Kind} (next : t.kindAt 0 = kind) (proper : kind ≠ .error) :
    t.ahead ≠ [] := by
  intro none
  rw [Parsing.kindAt, none] at next
  exact proper next.symm

/-- What taking a token builds. -/
theorem built_take {t : Parsing} (more : t.ahead ≠ []) :
    ∃ text, (t.take id).built =
      .leaf (t.kindAt 0) text :: ((t.gap.map Token.leaf).reverse ++ t.built) := by
  obtain ⟨next, rest, ahead⟩ := List.exists_cons_of_ne_nil more
  exact ⟨next.token.text, by simp [Parsing.take, Parsing.flush, Parsing.kindAt, ahead]⟩

/-- The members between the braces of a class body. -/
def members : Grammar := untilClosed .rBrace (unstuck .rBrace (call .classMember))

/-- Parts without braces between an opening and a closing brace make up a class body. -/
theorem paired_classBody {parts : List Tree} (plain : Braceless (ownKinds parts)) (text text' : Text) :
    Paired .classBody (.leaf .lBrace text :: (parts ++ [.leaf .rBrace text'])) := by
  refine ⟨?_, fun _ => ⟨text, _, text', rfl, plain⟩⟩
  rw [ownKinds_leaf, ownKinds_append]
  exact plain.balanced.enclose

/-- **A class body takes braces in pairs**, and its own ones are its first and its last part. -/
theorem pairs_classBody (rules : AllPair depth) (due : Rule.classBody.Due depth s) :
    Rule.classBody.Pairs s (Grammar.classBody.run (Rule.follow depth) s) := by
  let body : Grammar := when (expect .lBrace) (andThen members (expect .rBrace))
  let start := s.flush.fresh
  let inner := body.run (Rule.follow depth) start
  have enough : 0 + 32 * s.ahead.length ≤ depth := due.enough
  have clean : Clean start inner.2 := ⟨due.clean.errors, due.clean.unbraced.inside⟩
  -- The opening brace is there.
  obtain ⟨opening, read⟩ := run_when_expect clean
  let opened := start.take id
  let filled := (members.run (Rule.follow depth) opened).2
  have closes : inner.2 = ((expect .rBrace : Grammar).run (Rule.follow depth) filled).2 :=
    congrArg Prod.snd read
  -- Between it and the end only members are read.
  have same : opened.errors = start.errors := start.errors_take id
  have grow : start.errors <:+ filled.errors := by
    rw [← same]
    exact errors_run (Rule.errors_follow depth) members opened
  rw [closes] at clean
  obtain ⟨clean₁, clean₂⟩ := clean.split (expect .rBrace) grow
  have clean₁ : Clean opened filled := ⟨clean₁.errors.trans same.symm, clean₁.unbraced⟩
  have closing : filled.kindAt 0 = .rBrace := kindAt_of_expect clean₂
  have more : start.ahead ≠ [] := more_of_kindAt opening (by decide)
  have holds : (Stage.start .bare true).Holds opened.built s.ahead.length opened :=
    .of_start (due.tidy.opened.take id) (start.length_take_le id)
      (fun _ => Parsing.length_take_lt more id) ⟨[], rfl, braceless_nil⟩
  obtain ⟨done, bare, holds, built⟩ := balances_run rules enough members
    (Q := fun _ done => done.braces == .bare) (by decide) (.inl (by decide)) holds
    (Parsing.BuiltWith.fresh.take id) clean₁
  obtain ⟨added, parts, fits⟩ := holds.braces
  rw [beq_iff_eq.mp bare] at fits
  -- The closing brace is there, too.
  have last : inner.2 = filled.take id := by rw [closes, run_expect, if_pos closing]
  obtain ⟨text, first⟩ := built_take more
  obtain ⟨text', final⟩ := built_take (more_of_kindAt closing (by decide))
  rw [opening] at first
  rw [closing] at final
  have all : inner.2.built.reverse = .leaf .lBrace text ::
      (added.reverse ++ filled.gap.map Token.leaf ++ [.leaf .rBrace text']) := by
    have first : opened.built = [.leaf .lBrace text] := first
    rw [last, final, parts, first]
    simp
  have plain : Braceless (ownKinds (added.reverse ++ filled.gap.map Token.leaf)) := by
    rw [ownKinds_append]
    exact Braceless.append fits (braceless_trivia holds.tidy.1)
  have here : Paired .classBody inner.2.built.reverse := all ▸ paired_classBody plain text text'
  obtain ⟨shorter, tidy, inside⟩ :
      inner.2.ahead.length ≤ s.ahead.length ∧ inner.2.Tidy ∧ inner.2.BuiltWith Paired := by
    rw [last]
    exact ⟨(filled.length_take_le id).trans holds.room, holds.tidy.take id, built.take id⟩
  exact .of_parts (show Rule.classBody ≠ .braced by decide) rfl due.tidy
    [.node .classBody inner.2.built.reverse] braceless_nil shorter tidy (due.built.flush.node inside here) inner.1

/-! ## (5) Classes without a name -/

/-- What follows the keyword of a class without a name. -/
def anonClassRest : Grammar :=
  seq [when (next .lParen) (call .argList), Grammar.extendsClause Grammar.nameRef,
    Grammar.implementsClause, call .classBody]

/-- **A class without a name takes braces in pairs**, if no brace stands in the place of its keyword. -/
theorem pairs_anonClass (rules : AllPair depth) (due : Rule.anonClass.Due depth s) :
    Rule.anonClass.Pairs s (Grammar.anonClass.run (Rule.follow depth) s) := by
  let start := s.flush.fresh
  let before := (Grammar.attributes.run (Rule.follow depth) start).2
  let after := before.take id
  let inner := anonClassRest.run (Rule.follow depth) after
  have enough : 1 + 32 * s.ahead.length ≤ depth := due.enough
  have clean : Clean start inner.2 := ⟨due.clean.errors, due.clean.unbraced.inside⟩
  have same : after.errors = before.errors := before.errors_take id
  have grow : start.errors <:+ after.errors := by
    rw [same]
    exact errors_run (Rule.errors_follow depth) Grammar.attributes start
  obtain ⟨clean₁, clean₂⟩ := clean.split anonClassRest grow
  have clean₁ : Clean start before := ⟨same.symm.trans clean₁.errors, fun tree mem =>
    clean₁.unbraced tree ((before.built_take id).subset mem)⟩
  obtain ⟨done, bare, holds, built⟩ := balances_run rules enough Grammar.attributes
    (Q := fun _ done => done.braces == .bare) (by decide) (.inr rfl)
    (Stage.Holds.initial due.tidy).fresh .fresh clean₁
  -- A brace in the place of the keyword would be one of the braces of the class.
  have keyword : (before.kindAt 0).isBrace = false := by
    by_contra brace
    have more : before.kindAt 0 ≠ .error := fun atEnd => brace (by rw [atEnd]; rfl)
    obtain ⟨text, taken⟩ := Parsing.mem_built_take more id
    have kept : after.built <:+ inner.2.built :=
      built_run (Rule.built_follow depth) anonClassRest (by decide) after
    have whole : (Tree.node .anonClass inner.2.built.reverse).Everywhere Unbraced :=
      due.clean.unbraced _ List.mem_cons_self
    cases whole with
    | node here below =>
        have own : before.kindAt 0 ∈ ownKinds inner.2.built.reverse :=
          List.mem_filterMap.mpr ⟨_, List.mem_reverse.mpr (kept.subset taken), rfl⟩
        exact brace (here rfl _ own)
  have holds : (Stage.start .bare false).Holds [] s.ahead.length after :=
    ((holds.bare bare).take id rfl (Opened.after_of_not_isBrace keyword _)
      fun moved => absurd moved Bool.false_ne_true).bare rfl
  obtain ⟨done, bare, holds, built⟩ := balances_run rules enough anonClassRest
    (Q := fun _ done => done.braces == .bare) (by decide) (.inr rfl) holds (built.take id) clean₂
  have here : Paired .anonClass inner.2.built.reverse :=
    ⟨(holds.braceless bare).balanced, fun isBody => absurd isBody (by decide)⟩
  exact .of_parts (show Rule.anonClass ≠ .braced by decide) rfl due.tidy
    [.node .anonClass inner.2.built.reverse] braceless_nil holds.room holds.tidy
    (due.built.flush.node built here) inner.1

/-! ## (6) Groups in braces -/

/-- A part of a group in braces: another group, or a token. -/
def bracedPart : Grammar :=
  branch (either atEnd (next .rBrace)) stop (also (branch (next .lBrace) (call .braced) bump))

/-- Inside a group in braces, where `base` was in the open construct when the group had begun: the braces
taken since then are in pairs, unless the text has ended. -/
structure Filling (base : List Tree) (t : Parsing) : Prop where
  /-- The tokens ahead are what they were. -/
  tidy : t.Tidy
  /-- The braces of each node are in pairs. -/
  built : t.BuiltWith Paired
  /-- The braces taken since then. -/
  braces : ∃ added, t.built = added ++ base ∧ (t.ahead ≠ [] → Balanced (ownKinds added.reverse))

/-- A part of a group that is not at its end. -/
theorem run_bracedPart {t : Parsing} (more : t.ahead ≠ []) (inside : t.kindAt 0 ≠ .rBrace) :
    bracedPart.run (Rule.follow depth) t =
      (true, if t.kindAt 0 = .lBrace then (Rule.follow depth .braced t).2 else t.take id) := by
  have notEnd : t.atEnd = false := Parsing.atEnd_eq_false more
  have notClosing : (t.kindAt 0 == .rBrace) = false := beq_eq_false_iff_ne.mpr inside
  simp only [bracedPart, either, also, atEnd, Production.next, nthIs, ok, stop, run, Lookahead.holds, notEnd,
    notClosing]
  by_cases opening : t.kindAt 0 = .lBrace
  · rw [if_pos opening, beq_iff_eq.mpr opening]
  · rw [if_neg opening, beq_eq_false_iff_ne.mpr opening]

/-- Nothing is read at the end of a group. -/
theorem run_bracedPart_atEnd {t : Parsing} (ends : t.ahead = [] ∨ t.kindAt 0 = .rBrace) :
    bracedPart.run (Rule.follow depth) t = (false, t) := by
  rcases ends with none | closing
  · simp [bracedPart, either, atEnd, ok, stop, run, Lookahead.holds, Parsing.atEnd, none]
  · cases atEnd : t.atEnd with
    | true => simp [bracedPart, either, Production.atEnd, ok, stop, run, Lookahead.holds, atEnd]
    | false =>
        simp [bracedPart, either, Production.atEnd, Production.next, nthIs, ok, stop, run, Lookahead.holds,
          atEnd, closing]

/-- **A part of a group in braces takes braces in pairs.** -/
theorem Filling.part (rules : AllPair depth) {base : List Tree} {t : Parsing} (filling : Filling base t)
    (enough : 32 * t.ahead.length < depth) (more : t.ahead ≠ []) (inside : t.kindAt 0 ≠ .rBrace)
    (clean : Clean t (bracedPart.run (Rule.follow depth) t).2) :
    Filling base (bracedPart.run (Rule.follow depth) t).2 ∧
      (bracedPart.run (Rule.follow depth) t).2.ahead.length < t.ahead.length := by
  obtain ⟨added, parts, balanced⟩ := filling.braces
  have balanced := balanced more
  rw [run_bracedPart more inside] at clean ⊢
  by_cases opening : t.kindAt 0 = .lBrace
  · rw [if_pos opening] at clean ⊢
    have begins : Rule.braced.Begins t := by
      refine .inl ⟨[[.lBrace]], List.mem_singleton.mpr rfl, fun n kinds found => ?_⟩
      cases n with
      | zero =>
          cases found
          exact List.mem_singleton.mpr opening
      | succ n => cases found
    have pairs := rules .braced t (show 0 + _ < depth by omega) begins filling.tidy filling.built clean
    obtain ⟨group, parts', -, complete⟩ := pairs.braces
    refine ⟨⟨pairs.tidy, pairs.built, group ++ added, ?_, fun more => ?_⟩, pairs.moves rfl⟩
    · rw [parts', parts, List.append_assoc]
    · -- A group that is not complete ends with the text.
      have whole : (Rule.follow depth .braced t).1 = true := by
        by_contra partial_
        exact more (pairs.ends rfl (Bool.eq_false_iff.mpr partial_))
      rw [List.reverse_append, ownKinds_append]
      exact balanced.append (complete rfl whole)
  · rw [if_neg opening] at clean ⊢
    obtain ⟨text, taken⟩ := built_take more
    have other : (t.kindAt 0).isBrace = false :=
      Bool.or_eq_false_iff.mpr ⟨beq_eq_false_iff_ne.mpr opening, beq_eq_false_iff_ne.mpr inside⟩
    refine ⟨⟨filling.tidy.take id, filling.built.take id,
      .leaf (t.kindAt 0) text :: ((t.gap.map Token.leaf).reverse ++ added), ?_, fun _ => ?_⟩,
      Parsing.length_take_lt more id⟩
    · rw [taken, parts, List.cons_append, List.append_assoc]
    · rw [List.reverse_cons, List.reverse_append, List.reverse_reverse, ownKinds_append, ownKinds_append]
      have plain : Braceless (ownKinds [.leaf (t.kindAt 0) text]) := List.forall_mem_singleton.mpr other
      exact (balanced.append (braceless_trivia filling.tidy.1).balanced).append plain.balanced

/-- **All parts of a group in braces take braces in pairs**, and the group or the text ends behind them. -/
theorem Filling.parts (rules : AllPair depth) {base : List Tree} (n : Nat) {t : Parsing}
    (filling : Filling base t) (enough : 32 * t.ahead.length < depth) (rounds : t.ahead.length < n)
    (clean : Clean t (iterate (bracedPart.run (Rule.follow depth)) n t)) :
    Filling base (iterate (bracedPart.run (Rule.follow depth)) n t) ∧
      ((iterate (bracedPart.run (Rule.follow depth)) n t).ahead = [] ∨
        (iterate (bracedPart.run (Rule.follow depth)) n t).kindAt 0 = .rBrace) := by
  induction n generalizing t with
  | zero => cases rounds
  | succ n ih =>
      rw [iterate] at clean ⊢
      -- A round at the end of the group or of the text is the last one; any other one takes tokens.
      by_cases ends : t.ahead = [] ∨ t.kindAt 0 = .rBrace
      · rw [run_bracedPart_atEnd ends]
        exact ⟨filling, ends⟩
      · obtain ⟨more, inside⟩ := not_or.mp ends
        have grow := errors_run (Rule.errors_follow depth) bracedPart t
        have part := filling.part rules enough more inside
        rw [run_bracedPart more inside] at clean grow part ⊢
        obtain ⟨clean₁, clean₂⟩ := clean.split_iterate bracedPart grow
        obtain ⟨filling, shorter⟩ := part clean₁
        simp only at shorter
        exact ih filling (by omega) (by omega) clean₂

/-- **A group in braces takes braces in pairs, if it is complete**; otherwise the text ends in it. -/
theorem pairs_braced (rules : AllPair depth) (due : Rule.braced.Due depth s)
    (opening : s.kindAt 0 = .lBrace) :
    Rule.braced.Pairs s (Grammar.braced.run (Rule.follow depth) s) := by
  let start := s.take id
  let filled := iterate (bracedPart.run (Rule.follow depth)) (start.ahead.length + 1) start
  have read : Grammar.braced.run (Rule.follow depth) s =
      (eat .rBrace : Grammar).run (Rule.follow depth) filled := rfl
  have more : s.ahead ≠ [] := more_of_kindAt opening (by decide)
  have shorter : start.ahead.length < s.ahead.length := Parsing.length_take_lt more id
  have enough : 0 + 32 * s.ahead.length ≤ depth := due.enough
  have clean : Clean start ((eat .rBrace : Grammar).run (Rule.follow depth) filled).2 :=
    ⟨due.clean.errors.trans (s.errors_take id).symm, due.clean.unbraced⟩
  have grow : start.errors <:+ filled.errors :=
    errors_run (Rule.errors_follow depth) (loop bracedPart) start
  obtain ⟨clean, -⟩ := clean.split (eat .rBrace) grow
  have filling : Filling start.built start :=
    ⟨due.tidy.take id, due.built.take id, [], rfl, fun _ => braceless_nil.balanced⟩
  obtain ⟨filling, ends⟩ := filling.parts rules _ (by omega) (Nat.lt_succ_self _) clean
  obtain ⟨added, parts, balanced⟩ := filling.braces
  obtain ⟨text, first⟩ := built_take more
  rw [opening] at first
  have notLonger : filled.ahead.length ≤ start.ahead.length :=
    length_run_le (Rule.length_follow_le depth) (loop bracedPart) start
  have next : (Production.next .rBrace : Grammar).run (Rule.follow depth) filled =
      (filled.kindAt 0 == .rBrace, filled) := rfl
  rw [read, eat, run, next]
  -- Where the closing brace is missing, the text has ended, and nothing is said of the braces.
  by_cases closing : filled.kindAt 0 = .rBrace
  · rw [beq_iff_eq.mpr closing]
    have closed := more_of_kindAt closing (by decide)
    obtain ⟨text', last⟩ := built_take closed
    rw [closing] at last
    refine ⟨filling.tidy.take id, filling.built.take id, fun _ => ?_, ⟨.leaf .rBrace text' ::
      ((filled.gap.map Token.leaf).reverse ++ added ++ .leaf .lBrace text ::
        (s.gap.map Token.leaf).reverse), ?_, fun other => absurd rfl other, fun _ _ => ?_⟩,
      fun _ incomplete => Bool.noConfusion incomplete⟩
    · exact (filled.length_take_le id).trans_lt (notLonger.trans_lt shorter)
    · change (filled.take id).built = _
      rw [last, parts, first]
      simp
    · have inside : Balanced (ownKinds added.reverse ++ ownKinds (filled.gap.map Token.leaf)) :=
        (balanced closed).append (braceless_trivia filling.tidy.1).balanced
      have outside := (braceless_trivia due.tidy.1).balanced.append inside.enclose
      simpa using outside
  · rw [beq_eq_false_iff_ne.mpr closing]
    have none : filled.ahead = [] := ends.resolve_right closing
    refine ⟨filling.tidy, filling.built, fun _ => notLonger.trans_lt shorter,
      ⟨added ++ .leaf .lBrace text :: (s.gap.map Token.leaf).reverse, ?_, fun other => absurd rfl other,
        fun _ complete => Bool.noConfusion complete⟩, fun _ _ => none⟩
    change filled.built = _
    rw [parts, first]
    simp

/-! ## (7) All rules and whole files -/

set_option maxRecDepth 2000 in
/-- **In a parse without faults every rule takes braces in pairs**, if enough rules may be open. -/
theorem allPair (depth : Nat) : AllPair depth := by
  induction depth with
  | zero => exact fun _ _ enough => absurd enough (Nat.not_lt_zero _)
  | succ depth rules =>
      -- Only here rules are opened up, so the rules inside are those for which there is room.
      intro rule s enough begins tidy built clean
      have due : rule.Due depth s := ⟨Nat.le_of_lt_succ enough, tidy, built, clean⟩
      change rule.Pairs s (rule.production.run (Rule.follow depth) s)
      by_cases modified : rule = .classLike
      · subst modified
        exact pairs_classLike rules due begins
      · obtain ⟨pattern, listed, known⟩ := begins.resolve_right fun other => modified other.1
        cases rule with
        | statement => exact pairs_statement rules due
        | expression power =>
            have group : Rule.expression power ≠ .braced := by
              intro same
              cases same
            exact pairs_of_balances rules (balances_expression power) group due listed known
        | classLike => exact absurd rfl modified
        | classBody => exact pairs_classBody rules due
        | anonClass => exact pairs_anonClass rules due
        | braced =>
            obtain rfl := List.mem_singleton.mp listed
            exact pairs_braced rules due (List.mem_singleton.mp (known 0 _ rfl))
        | _ => exact pairs_of_balances rules (by decide) (by decide) due listed known

end Rule

/-- **In the tree of a text without errors the braces of every node are in pairs**, if no brace stands in the
place of the keyword of a class without a name. -/
theorem Parse.paired_ofTokens {tokens : List Token} (clean : (Parse.ofTokens tokens).errors = [])
    (unbraced : (Parse.ofTokens tokens).tree.Everywhere Unbraced) :
    (Parse.ofTokens tokens).tree.Everywhere Paired := by
  let start := Parsing.ofTokens tokens
  let depth := ruleDepth start.ahead.length
  let done := (Grammar.sourceFile.run (Rule.follow depth) start).2
  have tree : (Parse.ofTokens tokens).tree = .node .sourceFile done.flush.built.reverse := rfl
  have tidy : start.Tidy := Parsing.tidy_split tokens
  have holds : (Stage.start .bare false).Holds [] start.ahead.length start := .initial tidy
  have enough : 6 + 32 * start.ahead.length ≤ depth := by
    change 6 + 32 * start.ahead.length ≤ 32 * (start.ahead.length + 1)
    omega
  have silent : Clean start done := by
    refine ⟨List.reverse_eq_nil_iff.mp clean, fun part mem => ?_⟩
    rw [tree] at unbraced
    exact unbraced.part (List.mem_reverse.mpr (done.built_flush.subset mem))
  -- A file takes no brace outside of nodes, so its own braces are in pairs as well.
  obtain ⟨last, bare, holds, built⟩ := Production.balances_run (Rule.allPair depth) enough
    Grammar.sourceFile (Q := fun _ last => last.braces == .bare) (by decide) (.inr rfl) holds
    (List.forall_mem_nil _) silent
  rw [tree]
  refine .node ⟨?_, fun isBody => absurd isBody (by decide)⟩ fun part mem =>
    built.flush part (List.mem_reverse.mp mem)
  have own : ownKinds done.flush.built.reverse =
      ownKinds done.built.reverse ++ ownKinds (done.gap.map Token.leaf) := by simp [Parsing.flush]
  rw [own]
  exact ((holds.braceless bare).append (braceless_trivia holds.tidy.1)).balanced

end PhpMembers
