import PhpMembers.Proofs.Syntax.Descent
import PhpMembers.Proofs.Syntax.Trivia

/-! # Where the end of a statement is missing

A statement ends with a semicolon, with the text, or with a closing tag. The grammar does not see trivia, and closing
tags are trivia; the end of a statement is the one place that looks at the trivia in front of the next token. This works
as long as the trivia is still there, that is, no construct has been opened since the last token. Where one was opened
and no token of it was found, this has been reported. So a closing tag directly behind the last token of a statement
always ends it: there is no report of a missing semicolon unless something else is wrong at the same token.

* `EndMissing` : what a report of a missing semicolon tells.
* `Sight`, `Sight.Holds` : what is known on the way through a production.
* `Production.ends`, `Production.ends_run` : what can be read off a production holds of every parse.
* `missing_semicolon` : the missing semicolons of a file. -/

namespace PhpMembers

/-! ## (1) Reports -/

/-- `EndMissing tokens earlier span`: the range is that of a token other than a semicolon or trivia, and if the trivia
in front of this token begins with a closing tag, one of the earlier reports is about something else at the same
token. -/
inductive EndMissing (tokens : List Token) (earlier : List SyntaxError) : Span → Prop
  /-- The token stands behind trivia, and that is all the trivia there. -/
  | token {front gap rest : List Token} {t : Token} (split : front ++ (gap ++ t :: rest) = tokens)
      (last : ∀ p ∈ front.getLast?, p.isTrivia = false) (trivia : ∀ g ∈ gap, g.isTrivia = true)
      (significant : t.isTrivia = false) (other : t.kind ≠ .semicolon)
      (tag : beginsWithTag gap = true → ∃ e ∈ earlier, e.fault ≠ .expectedSemicolon ∧ e.span = t.span) :
      EndMissing tokens earlier t.span

/-- All reports of missing semicolons are such. The latest report comes first. -/
def EndsMissing (tokens : List Token) (errors : List SyntaxError) : Prop :=
  ∀ e earlier, e :: earlier <:+ errors → e.fault = .expectedSemicolon → EndMissing tokens earlier e.span

variable {tokens : List Token}

theorem endsMissing_nil : EndsMissing tokens [] := by
  intro e earlier suffix
  cases List.suffix_nil.mp suffix

/-- One more report. -/
theorem EndsMissing.cons {errors : List SyntaxError} (ends : EndsMissing tokens errors) {e : SyntaxError}
    (latest : e.fault = .expectedSemicolon → EndMissing tokens errors e.span) : EndsMissing tokens (e :: errors) := by
  intro d earlier suffix missing
  rcases List.suffix_cons_iff.mp suffix with same | before
  · obtain ⟨rfl, rfl⟩ := List.cons.inj same
    exact latest missing
  · exact ends d earlier before missing

namespace Parsing

/-- The trivia in front of the next token is all there. -/
def Intact (tokens : List Token) (s : Parsing) : Prop :=
  ∃ front, front ++ s.rest = tokens ∧ ∀ p ∈ front.getLast?, p.isTrivia = false

/-- Something other than a missing semicolon has been reported at the next token. -/
def Faulted (s : Parsing) : Prop := ∃ e ∈ s.errors, e.fault ≠ .expectedSemicolon ∧ e.span = s.here

variable {s : Parsing}

/-- Earlier reports stay. -/
theorem Faulted.report (faulted : s.Faulted) (cause : Fault) : (s.report cause).Faulted :=
  faulted.imp fun _ found => ⟨List.mem_cons_of_mem _ found.1, found.2⟩

/-- Tokens with trivia behind them, cut at the last one that is not trivia. -/
theorem exists_front (before : List Token) {gap : List Token} (trivia : ∀ g ∈ gap, g.isTrivia = true) :
    ∃ front more, front ++ more = before ++ gap ∧ (∀ p ∈ front.getLast?, p.isTrivia = false) ∧
      ∀ g ∈ more, g.isTrivia = true := by
  induction before using List.reverseRecOn generalizing gap with
  | nil => exact ⟨[], gap, rfl, fun p isLast => (by cases isLast), trivia⟩
  | append_singleton before t ih =>
      cases kind : t.isTrivia with
      | true =>
          -- Trivia at the end belongs to what is cut off.
          have longer : ∀ g ∈ t :: gap, g.isTrivia = true := List.forall_mem_cons.mpr ⟨kind, trivia⟩
          obtain ⟨front, more, same, ends⟩ := ih longer
          exact ⟨front, more, by rw [same, List.append_assoc, List.singleton_append], ends⟩
      | false =>
          refine ⟨before ++ [t], gap, rfl, fun p isLast => ?_, trivia⟩
          rw [List.getLast?_concat] at isLast
          cases isLast
          exact kind

end Parsing

/-! ## (2) What is known of a place -/

/-- What is known on the way through a production. -/
structure Sight where
  /-- The trivia in front of the next token is all there, or something has been reported at this token. -/
  front : Bool
  /-- Something has been reported at the next token. -/
  faulted : Bool
  /-- No closing tag follows at once. -/
  tagless : Bool
  /-- There is a next token. -/
  more : Bool
  /-- The next token is no semicolon. -/
  other : Bool

/-- Nothing is known but what is in front of the next token. -/
def Sight.only (front : Bool) : Sight := ⟨front, false, false, false, false⟩

/-- What a sight says of a parse. -/
structure Sight.Holds (tokens : List Token) (a : Sight) (s : Parsing) : Prop where
  /-- The tokens that are left are the last ones. -/
  place : s.rest <:+ tokens
  /-- They are what they were. -/
  tidy : s.Tidy
  /-- The reports so far. -/
  ends : EndsMissing tokens s.errors
  /-- In front of the next token. -/
  front : a.front = true → s.ahead ≠ [] → s.Intact tokens ∨ s.Faulted
  /-- The reports at the next token. -/
  faulted : a.faulted = true → s.Faulted
  /-- What follows at once. -/
  tagless : a.tagless = true → beginsWithTag s.gap = false
  /-- The next token. -/
  more : a.more = true → s.ahead ≠ []
  /-- Its kind. -/
  other : a.other = true → s.kindAt 0 ≠ .semicolon

namespace Sight.Holds

variable {a : Sight} {s : Parsing}

/-- A place of which nothing is known but what is in front of the next token. -/
theorem of_front (place : s.rest <:+ tokens) (tidy : s.Tidy) (ends : EndsMissing tokens s.errors) {front : Bool}
    (inFront : front = true → s.ahead ≠ [] → s.Intact tokens ∨ s.Faulted) : (Sight.only front).Holds tokens s where
  place := place
  tidy := tidy
  ends := ends
  front := inFront
  faulted := fun falsity => absurd falsity Bool.false_ne_true
  tagless := fun falsity => absurd falsity Bool.false_ne_true
  more := fun falsity => absurd falsity Bool.false_ne_true
  other := fun falsity => absurd falsity Bool.false_ne_true

/-- Only what is in front of the next token is kept. -/
theorem only (holds : a.Holds tokens s) {front : Bool} (within : (!front || a.front) = true) :
    (Sight.only front).Holds tokens s := by
  refine .of_front holds.place holds.tidy holds.ends fun known => holds.front ?_
  rwa [known, Bool.not_true, Bool.false_or] at within

/-- What has been built does not matter. -/
theorem withBuilt (holds : a.Holds tokens s) (parts : List Tree) : a.Holds tokens { s with built := parts } :=
  ⟨holds.place, holds.tidy, holds.ends, holds.front, holds.faulted, holds.tagless, holds.more, holds.other⟩

/-- Where a construct is opened the trivia is gone. -/
theorem fresh (holds : a.Holds tokens s) :
    Sight.Holds tokens { a with front := a.faulted, tagless := false } s.flush.fresh where
  place := (List.suffix_append s.gap _).trans holds.place
  tidy := holds.tidy.opened
  ends := holds.ends
  front := fun known _ => .inr (holds.faulted known)
  faulted := holds.faulted
  tagless := fun falsity => absurd falsity Bool.false_ne_true
  more := holds.more
  other := holds.other

/-- Behind a token that is taken the trivia is all there. -/
theorem take (holds : a.Holds tokens s) (rename : Kind → Kind) : (Sight.only true).Holds tokens (s.take rename) := by
  have place := holds.place
  cases ahead : s.ahead with
  | nil =>
      rw [Parsing.take_of_nil rename ahead]
      have place : s.flush.rest <:+ tokens := (List.suffix_append s.gap _).trans place
      exact .of_front place holds.tidy.opened holds.ends fun _ more => absurd ahead more
  | cons l rest =>
      have parts : s.rest = (s.gap ++ [l.token]) ++ (s.take rename).rest := by
        simp [Parsing.rest, Parsing.take, Parsing.flush, ahead]
      have significant := (holds.tidy.2 l (by rw [ahead]; exact List.mem_cons_self)).1
      obtain ⟨before, split⟩ := place
      rw [parts, ← List.append_assoc] at split
      have ends : EndsMissing tokens (s.take rename).errors := by
        rw [Parsing.errors_take]
        exact holds.ends
      refine .of_front ⟨_, split⟩ (holds.tidy.take rename) ends fun _ _ => .inl ⟨_, split, fun p isLast => ?_⟩
      rw [← List.append_assoc, List.getLast?_concat] at isLast
      cases isLast
      exact significant

/-- Something other than a missing semicolon is reported. -/
theorem report (holds : a.Holds tokens s) {cause : Fault} (other : cause ≠ .expectedSemicolon) :
    Sight.Holds tokens { a with front := true, faulted := true } (s.report cause) where
  place := holds.place
  tidy := holds.tidy
  ends := holds.ends.cons fun missing => absurd missing other
  front := fun _ _ => .inr ⟨_, List.mem_cons_self, other, rfl⟩
  faulted := fun _ => ⟨_, List.mem_cons_self, other, rfl⟩
  tagless := holds.tagless
  more := holds.more
  other := holds.other

/-- A missing semicolon is reported. -/
theorem reportEnd (holds : a.Holds tokens s) (front : a.front = true) (tagless : a.tagless = true)
    (more : a.more = true) (other : a.other = true) : a.Holds tokens (s.report .expectedSemicolon) where
  place := holds.place
  tidy := holds.tidy
  ends := by
    refine holds.ends.cons fun _ => ?_
    obtain ⟨l, rest, ahead⟩ := List.exists_cons_of_ne_nil (holds.more more)
    have here : s.here = l.token.span := by rw [Parsing.here, ahead]
    have significant := (holds.tidy.2 l (by rw [ahead]; exact List.mem_cons_self)).1
    have kind : l.token.kind ≠ .semicolon := by
      have known := holds.other other
      rwa [Parsing.kindAt, ahead] at known
    have parts : s.rest = s.gap ++ l.token :: (l.after ++ rest.flatMap fun l => l.token :: l.after) := by
      rw [Parsing.rest, ahead, List.flatMap_cons, List.cons_append]
    rw [show (⟨.expectedSemicolon, s.here⟩ : SyntaxError).span = l.token.span from here]
    rcases holds.front front (holds.more more) with ⟨before, split, last⟩ | ⟨e, mem, notEnd, span⟩
    · rw [parts] at split
      refine .token split last holds.tidy.1 significant kind fun tag => ?_
      rw [holds.tagless tagless] at tag
      cases tag
    · -- Some of the trivia may have been read, but then there is the earlier report.
      obtain ⟨before, split⟩ := holds.place
      obtain ⟨behind, gap, same, last, trivia⟩ := Parsing.exists_front before holds.tidy.1
      rw [parts, ← List.append_assoc, ← same, List.append_assoc] at split
      exact .token split last trivia significant kind fun _ => ⟨e, mem, notEnd, span.trans here⟩
  front := fun known more => (holds.front known more).imp_right fun faulted => faulted.report _
  faulted := fun known => (holds.faulted known).report _
  tagless := holds.tagless
  more := holds.more
  other := holds.other

end Sight.Holds

/-! ## (3) What can be read off a production -/

/-- The rules behind which the trivia in front of the next token is all there, or something has been reported. -/
def Rule.settles : Rule → Bool
  | .classMember => false
  | _ => true

/-- Whether a production reports a missing semicolon only where the next token is another one, no closing tag follows at
once, and the trivia can be trusted, and leads to an answer and a sight with the property `Q`. -/
def Production.ends : Production Rule → Sight → (Bool → Sight → Bool) → Bool
  | answer ok, a, Q => Q ok a
  | look .closeTag, a, Q => Q true a && Q false { a with tagless := true }
  | look .atEnd, a, Q => Q true a && Q false { a with more := true }
  | look (.kind 0 test), a, Q =>
    Q true { a with other := a.other || !test .semicolon } && Q false { a with other := a.other || test .semicolon }
  | look _, a, Q => Q true a && Q false a
  | bump, _, Q | bumpAs _, _, Q => Q true (.only true)
  | fault cause, a, Q =>
    if cause = .expectedSemicolon then a.front && a.tagless && a.more && a.other && Q false a
    else Q false { a with front := true, faulted := true }
  | andThen first second, a, Q => first.ends a fun _ b => second.ends b Q
  | branch condition yes no, a, Q => condition.ends a fun result b => if result then yes.ends b Q else no.ends b Q
  | byKind cases, a, Q => Kind.all.all fun kind => (cases kind).ends a Q
  | node _ body, a, Q | group body, a, Q => body.ends { a with front := a.faulted, tagless := false } Q
  | wrap _ body, a, Q => body.ends a Q
  | loop body, a, Q =>
    -- Each round starts where the parse is at first or where another round has led to.
    let rounds (before after : Bool) := body.ends (.only before) fun _ b => !after || b.front
    if rounds a.front true then Q true (.only true) else rounds false false && Q true (.only false)
  | advances body, a, Q => body.ends a fun result b => (!result || Q true b) && Q false b
  | call rule, a, Q => Q true (.only (a.front || rule.settles)) && Q false (.only (a.front || rule.settles))

/-- Whether a rule reports missing semicolons so, and leads to where it should. -/
def Rule.ends (rule : Rule) : Bool :=
  rule.production.ends (.only false) (fun _ b => !rule.settles || b.front) &&
    rule.production.ends (.only true) fun _ b => b.front

/-- What a production leads to. -/
def Sight.Reached (tokens : List Token) (Q : Bool → Sight → Bool) (result : Bool × Parsing) : Prop :=
  ∃ after : Sight, Q result.1 after = true ∧ after.Holds tokens result.2

namespace Sight.Holds

variable {a : Sight} {Q : Bool → Sight → Bool} {s : Parsing}

/-- What a look at the kind of the next token finds out. -/
theorem reached_kind (holds : a.Holds tokens s) {test : Kind → Bool}
    (onTrue : Q true { a with other := a.other || !test .semicolon } = true)
    (onFalse : Q false { a with other := a.other || test .semicolon } = true) :
    Sight.Reached tokens Q (test (s.kindAt 0), s) := by
  cases found : test (s.kindAt 0) with
  | true =>
      refine ⟨_, onTrue, { holds with other := fun known => ?_ }⟩
      rcases Bool.or_eq_true_iff.mp known with before | fails
      · exact holds.other before
      · intro same
        rw [same] at found
        rw [found] at fails
        cases fails
  | false =>
      refine ⟨_, onFalse, { holds with other := fun known => ?_ }⟩
      rcases Bool.or_eq_true_iff.mp known with before | passes
      · exact holds.other before
      · intro same
        rw [same, passes] at found
        cases found

/-- What a look at the text ahead finds out. -/
theorem reached_look (holds : a.Holds tokens s) {condition : Lookahead}
    (ends : (Production.look condition : Grammar).ends a Q = true) :
    Sight.Reached tokens Q (condition.holds s, s) := by
  cases condition with
  | closeTag =>
      obtain ⟨onTrue, onFalse⟩ := Bool.and_eq_true_iff.mp ends
      cases found : Lookahead.closeTag.holds s with
      | true => exact ⟨a, onTrue, holds⟩
      | false =>
          have tagless : beginsWithTag s.gap = false := by
            rw [Lookahead.holds] at found
            rw [beginsWithTag]
            cases gap : s.gap with
            | nil => rfl
            | cons t gap => rwa [gap] at found
          exact ⟨_, onFalse, { holds with tagless := fun _ => tagless }⟩
  | atEnd =>
      obtain ⟨onTrue, onFalse⟩ := Bool.and_eq_true_iff.mp ends
      cases found : Lookahead.atEnd.holds s with
      | true => exact ⟨a, onTrue, holds⟩
      | false => exact ⟨_, onFalse, { holds with more := fun _ => List.isEmpty_eq_false_iff.mp found }⟩
  | kind n test =>
      cases n with
      | zero =>
          obtain ⟨onTrue, onFalse⟩ := Bool.and_eq_true_iff.mp ends
          exact holds.reached_kind onTrue onFalse
      | succ n => exact ⟨a, Production.of_both (Q := fun answer => Q answer a) ends _, holds⟩
  | kinds test => exact ⟨a, Production.of_both (Q := fun answer => Q answer a) ends _, holds⟩
  | word n words => exact ⟨a, Production.of_both (Q := fun answer => Q answer a) ends _, holds⟩

/-- A report is foreseen, or it is that of a semicolon that is missing. -/
theorem reached_fault (holds : a.Holds tokens s) {cause : Fault}
    (ends : (Production.fault cause : Grammar).ends a Q = true) :
    Sight.Reached tokens Q (false, s.report cause) := by
  rw [Production.ends] at ends
  split at ends
  · rename_i missing
    subst missing
    obtain ⟨known, next⟩ := Bool.and_eq_true_iff.mp ends
    obtain ⟨known, other⟩ := Bool.and_eq_true_iff.mp known
    obtain ⟨known, more⟩ := Bool.and_eq_true_iff.mp known
    obtain ⟨front, tagless⟩ := Bool.and_eq_true_iff.mp known
    exact ⟨a, next, holds.reportEnd front tagless more other⟩
  · rename_i other
    exact ⟨_, ends, holds.report other⟩

end Sight.Holds

/-- With at most `depth` rules open, all rules report missing semicolons so and lead to where they should. -/
def Rule.AllEnd (tokens : List Token) (depth : Nat) : Prop :=
  ∀ (rule : Rule) (a : Sight) (s : Parsing), a.Holds tokens s →
    (Sight.only (a.front || rule.settles)).Holds tokens (Rule.followStrictly depth rule s).2

namespace Production

variable {depth : Nat}

/-- What each round leads to is where the last one leads to. There is at least one round. -/
theorem iterate_rounds {P R : Parsing → Prop} {step : Parsing → Bool × Parsing} (round : ∀ t, P t → R (step t).2)
    (again : ∀ t, R t → P t) (n : Nat) {s : Parsing} (start : P s) : R (iterate step (n + 1) s) := by
  have first := round s start
  rw [iterate]
  rcases found : step s with ⟨_ | _, t⟩
  · rwa [found] at first
  · rw [found] at first
    exact iterate_induction (fun u kept => round u (again u kept)) n first

/-- **What is read off a production holds of every parse.** -/
theorem ends_run (rules : Rule.AllEnd tokens depth) (p : Grammar) {a : Sight} {Q : Bool → Sight → Bool}
    (ends : p.ends a Q = true) {s : Parsing} (holds : a.Holds tokens s) :
    Sight.Reached tokens Q (p.run (Rule.followStrictly depth) s) := by
  -- The induction follows the steps of the analysis; only a report has something to show.
  induction p generalizing a Q s with
  | answer ok => exact ⟨a, ends, holds⟩
  | look condition => exact holds.reached_look ends
  | bump => exact ⟨_, ends, holds.take id⟩
  | bumpAs kind => exact ⟨_, ends, holds.take fun _ => kind⟩
  | fault cause => exact holds.reached_fault ends
  | andThen first second ih₁ ih₂ =>
      obtain ⟨middle, next, holds⟩ := ih₁ (Q := fun _ b => second.ends b Q) ends holds
      exact ih₂ next holds
  | branch condition yes no ih ihYes ihNo =>
      have reached := ih (Q := fun result b => if result then yes.ends b Q else no.ends b Q) ends holds
      obtain ⟨middle, next, holds⟩ := reached
      refine branch_cases (fun answer => ?_) (fun answer => ?_)
      · rw [answer] at next
        exact ihYes next holds
      · rw [answer] at next
        exact ihNo next holds
  | byKind cases ih => exact ih _ (List.all_eq_true.mp ends _ (Kind.mem_all _)) holds
  | node kind body ih | group body ih =>
      obtain ⟨after, next, inside⟩ := ih (Q := Q) ends holds.fresh
      exact ⟨after, next, inside.withBuilt _⟩
  | wrap kind body ih =>
      obtain ⟨after, next, inside⟩ := ih (Q := Q) ends holds
      exact ⟨after, next, inside.withBuilt _⟩
  | loop body ih =>
      have rounds {before after : Bool} (within : (!before || after) = true) (known : (!before || a.front) = true)
          (told : body.ends (.only before) (fun _ b => !after || b.front) = true)
          (next : Q true (.only after) = true) :
          Sight.Reached tokens Q ((loop body).run (Rule.followStrictly depth) s) := by
        refine ⟨_, next, iterate_rounds (P := (Sight.only before).Holds tokens) (R := (Sight.only after).Holds tokens)
          (fun t kept => ?_) (fun t kept => kept.only within) s.ahead.length (holds.only known)⟩
        obtain ⟨done, enough, holds⟩ := ih told kept
        exact holds.only enough
      rw [Production.ends] at ends
      split at ends
      · rename_i told
        exact rounds (by cases a.front <;> rfl) (by cases a.front <;> rfl) told ends
      · obtain ⟨told, next⟩ := Bool.and_eq_true_iff.mp ends
        exact rounds rfl rfl told next
  | advances body ih =>
      obtain ⟨after, next, holds⟩ := ih (Q := fun result b => (!result || Q true b) && Q false b) ends holds
      exact ⟨after, of_advances (Q := fun answer => Q answer after) next _, holds⟩
  | call rule => exact ⟨_, of_both (Q := fun answer => Q answer _) ends _, rules rule a s holds⟩

end Production

/-! ## (4) The grammar -/

namespace Grammar

open Production

set_option maxRecDepth 2000 in
/-- The rounds over infix operators end with an operand or a report, whatever binds strongly enough. -/
theorem ends_infixStep (power : Nat) : (infixStep power).ends (.only true) (fun _ b => b.front) = true := by
  obtain ⟨cases, same, each⟩ := infixStep_induction power
    (fun _ p => p.ends (.only true) (fun _ b => b.front) = true) (fun _ => rfl) (by decide)
  rw [same]
  exact List.all_eq_true.mpr each

end Grammar

namespace Rule

set_option maxRecDepth 2000 in
/-- **All rules report a missing semicolon only where one is missing.** -/
theorem ends_all (rule : Rule) : rule.ends = true := by
  cases rule with
  | expression power =>
      have rounds : (Production.loop (Grammar.infixStep power)).ends (.only true) (fun _ b => b.front) = true := by
        rw [Production.ends]
        exact if_pos (Grammar.ends_infixStep power)
      have either : (Rule.expression power).production.ends (.only false) (fun _ b => b.front) = true :=
        Bool.and_eq_true_iff.mpr ⟨rounds, rfl⟩
      exact Bool.and_eq_true_iff.mpr ⟨either, either⟩
  | _ => decide

/-- However many rules may be open. -/
theorem allEnd (depth : Nat) : AllEnd tokens depth := by
  induction depth with
  | zero =>
      -- Giving up a rule is reported, too.
      intro rule a s holds
      have given : ({ a with front := true, faulted := true } : Sight).Holds tokens (followStrictly 0 rule s).2 :=
        holds.report (by decide)
      exact given.only (by simp)
  | succ depth ih =>
      intro rule a s holds
      obtain ⟨fromNothing, fromFront⟩ := Bool.and_eq_true_iff.mp rule.ends_all
      cases front : a.front with
      | true =>
          have start : (Sight.only true).Holds tokens s := holds.only (by rw [front]; rfl)
          obtain ⟨after, known, holds⟩ := Production.ends_run ih rule.production fromFront start
          have known : after.front = true := known
          exact holds.only (by rw [known]; rfl)
      | false =>
          have start : (Sight.only false).Holds tokens s := holds.only rfl
          obtain ⟨after, known, holds⟩ := Production.ends_run ih rule.production fromNothing start
          exact holds.only known

end Rule

/-- All reports of missing semicolons are such. -/
theorem Parse.endsMissing_ofTokens (tokens : List Token) : EndsMissing tokens (ofTokens tokens).errors.reverse := by
  let start := Parsing.ofTokens tokens
  let depth := ruleDepth start.ahead.length
  have strictly := Grammar.run_eq_strictly Grammar.sourceFile (s := start) le_rfl
  have tidy : start.Tidy := Parsing.tidy_split tokens
  have all : start.rest = tokens := Parsing.split_eq tokens
  have holds : (Sight.only true).Holds tokens start :=
    .of_front (all ▸ List.suffix_refl _) tidy endsMissing_nil fun _ _ => .inl ⟨[], all, fun p isLast => by cases isLast⟩
  obtain ⟨after, -, finished⟩ := Production.ends_run (Rule.allEnd depth) Grammar.sourceFile (Q := fun _ _ => true)
    (by decide) holds
  rw [← strictly] at finished
  rw [ofTokens, List.reverse_reverse]
  exact finished.ends

/-! ## (5) The reports of a file -/

/-- Only which reports are earlier matters, not their order. -/
theorem EndMissing.mono {earlier others : List SyntaxError} {span : Span} (missing : EndMissing tokens earlier span)
    (subset : earlier ⊆ others) : EndMissing tokens others span := by
  cases missing with
  | token split last trivia significant other tag =>
      exact .token split last trivia significant other fun begins => (tag begins).imp fun e found =>
        ⟨subset found.1, found.2⟩

/-- **A closing tag directly behind a statement ends it.** A missing semicolon is reported only at a token that is no
semicolon, and if the trivia in front of this token begins with a closing tag, only after a report of something else at
the same token. -/
theorem missing_semicolon (source : Text) {before after : List SyntaxError} {e : SyntaxError}
    (split : (Parse.ofText source).errors = before ++ e :: after) (missing : e.fault = .expectedSemicolon) :
    EndMissing (tokenize source) before e.span := by
  have ends : EndsMissing (tokenize source) (Parse.ofText source).errors.reverse :=
    Parse.endsMissing_ofTokens (tokenize source)
  rw [split, List.reverse_append, List.reverse_cons, List.append_assoc, List.singleton_append] at ends
  exact (ends e before.reverse (List.suffix_append _ _) missing).mono fun d mem => List.mem_reverse.mp mem

/-- A keyword without its expression in front of a closing tag. -/
def taggedReturn : Text := "<?php \x7b return?><?php \x7d".toList

/-- The brace is taken for the missing expression, and only then for the missing semicolon. -/
theorem missing_semicolon_taggedReturn :
    (Parse.ofText taggedReturn).errors = [⟨.expectedExpression, ⟨22, 23⟩⟩, ⟨.expectedSemicolon, ⟨22, 23⟩⟩] ∧
      EndMissing (tokenize taggedReturn) [⟨.expectedExpression, ⟨22, 23⟩⟩] ⟨22, 23⟩ := by
  have split : (Parse.ofText taggedReturn).errors =
      [⟨.expectedExpression, ⟨22, 23⟩⟩] ++ ⟨.expectedSemicolon, ⟨22, 23⟩⟩ :: [] := by decide +kernel
  exact ⟨split, missing_semicolon taggedReturn split rfl⟩

/-- Two calls with a closing and an opening tag in place of the semicolon between them. -/
def taggedCalls (blank : Text) : Text := "<?php f()".toList ++ blank ++ "?> <?php g();".toList

/-- With a blank in front of the closing tag the semicolon is missed, though both statements end. -/
theorem blank_hides_closingTag :
    (Parse.ofText "<?php f(); g();".toList).errors = [] ∧ (Parse.ofText (taggedCalls [])).errors = [] ∧
      (Parse.ofText (taggedCalls [' '])).errors = [⟨.expectedSemicolon, ⟨19, 20⟩⟩] := by
  decide +kernel

end PhpMembers
