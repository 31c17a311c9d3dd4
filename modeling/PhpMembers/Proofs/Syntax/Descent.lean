import PhpMembers.Proofs.Syntax.Operands

/-! # No rule is given up

A bound on how many rules are open at once ends the recursion of the grammar. It is never reached: which rules a
production can follow before it takes a token can be read off its steps, and these are rules of a lower height only.
So what happens beyond the bound does not matter, and where a text has no errors every rule may be taken to have
been read to its end.

* `Production.still` : what a production does before it takes a token.
* `Production.still_run` : this holds of every parse.
* `Rule.height`, `Rule.reach` : how many rules can be open.
* `Rule.followWith_eq` : what happens beyond the bound does not matter.
* `Rule.followStrictly`, `Grammar.run_eq_strictly` : giving up may be taken for an error. -/

namespace PhpMembers

/-- The kind of the next token, if there is one. -/
def Parsing.next? (s : Parsing) : Option Kind := s.ahead.head?.map (·.token.kind)

/-- The kind of the next token by its place. -/
theorem Parsing.getD_next? (s : Parsing) : s.next?.getD .error = s.kindAt 0 := by
  rw [next?, kindAt]
  cases s.ahead <;> rfl

/-- At the end no token is next. -/
theorem Parsing.isNone_next? (s : Parsing) : s.next?.isNone = s.atEnd := by
  rw [next?, atEnd]
  cases s.ahead <;> rfl

/-- The next token depends on the tokens ahead only. -/
theorem Parsing.next?_congr {s t : Parsing} (same : t.ahead = s.ahead) : t.next? = s.next? := by
  rw [next?, next?, same]

/-- Taking a token leaves fewer, unless there is none to take. -/
theorem Parsing.take_moved {s t : Parsing} (rename : Kind → Kind) (unmoved : t.ahead = s.ahead) {Q : Bool → Bool}
    (still : (s.next?.isSome || Q true) = true) :
    (t.take rename).ahead.length < s.ahead.length ∨ (t.take rename).ahead = s.ahead ∧ Q true = true := by
  rw [ahead_take, unmoved]
  rw [next?] at still
  cases ahead : s.ahead with
  | nil =>
      rw [ahead] at still
      exact .inr ⟨rfl, still⟩
  | cons l rest => exact .inl (Nat.lt_succ_self _)

namespace Production

variable {ρ : Type}

/-! ## (1) Before a token is taken -/

/-- Whether a production that is read where `next` is the kind of the next token follows only rules that pass the
test `may` before it takes a token, and gives only answers with the property `Q` if it takes none. Of the rules that
pass `takes` it is known that they take a token where there is one. -/
def still (next : Option Kind) (may takes : ρ → Bool) : Production ρ → (Bool → Bool) → Bool
  | answer ok, Q => Q ok
  | look .atEnd, Q => Q next.isNone
  | look (.kind 0 test), Q => Q (test (next.getD .error))
  | look _, Q => Q true && Q false
  | bump, Q | bumpAs _, Q => next.isSome || Q true
  | fault _, Q => Q false
  | andThen first second, Q => first.still next may takes fun _ => second.still next may takes Q
  | branch condition yes no, Q => condition.still next may takes fun result =>
    if result then yes.still next may takes Q else no.still next may takes Q
  | byKind cases, Q => (cases (next.getD .error)).still next may takes Q
  | node _ body, Q | group body, Q | wrap _ body, Q => body.still next may takes Q
  | loop body, Q => body.still next may takes fun result => !result && Q true
  | advances body, Q => body.still next may takes fun _ => Q false
  | call rule, Q => may rule && (next.isSome && takes rule || Q true && Q false)

variable {f g : ρ → Parsing → Bool × Parsing}

/-- Whether a production only looks at the tokens ahead. -/
def looks : Production ρ → Bool
  | answer _ | look _ => true
  | branch condition yes no => condition.looks && yes.looks && no.looks
  | _ => false

/-- A production that only looks changes nothing. -/
theorem looks_run (p : Production ρ) (looks : p.looks = true) (s : Parsing) : (p.run f s).2 = s := by
  induction p with
  | answer ok => rfl
  | look condition => rfl
  | branch condition yes no ih ihYes ihNo =>
      obtain ⟨looks, looksNo⟩ := Bool.and_eq_true_iff.mp looks
      obtain ⟨looks, looksYes⟩ := Bool.and_eq_true_iff.mp looks
      have unmoved := ih looks
      refine branch_cases (P := fun result => result.2 = s) (fun _ => ?_) (fun _ => ?_)
      · rw [unmoved]
        exact ihYes looksYes
      · rw [unmoved]
        exact ihNo looksNo
  | _ => cases looks

/-- The tokens that are left are the last ones. -/
theorem ahead_run_suffix (rules : ∀ rule s, (f rule s).2.ahead <:+ s.ahead) (p : Production ρ) (s : Parsing) :
    (p.run f s).2.ahead <:+ s.ahead := by
  have take (s : Parsing) (rename : Kind → Kind) : (s.take rename).ahead <:+ s.ahead := by
    rw [Parsing.ahead_take]
    exact List.tail_suffix _
  induction p generalizing s with
  | answer ok => exact List.suffix_refl _
  | look condition => exact List.suffix_refl _
  | bump => exact take s id
  | bumpAs kind => exact take s _
  | fault cause => exact List.suffix_refl _
  | andThen first second ih₁ ih₂ => exact (ih₂ _).trans (ih₁ s)
  | branch condition yes no ih ihYes ihNo =>
      have before := ih s
      exact branch_cases (P := fun result => result.2.ahead <:+ s.ahead) (fun _ => (ihYes _).trans before)
        (fun _ => (ihNo _).trans before)
  | byKind cases ih => exact ih _ s
  | node kind body ih => exact ih s.flush.fresh
  | group body ih => exact ih s.flush.fresh
  | wrap kind body ih => exact ih s
  | loop body ih =>
      exact iterate_induction (P := fun t => t.ahead <:+ s.ahead) (fun t kept => (ih t).trans kept) _
        (List.suffix_refl _)
  | advances body ih => exact ih s
  | call rule => exact rules rule s

/-- Steps that agree on what comes up are repeated alike. -/
theorem iterate_congr {step step' : Parsing → Bool × Parsing} {n : Nat}
    (agree : ∀ t, t.ahead.length ≤ n → step t = step' t)
    (shrinks : ∀ t, (step t).2.ahead.length ≤ t.ahead.length) (k : Nat) {t : Parsing} (le : t.ahead.length ≤ n) :
    iterate step k t = iterate step' k t := by
  induction k generalizing t with
  | zero => rfl
  | succ k ih =>
      have after := (shrinks t).trans le
      rw [iterate, iterate, ← agree t le]
      rcases found : step t with ⟨_ | _, u⟩
      · rfl
      · rw [found] at after
        exact ih after

/-- Rounds that take a token each, as long as they go on, are repeated until nothing is left to do. -/
theorem iterate_stops {step : Parsing → Bool × Parsing}
    (each : ∀ t, step t = (false, t) ∨ (step t).1 = true ∧ (step t).2.ahead.length < t.ahead.length) {n : Nat}
    {t : Parsing} (enough : t.ahead.length < n) : step (iterate step n t) = (false, iterate step n t) := by
  induction n generalizing t with
  | zero => cases enough
  | succ n ih =>
      rw [iterate]
      rcases each t with stops | ⟨goesOn, shorter⟩
      · rw [stops]
        exact stops
      · rcases found : step t with ⟨_ | _, u⟩
        · rw [found] at goesOn
          cases goesOn
        · rw [found] at shorter
          exact ih (Nat.lt_of_lt_of_le shorter (Nat.le_of_lt_succ enough))

/-- **What a production does is settled by what the rules do with as few tokens ahead.** -/
theorem run_eq_of_length_le {n : Nat} (agree : ∀ rule t, t.ahead.length ≤ n → f rule t = g rule t)
    (shrinks : ∀ rule t, (f rule t).2.ahead.length ≤ t.ahead.length) (p : Production ρ) {t : Parsing}
    (le : t.ahead.length ≤ n) : p.run f t = p.run g t := by
  induction p generalizing t with
  | answer ok => rfl
  | look condition => rfl
  | bump => rfl
  | bumpAs kind => rfl
  | fault cause => rfl
  | andThen first second ih₁ ih₂ =>
      rw [run, run, ← ih₁ le]
      exact ih₂ ((length_run_le shrinks first t).trans le)
  | branch condition yes no ih ihYes ihNo =>
      have after := (length_run_le shrinks condition t).trans le
      rw [run, run, ← ih le]
      rcases found : condition.run f t with ⟨_ | _, u⟩
      · rw [found] at after
        exact ihNo after
      · rw [found] at after
        exact ihYes after
  | byKind cases ih => exact ih _ le
  | node kind body ih | group body ih =>
      have same : body.run f t.flush.fresh = body.run g t.flush.fresh := ih le
      rw [run, run, same]
  | wrap kind body ih => rw [run, run, ih le]
  | loop body ih => rw [run, run, iterate_congr (fun u small => ih small) (length_run_le shrinks body) _ le]
  | advances body ih => rw [run, run, ih le]
  | call rule => exact agree rule t le

/-- The answer to a condition is one that was foreseen where the tokens ahead are the same. -/
theorem still_look {s t : Parsing} {may takes : ρ → Bool} {condition : Lookahead} {Q : Bool → Bool}
    (still : (look condition).still s.next? may takes Q = true) (unmoved : t.ahead = s.ahead) :
    Q (condition.holds t) = true := by
  cases condition with
  | atEnd =>
      have still : Q s.next?.isNone = true := still
      rwa [← Parsing.next?_congr unmoved, Parsing.isNone_next?] at still
  | kind n test =>
      cases n with
      | zero =>
          have still : Q (test (s.next?.getD .error)) = true := still
          rwa [← Parsing.next?_congr unmoved, Parsing.getD_next?] at still
      | succ n => exact of_both still _
  | kinds test => exact of_both still _
  | word n words => exact of_both still _
  | closeTag => exact of_both still _

/-- Behind a token, where the rules agree, a production does the same and stays there. -/
theorem run_behind {n : Nat} (later : ∀ rule t, t.ahead.length < n → f rule t = g rule t)
    (shrinks : ∀ rule t, (f rule t).2.ahead.length ≤ t.ahead.length) (p : Production ρ) {t : Parsing}
    (moved : t.ahead.length < n) : p.run f t = p.run g t ∧ (p.run f t).2.ahead.length < n :=
  ⟨run_eq_of_length_le (fun rule u le => later rule u (le.trans_lt moved)) shrinks p le_rfl,
    (length_run_le shrinks p t).trans_lt moved⟩

/-- Rounds do the same if the first one does, and takes a token unless it is the last. -/
theorem loop_behind {n : Nat} (later : ∀ rule t, t.ahead.length < n → f rule t = g rule t)
    (shrinks : ∀ rule t, (f rule t).2.ahead.length ≤ t.ahead.length) {body : Production ρ} {t : Parsing}
    (same : body.run f t = body.run g t)
    (moves : (body.run f t).1 = true → (body.run f t).2.ahead.length < n) :
    (loop body).run f t = (loop body).run g t ∧
      (((loop body).run f t).2 = (body.run f t).2 ∨ ((loop body).run f t).2.ahead.length < n) := by
  rw [run, run, iterate, iterate, ← same]
  rcases found : body.run f t with ⟨_ | _, u⟩
  · exact ⟨rfl, .inl rfl⟩
  · rw [found] at moves
    have moved : u.ahead.length < n := moves rfl
    have rounds := iterate_congr (n := u.ahead.length)
      (fun v le => (run_behind later shrinks body (le.trans_lt moved)).1) (length_run_le shrinks body)
      t.ahead.length le_rfl
    refine ⟨by simp only [rounds], .inr ?_⟩
    exact iterate_induction (P := fun v => v.ahead.length < n)
      (fun v kept => (run_behind later shrinks body kept).2) _ moved

/-- **What is read off the steps before the first token holds of every parse**: where the rules agree that can be
followed there, and all rules agree behind the next token, the production does the same, and unless it takes a token
its answer is one that was foreseen. -/
theorem still_run {s : Parsing} {may takes : ρ → Bool}
    (later : ∀ rule t, t.ahead.length < s.ahead.length → f rule t = g rule t)
    (now : ∀ rule t, t.ahead = s.ahead → may rule = true →
      f rule t = g rule t ∧ (s.next?.isSome = true → takes rule = true → (f rule t).2.ahead ≠ s.ahead))
    (ends : ∀ rule t, (f rule t).2.ahead <:+ t.ahead) (p : Production ρ) {Q : Bool → Bool}
    (still : p.still s.next? may takes Q = true) {t : Parsing} (unmoved : t.ahead = s.ahead) :
    p.run f t = p.run g t ∧
      ((p.run f t).2.ahead.length < s.ahead.length ∨ (p.run f t).2.ahead = s.ahead ∧ Q (p.run f t).1 = true) := by
  have shrinks (rule : ρ) (u : Parsing) : (f rule u).2.ahead.length ≤ u.ahead.length := (ends rule u).length_le
  -- A step leads behind the next token, where nothing is left to compare, or the analysis goes on in front of it.
  have goOn (p : Production ρ) {Q : Bool → Bool} {u : Parsing}
      (after : u.ahead.length < s.ahead.length ∨ u.ahead = s.ahead ∧ p.still s.next? may takes Q = true)
      (inFront : p.still s.next? may takes Q = true → u.ahead = s.ahead → p.run f u = p.run g u ∧
        ((p.run f u).2.ahead.length < s.ahead.length ∨
          (p.run f u).2.ahead = s.ahead ∧ Q (p.run f u).1 = true)) :
      p.run f u = p.run g u ∧
        ((p.run f u).2.ahead.length < s.ahead.length ∨
          (p.run f u).2.ahead = s.ahead ∧ Q (p.run f u).1 = true) := by
    rcases after with moved | ⟨unmoved, still⟩
    · obtain ⟨same, moved⟩ := run_behind later shrinks p moved
      exact ⟨same, .inl moved⟩
    · exact inFront still unmoved
  induction p generalizing Q t with
  | answer ok => exact ⟨rfl, .inr ⟨unmoved, still⟩⟩
  | look condition => exact ⟨rfl, .inr ⟨unmoved, still_look still unmoved⟩⟩
  | bump => exact ⟨rfl, Parsing.take_moved id unmoved still⟩
  | bumpAs kind => exact ⟨rfl, Parsing.take_moved _ unmoved still⟩
  | fault cause => exact ⟨rfl, .inr ⟨unmoved, still⟩⟩
  | andThen first second ih₁ ih₂ =>
      obtain ⟨same, after⟩ := ih₁ still unmoved
      rw [run, run, ← same]
      exact goOn second after fun still unmoved => ih₂ still unmoved
  | branch condition yes no ih ihYes ihNo =>
      obtain ⟨same, after⟩ := ih still unmoved
      rw [run, run, ← same]
      rcases found : condition.run f t with ⟨_ | _, u⟩
      · rw [found] at after
        exact goOn no after fun still unmoved => ihNo still unmoved
      · rw [found] at after
        exact goOn yes after fun still unmoved => ihYes still unmoved
  | byKind cases ih =>
      have kind : s.next?.getD .error = t.kindAt 0 := by
        rw [← Parsing.getD_next?, Parsing.next?_congr unmoved]
      have still : (cases (s.next?.getD .error)).still s.next? may takes Q = true := still
      rw [kind] at still
      exact ih _ still unmoved
  | node kind body ih | group body ih =>
      obtain ⟨same, after⟩ := ih still (t := t.flush.fresh) unmoved
      rw [run, run, ← same]
      exact ⟨rfl, after⟩
  | wrap kind body ih =>
      obtain ⟨same, after⟩ := ih still unmoved
      rw [run, run, ← same]
      exact ⟨rfl, after⟩
  | loop body ih =>
      obtain ⟨same, after⟩ := ih still unmoved
      -- In front of the next token a round answers `false`, so it is the last one.
      have moves (goesOn : (body.run f t).1 = true) : (body.run f t).2.ahead.length < s.ahead.length := by
        refine after.resolve_right fun stays => ?_
        obtain ⟨-, last⟩ := stays
        rw [goesOn] at last
        cases last
      obtain ⟨same, only | moved⟩ := loop_behind later shrinks same moves
      · refine ⟨same, ?_⟩
        rw [only]
        exact after.imp_right fun stays => ⟨stays.1, (Bool.and_eq_true_iff.mp stays.2).2⟩
      · exact ⟨same, .inl moved⟩
  | advances body ih =>
      obtain ⟨same, after⟩ := ih still unmoved
      rw [run, run, ← same]
      refine ⟨rfl, after.imp_right fun stays => ⟨stays.1, ?_⟩⟩
      have notShorter : ¬(body.run f t).2.ahead.length < t.ahead.length := by
        rw [stays.1, unmoved]
        exact Nat.lt_irrefl _
      simp only [decide_eq_false notShorter, Bool.and_false]
      exact stays.2
  | call rule =>
      obtain ⟨may, next⟩ := Bool.and_eq_true_iff.mp still
      obtain ⟨same, takes⟩ := now rule t unmoved may
      refine ⟨same, ?_⟩
      have tail := ends rule t
      rw [unmoved] at tail
      by_cases stays : (f rule t).2.ahead = s.ahead
      · rcases Bool.or_eq_true_iff.mp next with token | both
        · obtain ⟨more, known⟩ := Bool.and_eq_true_iff.mp token
          exact absurd stays (takes more known)
        · exact .inr ⟨stays, of_both both _⟩
      · exact .inl (Nat.lt_of_le_of_ne tail.length_le fun same => stays (tail.eq_of_length same))

end Production

open Production

namespace Rule

/-! ## (2) How many rules can be open -/

/-- How many rules, one inside the other, can be followed before a token is taken, by the kind of the next token.
A block without its opening brace goes on with statements; where the text has ended, no token is in the way. -/
def height : Option Kind → Rule → Nat
  | some .lBrace, block => 0
  | some _, block => 6
  | some _, statement => 5
  | some _, expression _ => 4
  | some _, unary => 3
  | some _, postfixed | some _, classMember | some _, param => 2
  | some _, primary | some _, anonClass | some _, type => 1
  | some _, _ => 0
  | none, statement | none, choice => 4
  | none, expression _ => 3
  | none, unary | none, param => 2
  | none, postfixed | none, type | none, closure | none, arrowFn | none, functionDecl | none, classLike
  | none, anonClass => 1
  | none, _ => 0

/-- Heights are low. -/
theorem height_lt (next : Option Kind) (rule : Rule) : rule.height next < 7 := by
  unfold height
  split
  all_goals decide

/-- The rules that take a token wherever there is one: they begin with it and do not test it. -/
def eager : Rule → Bool
  | argList | attributeGroup | braced => true
  | _ => false

/-- Whether a rule follows rules of a lower height only before it takes a token. -/
def descends (rule : Rule) (next : Option Kind) : Bool :=
  rule.production.still next (fun inner => inner.height next < rule.height next) eager
    fun _ => !(next.isSome && rule.eager)

/-- The kinds that the next token can have, and that there is none. -/
def nexts : List (Option Kind) := none :: Kind.all.map some

theorem mem_nexts (next : Option Kind) : next ∈ nexts := by
  cases next with
  | none => exact List.mem_cons_self
  | some kind => exact List.mem_cons_of_mem _ (List.mem_map_of_mem (Kind.mem_all kind))

/-- An infix operator is a token, so a round over infix operators takes one or is the last. -/
theorem still_infixStep (next : Option Kind) (power : Nat) (may takes : Rule → Bool) :
    (Grammar.infixStep power).still next may takes (fun result => !result) = true := by
  rw [Grammar.infixStep, still]
  split
  · rfl
  · rename_i p found
    split
    · rfl
    · -- At the end there is no operator.
      cases next with
      | none => cases found
      | some kind => rfl

/-- **Every rule follows rules of a lower height only before it takes a token.** -/
theorem descends_all (rule : Rule) (next : Option Kind) : rule.descends next = true := by
  have each (rule : Rule) (all : nexts.all rule.descends = true) : rule.descends next = true :=
    List.all_eq_true.mp all next (mem_nexts next)
  cases rule with
  | expression power =>
      have lower : decide (unary.height next < (expression power).height next) = true := by
        cases next with
        | none => rfl
        | some kind => cases kind <;> rfl
      have round := still_infixStep next power
        (fun inner => decide (inner.height next < (expression power).height next)) eager
      simp only [descends, production, Grammar.operatorChain, still, stop, lower, eager, Bool.and_false,
        Bool.not_false, Bool.and_true, Bool.false_or, Bool.true_and, if_true]
      simpa using round
  | _ => exact each _ (by decide +kernel)

/-! ## (3) Beyond the bound -/

/-- Follow a rule, with at most `depth` rules open at once, and do as `given` says beyond that. -/
def followWith (given : Rule → Parsing → Bool × Parsing) : Nat → Rule → Parsing → Bool × Parsing
  | 0, rule, s => given rule s
  | depth + 1, rule, s => rule.production.run (followWith given depth) s

/-- Following a rule gives it up beyond the bound. -/
theorem follow_eq (depth : Nat) : follow depth = followWith (fun _ s => (false, s)) depth := by
  induction depth with
  | zero => rfl
  | succ depth ih =>
      funext rule s
      rw [follow, followWith, ih]

/-- A bound on how many rules are open at once from where a rule is followed. -/
def reach (rule : Rule) (s : Parsing) : Nat := 7 * s.ahead.length + rule.height s.next?

/-- Behind a token the bound is lower for every rule. -/
theorem reach_lt {s t : Parsing} (moved : t.ahead.length < s.ahead.length) (inner rule : Rule) :
    inner.reach t < rule.reach s := by
  have low := height_lt t.next? inner
  rw [reach, reach]
  omega

variable {given given' : Rule → Parsing → Bool × Parsing}

/-- Following a rule brings no token back. -/
theorem ahead_followWith_suffix (ends : ∀ rule s, (given rule s).2.ahead <:+ s.ahead) (depth : Nat) (rule : Rule)
    (s : Parsing) : (followWith given depth rule s).2.ahead <:+ s.ahead := by
  induction depth generalizing rule s with
  | zero => exact ends rule s
  | succ depth ih => exact ahead_run_suffix ih rule.production s

/-- **What happens beyond the bound does not matter**, if it is high enough. -/
theorem followWith_eq (ends : ∀ rule s, (given rule s).2.ahead <:+ s.ahead) {depth depth' : Nat} {rule : Rule}
    {s : Parsing} (enough : rule.reach s < depth) (enough' : rule.reach s < depth') :
    followWith given depth rule s = followWith given' depth' rule s := by
  suffices both : followWith given depth rule s = followWith given' depth' rule s ∧
      (s.next?.isSome = true → rule.eager = true → (followWith given depth rule s).2.ahead ≠ s.ahead) from both.1
  induction depth generalizing depth' rule s with
  | zero => cases enough
  | succ depth ih =>
      cases depth' with
      | zero => cases enough'
      | succ depth' =>
          -- Behind a token any rule may be followed, in front of it those of a lower height.
          have later (inner : Rule) (t : Parsing) (moved : t.ahead.length < s.ahead.length) :
              followWith given depth inner t = followWith given' depth' inner t := by
            have lower := reach_lt moved inner rule
            exact (ih (by omega) (by omega)).1
          have now (inner : Rule) (t : Parsing) (unmoved : t.ahead = s.ahead)
              (may : decide (inner.height s.next? < rule.height s.next?) = true) :
              followWith given depth inner t = followWith given' depth' inner t ∧
                (s.next?.isSome = true → inner.eager = true → (followWith given depth inner t).2.ahead ≠ s.ahead) := by
            have lower : inner.reach t < rule.reach s := by
              rw [reach, reach, unmoved, Parsing.next?_congr unmoved]
              exact Nat.add_lt_add_left (of_decide_eq_true may) _
            have low : inner.reach t < depth := by omega
            have low' : inner.reach t < depth' := by omega
            have same := ih low low'
            rwa [Parsing.next?_congr unmoved, unmoved] at same
          obtain ⟨same, after⟩ := still_run later now (ahead_followWith_suffix ends depth) rule.production
            (rule.descends_all s.next?) rfl
          refine ⟨same, fun token eager stays => ?_⟩
          rcases after with moved | ⟨-, foreseen⟩
          · rw [followWith] at stays
            rw [stays] at moved
            exact Nat.lt_irrefl _ moved
          · rw [token, eager] at foreseen
            cases foreseen

/-- Follow a rule as if giving it up were an error. -/
def followStrictly : Nat → Rule → Parsing → Bool × Parsing :=
  followWith fun _ s => (false, s.report .expectedExpression)

/-- **No rule is given up** that is followed in the reading of a file. -/
theorem follow_eq_followStrictly {n : Nat} (rule : Rule) {s : Parsing} (le : s.ahead.length ≤ n) :
    follow (ruleDepth n) rule s = followStrictly (ruleDepth n) rule s := by
  have enough : rule.reach s < ruleDepth n := by
    have low := height_lt s.next? rule
    rw [reach, ruleDepth]
    omega
  rw [follow_eq, followStrictly]
  exact followWith_eq (fun _ _ => List.suffix_refl _) enough enough

end Rule

/-- So any production may be read as if giving up a rule were an error. -/
theorem Grammar.run_eq_strictly (p : Grammar) {n : Nat} {s : Parsing} (le : s.ahead.length ≤ n) :
    p.run (Rule.follow (ruleDepth n)) s = p.run (Rule.followStrictly (ruleDepth n)) s :=
  run_eq_of_length_le (fun rule _ le => Rule.follow_eq_followStrictly rule le)
    (Rule.length_follow_le (ruleDepth n)) p le

namespace Rule

variable (depth : Nat) (rule : Rule) (s : Parsing)

/-- Errors stay when a rule is followed strictly. -/
theorem errors_followStrictly : s.errors <:+ (followStrictly depth rule s).2.errors := by
  induction depth generalizing rule s with
  | zero => exact List.suffix_cons _ _
  | succ depth ih => exact errors_run ih rule.production s

/-- Finished parts stay when a rule is followed strictly. -/
theorem built_followStrictly : s.built <:+ (followStrictly depth rule s).2.built := by
  induction depth generalizing rule s with
  | zero => exact List.suffix_refl _
  | succ depth ih => exact built_run ih rule.production rule.keeps_all s

/-- The tokens ahead stay as they are when a rule is followed strictly. -/
theorem tidy_followStrictly (tidy : s.Tidy) : (followStrictly depth rule s).2.Tidy := by
  induction depth generalizing rule s with
  | zero => exact tidy
  | succ depth ih => exact tidy_run ih rule.production tidy

/-- No token comes back when a rule is followed strictly. -/
theorem ahead_followStrictly_suffix : (followStrictly depth rule s).2.ahead <:+ s.ahead :=
  ahead_followWith_suffix (fun _ _ => List.suffix_refl _) depth rule s

end Rule

end PhpMembers
