import PhpMembers.Proofs.Syntax.Descent

/-! # Every parse ends

The execution of a production bounds its loops and the number of rules that are open. Neither bound matters: read
without any bound, every production of the grammar ends, and with the same result. Each round of a loop takes a token
or is the last one, and a rule follows another one behind a token or one of a lower height. So the number of tokens
ahead, together with the height of the rule, goes down.

* `Production.Ends` : reading without a bound; `Production.Ends.unique` : there is one result at most.
* `Production.Enters` : the rules that are followed on the way, and where.
* `Production.loops`, `Production.strides` : the loops of a production, and whether their rounds take tokens.
* `Production.Ends.foreseen`, `Production.Enters.foreseen` : what is read off the steps before the first token.
* `Production.exists_ends`, `Rule.exists_ends` : every production and every rule ends.
* `Production.Ends.run_eq` : the bounded execution has the same result.
* `Glances` : loops that only look ahead. -/

namespace PhpMembers

namespace Production

variable {ρ : Type} {rules : ρ → Production ρ}

/-! ## (1) Reading without a bound -/

/-- `Ends rules p s result`: reading `p` from `s` on ends with the result, where the rules read what `rules` says.
Loops may take any number of rounds, and any number of rules may be open. -/
inductive Ends (rules : ρ → Production ρ) : Production ρ → Parsing → Bool × Parsing → Prop
  /-- Nothing is done. -/
  | answer {ok : Bool} {s : Parsing} : Ends rules (answer ok) s (ok, s)
  /-- A condition is looked at. -/
  | look {condition : Lookahead} {s : Parsing} : Ends rules (look condition) s (condition.holds s, s)
  /-- The next token is taken. -/
  | bump {s : Parsing} : Ends rules bump s (true, s.take id)
  /-- The next token is taken under another kind. -/
  | bumpAs {kind : Kind} {s : Parsing} : Ends rules (bumpAs kind) s (true, s.take fun _ => kind)
  /-- A fault is reported. -/
  | fault {cause : Fault} {s : Parsing} : Ends rules (fault cause) s (false, s.report cause)
  /-- Both ends are reached, one after the other. -/
  | andThen {first second : Production ρ} {s : Parsing} {middle result : Bool × Parsing}
      (before : Ends rules first s middle) (after : Ends rules second middle.2 result) :
      Ends rules (andThen first second) s result
  /-- The condition is answered with `true`. -/
  | yes {condition yes no : Production ρ} {s t : Parsing} {result : Bool × Parsing}
      (before : Ends rules condition s (true, t)) (after : Ends rules yes t result) :
      Ends rules (branch condition yes no) s result
  /-- The condition is answered with `false`. -/
  | no {condition yes no : Production ρ} {s t : Parsing} {result : Bool × Parsing}
      (before : Ends rules condition s (false, t)) (after : Ends rules no t result) :
      Ends rules (branch condition yes no) s result
  /-- The case for the next token ends. -/
  | byKind {cases : Kind → Production ρ} {s : Parsing} {result : Bool × Parsing}
      (inner : Ends rules (cases (s.kindAt 0)) s result) : Ends rules (byKind cases) s result
  /-- What is inside a node ends. -/
  | node {kind : Kind} {body : Production ρ} {s : Parsing} {inner : Bool × Parsing}
      (inside : Ends rules body s.flush.fresh inner) :
      Ends rules (node kind body) s
        (inner.1, { inner.2 with built := .node kind inner.2.built.reverse :: s.flush.built })
  /-- What is inside a group ends. -/
  | group {body : Production ρ} {s : Parsing} {inner : Bool × Parsing}
      (inside : Ends rules body s.flush.fresh inner) :
      Ends rules (group body) s (inner.1, { inner.2 with built := inner.2.built ++ s.flush.built })
  /-- What is to be gathered ends. -/
  | wrap {kind : Kind} {body : Production ρ} {s : Parsing} {inner : Bool × Parsing}
      (inside : Ends rules body s inner) :
      Ends rules (wrap kind body) s (inner.1, { inner.2 with built := [.node kind inner.2.built.reverse] })
  /-- A round of a loop goes on, and the other rounds end. -/
  | again {body : Production ρ} {s t : Parsing} {result : Bool × Parsing}
      (round : Ends rules body s (true, t)) (others : Ends rules (loop body) t result) :
      Ends rules (loop body) s result
  /-- A round leaves the loop. -/
  | leave {body : Production ρ} {s t : Parsing} (round : Ends rules body s (false, t)) :
      Ends rules (loop body) s (true, t)
  /-- It is looked whether a token was taken. -/
  | advances {body : Production ρ} {s : Parsing} {inner : Bool × Parsing} (inside : Ends rules body s inner) :
      Ends rules (advances body) s (inner.1 && inner.2.ahead.length < s.ahead.length, inner.2)
  /-- The rule that is followed ends. -/
  | call {rule : ρ} {s : Parsing} {result : Bool × Parsing} (inner : Ends rules (rules rule) s result) :
      Ends rules (call rule) s result

/-- `Enters rules p s rule t`: when `p` is read from `s` on, the rule is followed at `t`. Rules that this rule follows
in turn do not count. -/
inductive Enters (rules : ρ → Production ρ) : Production ρ → Parsing → ρ → Parsing → Prop
  /-- A rule is followed at once. -/
  | call {rule : ρ} {s : Parsing} : Enters rules (call rule) s rule s
  /-- In the first of two productions. -/
  | first {first second : Production ρ} {s t : Parsing} {rule : ρ} (inner : Enters rules first s rule t) :
      Enters rules (andThen first second) s rule t
  /-- In the second of two productions. -/
  | second {first second : Production ρ} {s t : Parsing} {middle : Bool × Parsing} {rule : ρ}
      (before : Ends rules first s middle) (inner : Enters rules second middle.2 rule t) :
      Enters rules (andThen first second) s rule t
  /-- In a condition. -/
  | condition {condition yes no : Production ρ} {s t : Parsing} {rule : ρ}
      (inner : Enters rules condition s rule t) : Enters rules (branch condition yes no) s rule t
  /-- Where the condition is answered with `true`. -/
  | yes {condition yes no : Production ρ} {s t u : Parsing} {rule : ρ}
      (before : Ends rules condition s (true, u)) (inner : Enters rules yes u rule t) :
      Enters rules (branch condition yes no) s rule t
  /-- Where the condition is answered with `false`. -/
  | no {condition yes no : Production ρ} {s t u : Parsing} {rule : ρ}
      (before : Ends rules condition s (false, u)) (inner : Enters rules no u rule t) :
      Enters rules (branch condition yes no) s rule t
  /-- In the case for the next token. -/
  | byKind {cases : Kind → Production ρ} {s t : Parsing} {rule : ρ}
      (inner : Enters rules (cases (s.kindAt 0)) s rule t) : Enters rules (byKind cases) s rule t
  /-- Inside a node. -/
  | node {kind : Kind} {body : Production ρ} {s t : Parsing} {rule : ρ}
      (inner : Enters rules body s.flush.fresh rule t) : Enters rules (node kind body) s rule t
  /-- Inside a group. -/
  | group {body : Production ρ} {s t : Parsing} {rule : ρ} (inner : Enters rules body s.flush.fresh rule t) :
      Enters rules (group body) s rule t
  /-- In what is to be gathered. -/
  | wrap {kind : Kind} {body : Production ρ} {s t : Parsing} {rule : ρ} (inner : Enters rules body s rule t) :
      Enters rules (wrap kind body) s rule t
  /-- In the first round of a loop. -/
  | round {body : Production ρ} {s t : Parsing} {rule : ρ} (inner : Enters rules body s rule t) :
      Enters rules (loop body) s rule t
  /-- In a later round. -/
  | later {body : Production ρ} {s t u : Parsing} {rule : ρ} (round : Ends rules body s (true, u))
      (inner : Enters rules (loop body) u rule t) : Enters rules (loop body) s rule t
  /-- In what is to take a token. -/
  | advances {body : Production ρ} {s t : Parsing} {rule : ρ} (inner : Enters rules body s rule t) :
      Enters rules (advances body) s rule t

/-- **Reading has one result at most.** -/
theorem Ends.unique {p : Production ρ} {s : Parsing} {result other : Bool × Parsing}
    (ends : Ends rules p s result) (ends' : Ends rules p s other) : other = result := by
  -- An answer decides which way a production goes on, so both readings go the same way.
  induction ends generalizing other with
  | answer | look | bump | bumpAs | fault =>
      cases ends'
      rfl
  | andThen before after ih₁ ih₂ =>
      cases ends' with
      | andThen before' after' =>
          obtain rfl := ih₁ before'
          exact ih₂ after'
  | yes before after ih₁ ih₂ =>
      cases ends' with
      | yes before' after' =>
          obtain rfl := (Prod.mk.inj (ih₁ before')).2
          exact ih₂ after'
      | no before' after' => cases ih₁ before'
  | no before after ih₁ ih₂ =>
      cases ends' with
      | yes before' after' => cases ih₁ before'
      | no before' after' =>
          obtain rfl := (Prod.mk.inj (ih₁ before')).2
          exact ih₂ after'
  | byKind inner ih | call inner ih =>
      cases ends'
      rename_i inner'
      exact ih inner'
  | node inside ih | group inside ih | wrap inside ih | advances inside ih =>
      cases ends'
      rename_i inside'
      rw [ih inside']
  | again round others ih₁ ih₂ =>
      cases ends' with
      | again round' others' =>
          obtain rfl := (Prod.mk.inj (ih₁ round')).2
          exact ih₂ others'
      | leave round' => cases ih₁ round'
  | leave round ih =>
      cases ends' with
      | again round' others' => cases ih round'
      | leave round' => rw [(Prod.mk.inj (ih round')).2]

/-- The tokens that are left are the last ones. -/
theorem Ends.suffix {p : Production ρ} {s : Parsing} {result : Bool × Parsing} (ends : Ends rules p s result) :
    result.2.ahead <:+ s.ahead := by
  have take (s : Parsing) (rename : Kind → Kind) : (s.take rename).ahead <:+ s.ahead := by
    rw [Parsing.ahead_take]
    exact List.tail_suffix _
  induction ends with
  | answer | look | fault => exact List.suffix_refl _
  | bump => exact take _ id
  | bumpAs => exact take _ _
  | andThen _ _ ih₁ ih₂ | yes _ _ ih₁ ih₂ | no _ _ ih₁ ih₂ | again _ _ ih₁ ih₂ => exact ih₂.trans ih₁
  | byKind _ ih | node _ ih | group _ ih | wrap _ ih | leave _ ih | advances _ ih | call _ ih => exact ih

/-- A rule is followed at one of the tokens ahead or at the end. -/
theorem Enters.suffix {p : Production ρ} {s t : Parsing} {rule : ρ} (enters : Enters rules p s rule t) :
    t.ahead <:+ s.ahead := by
  induction enters with
  | call => exact List.suffix_refl _
  | first _ ih | condition _ ih | byKind _ ih | node _ ih | group _ ih | wrap _ ih | round _ ih | advances _ ih =>
      exact ih
  | second before _ ih | yes before _ ih | no before _ ih | later before _ ih => exact ih.trans before.suffix

/-! ## (2) Before a token is taken -/

/-- What is read off the steps before the first token holds of every result: either a token has been taken, or the
answer is one that was foreseen. -/
theorem Ends.foreseen {s t : Parsing} {may : Rule → Bool} {p : Grammar} {Q : Bool → Bool} {result : Bool × Parsing}
    (ends : Ends Rule.production p t result) (still : p.still s.next? may Rule.eager Q = true)
    (unmoved : t.ahead = s.ahead) :
    result.2.ahead.length < s.ahead.length ∨ result.2.ahead = s.ahead ∧ Q result.1 = true := by
  -- Behind the next token nothing is left to show.
  have behind {p : Grammar} {u : Parsing} {result : Bool × Parsing} (ends : Ends Rule.production p u result)
      (moved : u.ahead.length < s.ahead.length) : result.2.ahead.length < s.ahead.length :=
    ends.suffix.length_le.trans_lt moved
  induction ends generalizing Q may with
  | answer => exact .inr ⟨unmoved, still⟩
  | look => exact .inr ⟨unmoved, still_look still unmoved⟩
  | bump => exact Parsing.take_moved id unmoved still
  | bumpAs => exact Parsing.take_moved _ unmoved still
  | fault => exact .inr ⟨unmoved, still⟩
  | andThen before after ih₁ ih₂ =>
      rcases ih₁ still unmoved with moved | ⟨unmoved, still⟩
      · exact .inl (behind after moved)
      · exact ih₂ still unmoved
  | yes before after ih₁ ih₂ | no before after ih₁ ih₂ =>
      rcases ih₁ still unmoved with moved | ⟨unmoved, still⟩
      · exact .inl (behind after moved)
      · exact ih₂ still unmoved
  | @byKind cases t result inner ih =>
      have kind : s.next?.getD .error = t.kindAt 0 := by
        rw [← Parsing.getD_next?, Parsing.next?_congr unmoved]
      have still : (cases (s.next?.getD .error)).still s.next? may Rule.eager Q = true := still
      rw [kind] at still
      exact ih still unmoved
  | node inside ih | group inside ih | wrap inside ih => exact ih still unmoved
  | again round others ih₁ ih₂ =>
      rcases ih₁ still unmoved with moved | ⟨-, falsity⟩
      · exact .inl (behind others moved)
      · cases falsity
  | leave round ih => exact ih still unmoved
  | @advances body t inner inside ih =>
      refine (ih still unmoved).imp_right fun stays => ⟨stays.1, ?_⟩
      have notShorter : ¬inner.2.ahead.length < t.ahead.length := by
        rw [stays.1, unmoved]
        exact Nat.lt_irrefl _
      simp only [decide_eq_false notShorter, Bool.and_false]
      exact stays.2
  | @call rule t result inner ih =>
      obtain ⟨-, next⟩ := Bool.and_eq_true_iff.mp still
      refine (ih (rule.descends_all s.next?) unmoved).imp_right fun stays => ⟨stays.1, ?_⟩
      rcases Bool.or_eq_true_iff.mp next with token | both
      · obtain ⟨-, foreseen⟩ := stays
        rw [token] at foreseen
        cases foreseen
      · exact of_both both _

/-- A rule is followed behind a token, or it is one that may be followed before. -/
theorem Enters.foreseen {s t u : Parsing} {may : Rule → Bool} {p : Grammar} {Q : Bool → Bool} {rule : Rule}
    (enters : Enters Rule.production p t rule u) (still : p.still s.next? may Rule.eager Q = true)
    (unmoved : t.ahead = s.ahead) :
    u.ahead.length < s.ahead.length ∨ u.ahead = s.ahead ∧ may rule = true := by
  have behind {p : Grammar} {t u : Parsing} {rule : Rule} (enters : Enters Rule.production p t rule u)
      (moved : t.ahead.length < s.ahead.length) : u.ahead.length < s.ahead.length :=
    enters.suffix.length_le.trans_lt moved
  induction enters generalizing Q with
  | call => exact .inr ⟨unmoved, (Bool.and_eq_true_iff.mp still).1⟩
  | first _ ih | condition _ ih | node _ ih | group _ ih | wrap _ ih | round _ ih | advances _ ih =>
      exact ih still unmoved
  | second before inner ih | yes before inner ih | no before inner ih =>
      rcases before.foreseen still unmoved with moved | ⟨unmoved, still⟩
      · exact .inl (behind inner moved)
      · exact ih still unmoved
  | @byKind cases t u rule inner ih =>
      have kind : s.next?.getD .error = t.kindAt 0 := by
        rw [← Parsing.getD_next?, Parsing.next?_congr unmoved]
      have still : (cases (s.next?.getD .error)).still s.next? may Rule.eager Q = true := still
      rw [kind] at still
      exact ih still unmoved
  | later round inner ih =>
      rcases round.foreseen still unmoved with moved | ⟨-, falsity⟩
      · exact .inl (behind inner moved)
      · cases falsity

/-! ## (3) Rounds of loops -/

/-- What the loops in a production repeat, loops inside of loops included. -/
def loops {ρ : Type} : Production ρ → List (Production ρ)
  | answer _ | look _ | bump | bumpAs _ | fault _ | call _ => []
  | andThen first second => first.loops ++ second.loops
  | branch condition yes no => condition.loops ++ yes.loops ++ no.loops
  | byKind cases => Kind.all.flatMap fun kind => (cases kind).loops
  | node _ body | group body | wrap _ body | advances body => body.loops
  | loop body => body :: body.loops

/-- Whether a production takes a token or answers `false`, whatever the next token is. -/
def strides (body : Grammar) : Bool :=
  Rule.nexts.all fun next => body.still next (fun _ => true) Rule.eager fun result => !result

/-- A round that goes on has taken a token. -/
theorem Ends.shorter {body : Grammar} (strides : body.strides = true) {s t : Parsing}
    (round : Ends Rule.production body s (true, t)) : t.ahead.length < s.ahead.length := by
  rcases round.foreseen (List.all_eq_true.mp strides _ (Rule.mem_nexts s.next?)) rfl with moved | ⟨-, falsity⟩
  · exact moved
  · cases falsity

end Production

/-- A round over infix operators takes the operator. -/
theorem Grammar.strides_infixStep (power : Nat) : (infixStep power).strides = true :=
  List.all_eq_true.mpr fun next _ => Rule.still_infixStep next power (fun _ => true) Rule.eager

set_option maxRecDepth 2000 in
/-- There is no loop in an operand. -/
theorem Grammar.loops_infixStep (power : Nat) : (infixStep power).loops = [] := by
  obtain ⟨cases, same, each⟩ := infixStep_induction power (fun _ p => p.loops.isEmpty = true) (fun _ => rfl)
    (by decide)
  rw [same]
  exact List.flatMap_eq_nil_iff.mpr fun operator listed => List.isEmpty_iff.mp (each operator listed)

/-- **Each round of each loop in a rule takes a token or is the last one.** -/
theorem Rule.strides_all (rule : Rule) {body : Grammar} (mem : body ∈ rule.production.loops) :
    body.strides = true := by
  have each {p : Grammar} (all : p.loops.all Production.strides = true) (mem : body ∈ p.loops) :
      body.strides = true := List.all_eq_true.mp all body mem
  cases rule with
  | expression power =>
      simp only [production, Grammar.operatorChain, Production.loops, Production.stop, Grammar.loops_infixStep,
        List.nil_append, List.append_nil, List.mem_singleton] at mem
      rw [mem]
      exact Grammar.strides_infixStep power
  | classMember =>
      -- Many kinds of tokens begin the same member, so the members are looked at one by one.
      rcases List.mem_append.mp mem with inAttributes | inMember
      · exact each (p := Grammar.attributes) (by decide +kernel) inAttributes
      · obtain ⟨kind, -, inMember⟩ := List.mem_flatMap.mp inMember
        simp only at inMember
        split at inMember
        · exact each (p := Grammar.traitUse) (by decide +kernel) inMember
        · exact each (p := Grammar.enumCase) (by decide +kernel) inMember
        · cases inMember
        · exact each (p := Grammar.modifiedMember) (by decide +kernel) inMember
  | _ => exact each (by decide +kernel) mem

/-! ## (4) Reading ends -/

/-- **A rule follows another one behind a token, or one of a lower height.** -/
theorem Rule.enters_descends {rule inner : Rule} {s t : Parsing}
    (enters : Production.Enters Rule.production rule.production s inner t) :
    t.ahead.length < s.ahead.length ∨ t.ahead = s.ahead ∧ inner.height s.next? < rule.height s.next? :=
  (enters.foreseen (rule.descends_all s.next?) rfl).imp_right fun stays => ⟨stays.1, of_decide_eq_true stays.2⟩

namespace Production

/-- **A production ends** if the rules do that it follows, and if each round of its loops takes a token. -/
theorem exists_ends (p : Grammar) (rounds : ∀ body ∈ p.loops, body.strides = true) {s : Parsing}
    (rules : ∀ rule t, Enters Rule.production p s rule t → ∃ result, Ends Rule.production rule.production t result) :
    ∃ result, Ends Rule.production p s result := by
  induction p generalizing s with
  | answer ok => exact ⟨_, .answer⟩
  | look condition => exact ⟨_, .look⟩
  | bump => exact ⟨_, .bump⟩
  | bumpAs kind => exact ⟨_, .bumpAs⟩
  | fault cause => exact ⟨_, .fault⟩
  | andThen first second ih₁ ih₂ =>
      obtain ⟨roundsFirst, roundsSecond⟩ := List.forall_mem_append.mp rounds
      obtain ⟨middle, before⟩ := ih₁ roundsFirst fun rule t enters => rules rule t (.first enters)
      obtain ⟨result, after⟩ := ih₂ roundsSecond fun rule t enters => rules rule t (.second before enters)
      exact ⟨result, .andThen before after⟩
  | branch condition yes no ih ihYes ihNo =>
      obtain ⟨rounds, roundsNo⟩ := List.forall_mem_append.mp rounds
      obtain ⟨rounds, roundsYes⟩ := List.forall_mem_append.mp rounds
      obtain ⟨⟨answer, t⟩, before⟩ := ih rounds fun rule t enters => rules rule t (.condition enters)
      cases answer with
      | true =>
          obtain ⟨result, after⟩ := ihYes roundsYes fun rule t enters => rules rule t (.yes before enters)
          exact ⟨result, .yes before after⟩
      | false =>
          obtain ⟨result, after⟩ := ihNo roundsNo fun rule t enters => rules rule t (.no before enters)
          exact ⟨result, .no before after⟩
  | byKind cases ih =>
      have roundsCase : ∀ body ∈ (cases (s.kindAt 0)).loops, body.strides = true := fun body mem =>
        rounds body (List.mem_flatMap.mpr ⟨_, Kind.mem_all _, mem⟩)
      obtain ⟨result, inner⟩ := ih _ roundsCase fun rule t enters => rules rule t (.byKind enters)
      exact ⟨result, .byKind inner⟩
  | node kind body ih =>
      obtain ⟨inner, inside⟩ := ih rounds fun rule t enters => rules rule t (.node enters)
      exact ⟨_, .node inside⟩
  | group body ih =>
      obtain ⟨inner, inside⟩ := ih rounds fun rule t enters => rules rule t (.group enters)
      exact ⟨_, .group inside⟩
  | wrap kind body ih =>
      obtain ⟨inner, inside⟩ := ih rounds fun rule t enters => rules rule t (.wrap enters)
      exact ⟨_, .wrap inside⟩
  | loop body ih =>
      obtain ⟨strides, roundsBody⟩ := List.forall_mem_cons.mp rounds
      -- A round that goes on has taken a token, so the rounds are counted by the tokens ahead.
      induction length : s.ahead.length using Nat.strong_induction_on generalizing s with
      | h n ihRounds =>
          obtain ⟨⟨answer, t⟩, round⟩ := ih roundsBody fun rule t enters => rules rule t (.round enters)
          cases answer with
          | false => exact ⟨_, .leave round⟩
          | true =>
              have shorter : t.ahead.length < n := length ▸ round.shorter strides
              obtain ⟨result, others⟩ :=
                ihRounds _ shorter (fun rule u enters => rules rule u (.later round enters)) rfl
              exact ⟨result, .again round others⟩
  | advances body ih =>
      obtain ⟨inner, inside⟩ := ih rounds fun rule t enters => rules rule t (.advances enters)
      exact ⟨_, .advances inside⟩
  | call rule =>
      obtain ⟨result, inner⟩ := rules rule s .call
      exact ⟨result, .call inner⟩

end Production

/-- **Every rule ends.** Each rule that it follows has fewer tokens ahead or a lower height. -/
theorem Rule.exists_ends (rule : Rule) (s : Parsing) :
    ∃ result, Production.Ends Rule.production rule.production s result := by
  induction reach : rule.reach s using Nat.strong_induction_on generalizing rule s with
  | h n ih =>
      refine Production.exists_ends rule.production (fun _ => rule.strides_all) fun inner t enters => ?_
      refine ih (inner.reach t) ?_ inner t rfl
      rw [← reach]
      rcases Rule.enters_descends enters with moved | ⟨unmoved, lower⟩
      · exact reach_lt moved inner rule
      · rw [Rule.reach, Rule.reach, unmoved, Parsing.next?_congr unmoved]
        exact Nat.add_lt_add_left lower _

/-- Following a rule is to read its production, where the bound on open rules is high enough. -/
theorem Rule.follow_ruleDepth {n : Nat} (rule : Rule) {s : Parsing} (le : s.ahead.length ≤ n) :
    follow (ruleDepth n) rule s = rule.production.run (follow (ruleDepth n)) s := by
  have low := height_lt s.next? rule
  have enough : rule.reach s < ruleDepth n := by
    rw [reach, ruleDepth]
    omega
  have higher : followWith (fun _ s => (false, s)) (ruleDepth n) rule s =
      followWith (fun _ s => (false, s)) (ruleDepth n + 1) rule s :=
    followWith_eq (fun _ _ => List.suffix_refl _) enough (Nat.lt_succ_of_lt enough)
  rw [← follow_eq, ← follow_eq] at higher
  exact higher

/-- **The bounds of the execution do not matter**: a result without bounds is the one with them. -/
theorem Production.Ends.run_eq {n : Nat} {p : Grammar} {s : Parsing} {result : Bool × Parsing}
    (ends : Ends Rule.production p s result) (rounds : ∀ body ∈ p.loops, body.strides = true)
    (le : s.ahead.length ≤ n) : p.run (Rule.follow (ruleDepth n)) s = result := by
  -- A loop has the same result for every number of rounds that is high enough.
  suffices both : p.run (Rule.follow (ruleDepth n)) s = result ∧ ∀ body, p = loop body → ∀ k, s.ahead.length < k →
      (true, iterate (body.run (Rule.follow (ruleDepth n))) k s) = result from both.1
  induction ends with
  | answer | look | bump | bumpAs | fault => exact ⟨rfl, fun _ isLoop => by cases isLoop⟩
  | andThen before after ih₁ ih₂ =>
      obtain ⟨roundsFirst, roundsSecond⟩ := List.forall_mem_append.mp rounds
      obtain ⟨same, -⟩ := ih₁ roundsFirst le
      refine ⟨?_, fun _ isLoop => by cases isLoop⟩
      rw [run, same]
      exact (ih₂ roundsSecond (before.suffix.length_le.trans le)).1
  | yes before after ih₁ ih₂ =>
      obtain ⟨rounds, roundsNo⟩ := List.forall_mem_append.mp rounds
      obtain ⟨rounds, roundsYes⟩ := List.forall_mem_append.mp rounds
      obtain ⟨same, -⟩ := ih₁ rounds le
      refine ⟨?_, fun _ isLoop => by cases isLoop⟩
      rw [run, same]
      exact (ih₂ roundsYes (before.suffix.length_le.trans le)).1
  | no before after ih₁ ih₂ =>
      obtain ⟨rounds, roundsNo⟩ := List.forall_mem_append.mp rounds
      obtain ⟨rounds, roundsYes⟩ := List.forall_mem_append.mp rounds
      obtain ⟨same, -⟩ := ih₁ rounds le
      refine ⟨?_, fun _ isLoop => by cases isLoop⟩
      rw [run, same]
      exact (ih₂ roundsNo (before.suffix.length_le.trans le)).1
  | @byKind cases s result inner ih =>
      have roundsCase : ∀ body ∈ (cases (s.kindAt 0)).loops, body.strides = true := fun body mem =>
        rounds body (List.mem_flatMap.mpr ⟨_, Kind.mem_all _, mem⟩)
      exact ⟨(ih roundsCase le).1, fun _ isLoop => by cases isLoop⟩
  | node inside ih | group inside ih | wrap inside ih | advances inside ih =>
      refine ⟨?_, fun _ isLoop => by cases isLoop⟩
      rw [run, (ih rounds le).1]
  | @again body s t result round others ih₁ ih₂ =>
      obtain ⟨strides, roundsBody⟩ := List.forall_mem_cons.mp rounds
      have shorter := round.shorter strides
      obtain ⟨same, -⟩ := ih₁ roundsBody le
      obtain ⟨-, rest⟩ := ih₂ rounds (shorter.le.trans le)
      have all (k : Nat) (enough : s.ahead.length < k) :
          (true, iterate (body.run (Rule.follow (ruleDepth n))) k s) = result := by
        cases k with
        | zero => cases enough
        | succ k =>
            rw [iterate, same]
            exact rest body rfl k (Nat.lt_of_lt_of_le shorter (Nat.le_of_lt_succ enough))
      refine ⟨all _ (Nat.lt_succ_self _), fun _ isLoop => ?_⟩
      cases isLoop
      exact all
  | @leave body s t round ih =>
      obtain ⟨-, roundsBody⟩ := List.forall_mem_cons.mp rounds
      obtain ⟨same, -⟩ := ih roundsBody le
      have all (k : Nat) (enough : s.ahead.length < k) :
          (true, iterate (body.run (Rule.follow (ruleDepth n))) k s) = (true, t) := by
        cases k with
        | zero => cases enough
        | succ k => rw [iterate, same]
      refine ⟨all _ (Nat.lt_succ_self _), fun _ isLoop => ?_⟩
      cases isLoop
      exact all
  | @call rule s result inner ih =>
      refine ⟨?_, fun _ isLoop => by cases isLoop⟩
      rw [run, rule.follow_ruleDepth le]
      exact (ih (fun _ => rule.strides_all) le).1

/-! ## (5) Rules one inside the other -/

/-- `Rule.Within inner outer`: when the outer rule is read from its place on, the inner one is followed at its
place. -/
def Rule.Within (inner outer : Rule × Parsing) : Prop :=
  Production.Enters Rule.production outer.1.production outer.2 inner.1 inner.2

/-- Rules that are open one inside the other stand at later and later places, or have lower and lower heights. -/
theorem Rule.descends_of_transGen {inner outer : Rule × Parsing} (chain : Relation.TransGen Rule.Within inner outer) :
    inner.2.ahead.length < outer.2.ahead.length ∨
      inner.2.ahead = outer.2.ahead ∧ inner.1.height outer.2.next? < outer.1.height outer.2.next? := by
  induction chain with
  | single enters => exact enters_descends enters
  | tail _ enters ih =>
      rcases enters_descends enters with moved | ⟨unmoved, lower⟩
      · refine .inl (Nat.lt_of_le_of_lt ?_ moved)
        rcases ih with moved | ⟨unmoved, -⟩
        · exact moved.le
        · rw [unmoved]
      · rw [Parsing.next?_congr unmoved, unmoved] at ih
        exact ih.imp_right fun stays => ⟨stays.1, stays.2.trans lower⟩

/-- No rules are open one inside the other without end. -/
theorem Rule.wellFounded_within : WellFounded Rule.Within := by
  refine Subrelation.wf (fun {inner outer} enters => ?_)
    (measure fun place : Rule × Parsing => place.1.reach place.2).wf
  change inner.1.reach inner.2 < outer.1.reach outer.2
  rcases enters_descends enters with moved | ⟨unmoved, lower⟩
  · exact reach_lt moved inner.1 outer.1
  · rw [reach, reach, unmoved, Parsing.next?_congr unmoved]
    exact Nat.add_lt_add_left lower _

/-! ## (6) Looking ahead -/

/-- `Glances round s n known answer`: a loop that looks at one token ahead after the other, beginning with the `n`-th,
ends with the answer. What the loop knows and the kind of the token tell whether it stops with an answer, or what it
knows when it goes on. -/
inductive Glances {σ : Type} (round : σ → Kind → Bool ⊕ σ) (s : Parsing) : Nat → σ → Bool → Prop
  /-- The loop stops. -/
  | stop {n : Nat} {known : σ} {answer : Bool} (found : round known (s.kindAt n) = .inl answer) :
      Glances round s n known answer
  /-- The loop goes on with the next token. -/
  | next {n : Nat} {known later : σ} {answer : Bool} (found : round known (s.kindAt n) = .inr later)
      (rest : Glances round s (n + 1) later answer) : Glances round s n known answer

/-- The kind of a token ahead is the first one of those from there on. -/
theorem Parsing.kindAt_eq_head (s : Parsing) (n : Nat) : s.kindAt n = (s.kinds.drop n).head?.getD .error := by
  rw [List.head?_drop, ← s.kindAt_outlook []]
  rfl

/-- A loop that looks ahead computes a function on the kinds of the tokens, if it does so in each round. -/
theorem glances_of_rounds {σ : Type} {round : σ → Kind → Bool ⊕ σ} {f : σ → List Kind → Bool}
    (atEnd : ∀ known, round known .error = .inl (f known []))
    (step : ∀ known kind kinds, f known (kind :: kinds) = (round known kind).elim id fun later => f later kinds)
    (s : Parsing) (n : Nat) (known : σ) : Glances round s n known (f known (s.kinds.drop n)) := by
  have kindAt := s.kindAt_eq_head n
  induction kinds : s.kinds.drop n generalizing n known with
  | nil =>
      rw [kinds] at kindAt
      refine .stop ?_
      rw [kindAt]
      exact atEnd known
  | cons kind others ih =>
      rw [kinds] at kindAt
      have behind : s.kinds.drop (n + 1) = others := by
        rw [← List.drop_drop, kinds]
        rfl
      rw [step]
      cases found : round known kind with
      | inl answer => exact .stop (by rw [kindAt]; exact found)
      | inr later => exact .next (by rw [kindAt]; exact found) (ih (n + 1) later (s.kindAt_eq_head _) behind)

/-- A loop that stops where no token is goes on only where one is. -/
theorem lt_length_of_round {σ : Type} {round : σ → Kind → Bool ⊕ σ} {known later : σ} {answer : Bool}
    {s : Parsing} {n : Nat} (goesOn : round known (s.kindAt n) = .inr later)
    (atEnd : round known .error = .inl answer) : n < s.ahead.length := by
  refine Nat.lt_of_not_le fun le => ?_
  have none : s.ahead[n]? = none := List.getElem?_eq_none le
  rw [Parsing.kindAt, none] at goesOn
  rw [atEnd] at goesOn
  cases goesOn

/-- A round of looking past attribute groups, when the number of brackets that are open is known. -/
def attributesRound (depth : Nat) : Kind → Bool ⊕ Nat
  | .hashBracket | .lBracket => .inr (depth + 1)
  | .rBracket => .inr (depth - 1)
  | .error => .inl false
  | kind => if depth = 0 then .inl (kind == .classKw) else .inr depth

/-- A round of looking past modifiers. -/
def modifiersRound (_ : Unit) (kind : Kind) : Bool ⊕ Unit :=
  if classModifiers.contains kind then .inr () else .inl (kind == .classKw)

/-- Looking past attribute groups ends, with the answer of the condition. -/
theorem glances_attributes (s : Parsing) : Glances attributesRound s 0 0 (attributesThenClass 0 s.kinds) := by
  refine glances_of_rounds (f := attributesThenClass) (fun depth => rfl) (fun depth kind kinds => ?_) s 0 0
  unfold attributesRound
  split
  · rfl
  · rfl
  · rfl
  · rfl
  · -- Any other token ends the loop, unless a bracket is open.
    rename_i noHash noOpen noClose noError
    cases depth with
    | zero =>
        rw [if_pos rfl, attributesThenClass]
        · rfl
        all_goals assumption
    | succ depth =>
        rw [if_neg (Nat.succ_ne_zero depth), attributesThenClass]
        · rfl
        all_goals assumption

/-- Looking past modifiers ends, with the answer of the condition. -/
theorem glances_modifiers (s : Parsing) : Glances modifiersRound s 0 () (modifiersThenClass s.kinds) := by
  refine glances_of_rounds (f := fun _ => modifiersThenClass) (fun _ => rfl) (fun _ kind kinds => ?_) s 0 ()
  rw [modifiersRound, modifiersThenClass, List.dropWhile_cons]
  split
  · rfl
  · rfl

/-! ## (7) The grammar -/

namespace Grammar

/-- Each round over the statements of a file takes a token or is the last one. -/
theorem strides_sourceFile {body : Grammar} (mem : body ∈ sourceFile.loops) : body.strides = true := by
  have all : sourceFile.loops.all Production.strides = true := by decide
  exact List.all_eq_true.mp all body mem

/-- The guard around a statement is needed: a statement alone may take no token and let the loop go on. -/
example : (Production.also statement).strides = false := by decide

/-- **Every file is read to an end.** -/
theorem exists_ends_sourceFile (s : Parsing) : ∃ result, Production.Ends Rule.production sourceFile s result :=
  Production.exists_ends sourceFile (fun _ => strides_sourceFile) fun rule t _ => rule.exists_ends t

/-- **The parser makes progress on every input.** For every list of tokens, reading a file without any bound on rounds
and on open rules ends, with one result, and this is the parse. In every loop of a file and of a rule, a round that
goes on has taken a token, in recovery from damage, too. A rule follows another one behind a token or one of a lower
height, and heights are below seven; so a rule inside of itself stands behind a token, and no rules are open one inside
the other without end. The two loops that only look ahead end with the answers of their conditions, and they go on only
at a token. -/
theorem progresses :
    (∀ tokens : List Token, ∃ result,
      Production.Ends Rule.production sourceFile (Parsing.ofTokens tokens) result ∧
        (∀ other, Production.Ends Rule.production sourceFile (Parsing.ofTokens tokens) other → other = result) ∧
          Parse.ofTokens tokens =
            ⟨.node .sourceFile result.2.flush.built.reverse, result.2.flush.errors.reverse⟩) ∧
      (∀ p : Grammar, p = sourceFile ∨ (∃ rule : Rule, p = rule.production) → ∀ body ∈ p.loops, ∀ s t : Parsing,
        Production.Ends Rule.production body s (true, t) → t.ahead.length < s.ahead.length) ∧
      (∀ (rule inner : Rule) (s t : Parsing), Production.Enters Rule.production rule.production s inner t →
        t.ahead.length < s.ahead.length ∨ t.ahead = s.ahead ∧ inner.height s.next? < rule.height s.next?) ∧
      (∀ (next : Option Kind) (rule : Rule), rule.height next < 7) ∧
      (∀ (rule : Rule) (s t : Parsing), Relation.TransGen Rule.Within (rule, t) (rule, s) →
        t.ahead.length < s.ahead.length) ∧
      WellFounded Rule.Within ∧
      (∀ s : Parsing, Glances attributesRound s 0 0 (attributesThenClass 0 s.kinds) ∧
        Glances modifiersRound s 0 () (modifiersThenClass s.kinds)) ∧
      ∀ (s : Parsing) (n : Nat),
        (∀ depth later, attributesRound depth (s.kindAt n) = .inr later → n < s.ahead.length) ∧
          ∀ known later, modifiersRound known (s.kindAt n) = .inr later → n < s.ahead.length := by
  refine ⟨fun tokens => ?_, ?_, fun _ _ _ _ => Rule.enters_descends, Rule.height_lt, ?_, Rule.wellFounded_within,
    fun s => ⟨glances_attributes s, glances_modifiers s⟩, fun s n => ⟨?_, ?_⟩⟩
  · obtain ⟨result, ends⟩ := exists_ends_sourceFile (Parsing.ofTokens tokens)
    refine ⟨result, ends, fun other ends' => ends.unique ends', ?_⟩
    have same := ends.run_eq (fun _ => strides_sourceFile) le_rfl
    rw [Parse.ofTokens, same]
  · intro p isProduction body mem s t round
    rcases isProduction with rfl | ⟨rule, rfl⟩
    · exact round.shorter (strides_sourceFile mem)
    · exact round.shorter (rule.strides_all mem)
  · intro rule s t chain
    rcases Rule.descends_of_transGen chain with moved | ⟨-, lower⟩
    · exact moved
    · exact absurd lower (Nat.lt_irrefl _)
  · exact fun depth later goesOn => lt_length_of_round goesOn rfl
  · exact fun known later goesOn => lt_length_of_round goesOn rfl

end Grammar

end PhpMembers
