import PhpMembers.Proofs.Syntax.Placement

/-! # Declarations have names

In the tree of a text without errors every method, property, parameter, constant and enum case has the token
of its name. A production that could leave the token out reports a fault instead; this is computed from its
steps, and one induction shows that it holds of every parse that reports nothing.

* `Production.surely`, `Production.named` : the tokens that a production cannot leave out.
* `Production.errors_run`, `Production.built_run` : errors stay, and parts stay unless they are gathered.
* `Production.branch_clean`, `Production.iterate_clean` : where a parse reports no error, none of its parts
  does.
* `Production.surely_run`, `Production.named_run` : what is computed holds of every parse without faults.
* `Rule.named_all`, `Parse.named_ofTokens` : the grammar names its declarations.
* `Cursor.exists_token?` : the same for the places in a tree. -/

namespace PhpMembers

/-! ## (1) What can be read off a production -/

/-- The kind of the token that names a declaration. -/
def Kind.nameKind? : Kind → Option Kind
  | .methodDecl | .constElement | .enumCase => some .ident
  | .propertyElement | .param => some .variable
  | _ => none

/-- The token of a name is not damage. -/
theorem Kind.nameKind?_ne_error {kind name : Kind} (isName : kind.nameKind? = some name) :
    name ≠ .error := by
  unfold nameKind? at isName
  split at isName
  all_goals cases isName
  all_goals exact Kind.noConfusion

/-- A declaration has the token of its name. -/
def Named (kind : Kind) (parts : List Tree) : Prop :=
  ∀ name, kind.nameKind? = some name → ∃ text, Tree.leaf name text ∈ parts

namespace Production

variable {ρ : Type}

/-- Whether the production leaves what has been built before it as it is. -/
def keeps : Production ρ → Bool
  | answer _ | look _ | bump | bumpAs _ | fault _ | node _ _ | group _ | call _ => true
  | andThen first second => first.keeps && second.keeps
  | branch condition yes no => condition.keeps && yes.keeps && no.keeps
  | byKind cases => Kind.all.all fun k => (cases k).keeps
  | wrap _ _ => false
  | loop body | advances body => body.keeps

/-- The kinds that the next token may have when a condition has been answered, from those that it could have
before. -/
def nextAfter (next : Kind → Bool) (result : Bool) : Production ρ → Kind → Bool
  | look (.kind 0 test) => fun kind => next kind && test kind == result
  | _ => fun _ => true

/-- Whether a production that reports no fault and gives the answer `result` certainly takes a token under
the kind `leaf`, when `next` tells which kinds the next token may have. -/
def surely (leaf : Kind) : (Kind → Bool) → Production ρ → Bool → Bool
  | _, answer ok, result => ok != result
  | next, bump, result => !result || Kind.all.all fun kind => !next kind || kind == leaf
  | next, bumpAs kind, result => !result || (kind == leaf && !next .error)
  | _, fault _, _ => true
  | next, andThen first second, result =>
    (first.surely leaf next true && first.surely leaf next false)
      || second.surely leaf (fun _ => true) result
  | next, branch condition yes no, result =>
    (condition.surely leaf next true || yes.surely leaf (condition.nextAfter next true) result)
      && (condition.surely leaf next false || no.surely leaf (condition.nextAfter next false) result)
  | next, byKind cases, result =>
    Kind.all.all fun kind => !next kind || (cases kind).surely leaf (· == kind) result
  | _, look _, _ | _, node _ _, _ | _, group _, _ | _, wrap _ _, _ | _, loop _, _ | _, advances _, _
  | _, call _, _ => false

/-- Whether each declaration that a production builds without a fault has the token of its name. -/
def named : Production ρ → Bool
  | answer _ | look _ | bump | bumpAs _ | fault _ | call _ => true
  | andThen first second => first.named && second.named
  | branch condition yes no => condition.named && yes.named && no.named
  | byKind cases => Kind.all.all fun k => (cases k).named
  | node kind body | wrap kind body =>
    body.named && kind.nameKind?.all fun leaf =>
      body.keeps && body.surely leaf (fun _ => true) true && body.surely leaf (fun _ => true) false
  | group body | loop body | advances body => body.named

end Production

/-! ## (2) What stays -/

namespace Parsing

@[simp] theorem errors_take (s : Parsing) (rename : Kind → Kind) : (s.take rename).errors = s.errors := by
  rw [take]
  split <;> rfl

/-- Trivia is put behind the parts that are finished. -/
theorem built_flush (s : Parsing) : s.built <:+ s.flush.built := List.suffix_append _ _

/-- A token is put behind the parts that are finished. -/
theorem built_take (s : Parsing) (rename : Kind → Kind) : s.built <:+ (s.take rename).built := by
  rw [take]
  split
  · exact s.built_flush
  · exact s.built_flush.trans (List.suffix_cons _ _)

/-- A token that is taken becomes a part. -/
theorem mem_built_take {s : Parsing} (more : s.kindAt 0 ≠ .error) (rename : Kind → Kind) :
    ∃ text, Tree.leaf (rename (s.kindAt 0)) text ∈ (s.take rename).built := by
  cases ahead : s.ahead with
  | nil => exact absurd (by simp [kindAt, ahead]) more
  | cons next rest =>
      refine ⟨next.token.text, ?_⟩
      simp [take, flush, kindAt, ahead]

/-- If two changes together add no error, neither of them does. -/
theorem errors_eq_of_suffix {s t u : Parsing} (first : s.errors <:+ t.errors)
    (second : t.errors <:+ u.errors) (clean : u.errors = s.errors) :
    t.errors = s.errors ∧ u.errors = t.errors := by
  rw [clean] at second
  have same : t.errors = s.errors := second.sublist.antisymm first.sublist
  exact ⟨same, clean.trans same.symm⟩

end Parsing

namespace Production

variable {ρ : Type} {follow : ρ → Parsing → Bool × Parsing}

/-- **Errors stay.** -/
theorem errors_run (rules : ∀ rule s, s.errors <:+ (follow rule s).2.errors) (p : Production ρ)
    (s : Parsing) : s.errors <:+ (p.run follow s).2.errors := by
  induction p generalizing s with
  | answer ok => exact List.suffix_refl _
  | look condition => exact List.suffix_refl _
  | bump => exact (s.errors_take id).symm ▸ List.suffix_refl _
  | bumpAs kind => exact (s.errors_take _).symm ▸ List.suffix_refl _
  | fault cause => exact List.suffix_cons _ _
  | andThen first second ih₁ ih₂ => exact (ih₁ s).trans (ih₂ _)
  | branch condition yes no ih ihYes ihNo =>
      have before := ih s
      exact branch_cases (P := fun result => s.errors <:+ result.2.errors) (fun _ => before.trans (ihYes _))
        (fun _ => before.trans (ihNo _))
  | byKind cases ih => exact ih _ s
  | node kind body ih => exact ih s.flush.fresh
  | group body ih => exact ih s.flush.fresh
  | wrap kind body ih => exact ih s
  | loop body ih =>
      exact iterate_induction (P := fun t => s.errors <:+ t.errors) (fun t le => le.trans (ih t)) _
        (List.suffix_refl _)
  | advances body ih => exact ih s
  | call rule => exact rules rule s

/-- If one production after another reports no error, neither does. -/
theorem andThen_clean (errors : ∀ rule s, s.errors <:+ (follow rule s).2.errors)
    (first second : Production ρ) {s : Parsing}
    (clean : ((andThen first second).run follow s).2.errors = s.errors) :
    (first.run follow s).2.errors = s.errors ∧
      (second.run follow (first.run follow s).2).2.errors = (first.run follow s).2.errors :=
  Parsing.errors_eq_of_suffix (errors_run errors first s) (errors_run errors second _) clean

/-- If a branch reports no error, neither its condition nor the way it goes does. -/
theorem branch_clean {P : Bool × Parsing → Prop} (errors : ∀ rule s, s.errors <:+ (follow rule s).2.errors)
    {condition yes no : Production ρ} {s : Parsing}
    (clean : ((branch condition yes no).run follow s).2.errors = s.errors)
    (onTrue : (condition.run follow s).1 = true → (condition.run follow s).2.errors = s.errors →
      (yes.run follow (condition.run follow s).2).2.errors = (condition.run follow s).2.errors →
      P (yes.run follow (condition.run follow s).2))
    (onFalse : (condition.run follow s).1 = false → (condition.run follow s).2.errors = s.errors →
      (no.run follow (condition.run follow s).2).2.errors = (condition.run follow s).2.errors →
      P (no.run follow (condition.run follow s).2)) : P ((branch condition yes no).run follow s) := by
  have before := errors_run errors condition s
  rw [run] at clean ⊢
  rcases found : condition.run follow s with ⟨_ | _, t⟩
  · rw [found] at before clean onFalse
    obtain ⟨clean₁, clean₂⟩ := Parsing.errors_eq_of_suffix before (errors_run errors no t) clean
    exact onFalse rfl clean₁ clean₂
  · rw [found] at before clean onTrue
    obtain ⟨clean₁, clean₂⟩ := Parsing.errors_eq_of_suffix before (errors_run errors yes t) clean
    exact onTrue rfl clean₁ clean₂

/-- What a round without errors leads to is where rounds without errors lead to, if the next round can start
from there. There is at least one round. -/
theorem iterate_clean {P R : Parsing → Prop} {step : Parsing → Bool × Parsing}
    (errors : ∀ t, t.errors <:+ (step t).2.errors)
    (round : ∀ t, P t → (step t).2.errors = t.errors → R (step t).2) (again : ∀ t, R t → P t) (n : Nat)
    {s : Parsing} (start : P s) (clean : (iterate step (n + 1) s).errors = s.errors) :
    R (iterate step (n + 1) s) := by
  induction n generalizing s with
  | zero =>
      have one : iterate step 1 s = (step s).2 := by
        rw [iterate]
        rcases step s with ⟨_ | _, t⟩ <;> rfl
      rw [one] at clean ⊢
      exact round s start clean
  | succ n ih =>
      have next := round s start
      have before := errors s
      rw [iterate] at clean ⊢
      rcases found : step s with ⟨_ | _, t⟩
      · rw [found] at next clean
        exact next clean
      · rw [found] at next before clean
        have behind : t.errors <:+ (iterate step (n + 1) t).errors :=
          iterate_induction (P := fun u => t.errors <:+ u.errors) (fun u le => le.trans (errors u)) _
            (List.suffix_refl _)
        obtain ⟨clean₁, clean₂⟩ := Parsing.errors_eq_of_suffix before behind clean
        exact ih (again t (next clean₁)) clean₂

section Keeps

variable {first second condition yes no : Production ρ} {cases : Kind → Production ρ} {other : Prop}

/-- If a sequence keeps what is built, unless there is some other reason, so do its parts. -/
theorem keeps_andThen (keeps : (andThen first second).keeps = true ∨ other) :
    (first.keeps = true ∨ other) ∧ (second.keeps = true ∨ other) := by
  rcases keeps with all | reason
  · obtain ⟨inFirst, inSecond⟩ := Bool.and_eq_true_iff.mp all
    exact ⟨.inl inFirst, .inl inSecond⟩
  · exact ⟨.inr reason, .inr reason⟩

/-- The same for a branch. -/
theorem keeps_branch (keeps : (branch condition yes no).keeps = true ∨ other) :
    (condition.keeps = true ∨ other) ∧ (yes.keeps = true ∨ other) ∧ (no.keeps = true ∨ other) := by
  rcases keeps with all | reason
  · obtain ⟨both, inNo⟩ := Bool.and_eq_true_iff.mp all
    obtain ⟨inCondition, inYes⟩ := Bool.and_eq_true_iff.mp both
    exact ⟨.inl inCondition, .inl inYes, .inl inNo⟩
  · exact ⟨.inr reason, .inr reason, .inr reason⟩

/-- The same for a choice by kind. -/
theorem keeps_byKind (keeps : (byKind cases).keeps = true ∨ other) (kind : Kind) :
    (cases kind).keeps = true ∨ other :=
  keeps.imp_left fun all => List.all_eq_true.mp all kind (Kind.mem_all kind)

end Keeps

/-- **Finished parts stay**, unless the production gathers them into a node. -/
theorem built_run (rules : ∀ rule s, s.built <:+ (follow rule s).2.built) (p : Production ρ)
    (keeps : p.keeps = true) (s : Parsing) : s.built <:+ (p.run follow s).2.built := by
  induction p generalizing s with
  | answer ok => exact List.suffix_refl _
  | look condition => exact List.suffix_refl _
  | bump => exact s.built_take id
  | bumpAs kind => exact s.built_take _
  | fault cause => exact List.suffix_refl _
  | andThen first second ih₁ ih₂ =>
      obtain ⟨keeps₁, keeps₂⟩ := Bool.and_eq_true_iff.mp keeps
      exact (ih₁ keeps₁ s).trans (ih₂ keeps₂ _)
  | branch condition yes no ih ihYes ihNo =>
      obtain ⟨keeps, keepsNo⟩ := Bool.and_eq_true_iff.mp keeps
      obtain ⟨keeps, keepsYes⟩ := Bool.and_eq_true_iff.mp keeps
      have before := ih keeps s
      exact branch_cases (P := fun result => s.built <:+ result.2.built) (fun _ => before.trans (ihYes keepsYes _))
        (fun _ => before.trans (ihNo keepsNo _))
  | byKind cases ih => exact ih _ (List.all_eq_true.mp keeps _ (Kind.mem_all _)) s
  | node kind body ih => exact s.built_flush.trans (List.suffix_cons _ _)
  | group body ih => exact s.built_flush.trans (List.suffix_append _ _)
  | wrap kind body ih => cases keeps
  | loop body ih =>
      exact iterate_induction (P := fun t => s.built <:+ t.built) (fun t le => le.trans (ih keeps t)) _
        (List.suffix_refl _)
  | advances body ih => exact ih keeps s
  | call rule => exact rules rule s

/-! ## (3) What is read off holds of every parse without faults -/

/-- What holds of both answers holds of any. -/
theorem of_both {Q : Bool → Bool} (both : (Q true && Q false) = true) (answer : Bool) : Q answer = true := by
  obtain ⟨onTrue, onFalse⟩ := Bool.and_eq_true_iff.mp both
  cases answer with
  | true => exact onTrue
  | false => exact onFalse

/-- What holds of an answer and of `false` holds of the answer under a condition. -/
theorem of_advances {Q : Bool → Bool} {answer : Bool} (known : ((!answer || Q true) && Q false) = true)
    (moved : Bool) : Q (answer && moved) = true := by
  obtain ⟨onTrue, onFalse⟩ := Bool.and_eq_true_iff.mp known
  cases answer with
  | true =>
      cases moved with
      | true => exact onTrue
      | false => exact onFalse
  | false => exact onFalse

/-- What is known about the next token when a condition has been answered. -/
theorem nextAfter_run {next : Kind → Bool} {s : Parsing} (ahead : next (s.kindAt 0) = true)
    (p : Production ρ) :
    p.nextAfter next (p.run follow s).1 ((p.run follow s).2.kindAt 0) = true := by
  unfold nextAfter
  split
  · rename_i test
    simp [run, Lookahead.holds, ahead]
  · rfl

/-- **A token that a production certainly takes is among the parts**, if no fault is reported. -/
theorem surely_run (errors : ∀ rule s, s.errors <:+ (follow rule s).2.errors)
    (parts : ∀ rule s, s.built <:+ (follow rule s).2.built) {leaf : Kind} (proper : leaf ≠ .error)
    (p : Production ρ) (keeps : p.keeps = true) {next : Kind → Bool} {s : Parsing}
    (ahead : next (s.kindAt 0) = true)
    (surely : p.surely leaf next (p.run follow s).1 = true)
    (clean : (p.run follow s).2.errors = s.errors) :
    ∃ text, Tree.leaf leaf text ∈ (p.run follow s).2.built := by
  -- A token that was taken earlier is still among the parts when a production that keeps them has been run.
  have stays {q : Production ρ} (keeps : q.keeps = true) {t : Parsing}
      (taken : ∃ text, Tree.leaf leaf text ∈ t.built) : ∃ text, Tree.leaf leaf text ∈ (q.run follow t).2.built :=
    taken.imp fun _ mem => (built_run parts q keeps t).subset mem
  induction p generalizing next s with
  | answer ok => simp [Production.surely, run] at surely
  | look condition => cases surely
  | bump =>
      have same : s.kindAt 0 = leaf := by
        have each := List.all_eq_true.mp surely _ (Kind.mem_all (s.kindAt 0))
        simpa [ahead] using each
      have taken := Parsing.mem_built_take (s := s) (same ▸ proper) id
      rw [same] at taken
      exact taken
  | bumpAs kind =>
      obtain ⟨rfl, more⟩ : kind = leaf ∧ next .error = false := by
        simpa [Production.surely, run] using surely
      refine Parsing.mem_built_take (fun atEnd => ?_) fun _ => kind
      rw [atEnd, more] at ahead
      cases ahead
  | fault cause => exact absurd clean (List.cons_ne_self _ _)
  | andThen first second ih₁ ih₂ =>
      obtain ⟨keeps₁, keeps₂⟩ := Bool.and_eq_true_iff.mp keeps
      obtain ⟨clean₁, clean₂⟩ := andThen_clean errors first second clean
      rcases Bool.or_eq_true_iff.mp surely with inFirst | inSecond
      · have inFirst := of_both (Q := first.surely leaf next) inFirst (first.run follow s).1
        exact stays keeps₂ (ih₁ keeps₁ ahead inFirst clean₁)
      · exact ih₂ keeps₂ rfl inSecond clean₂
  | branch condition yes no ih ihYes ihNo =>
      obtain ⟨keeps, keepsNo⟩ := Bool.and_eq_true_iff.mp keeps
      obtain ⟨keeps, keepsYes⟩ := Bool.and_eq_true_iff.mp keeps
      have inCondition := @ih keeps next s ahead
      have known : condition.nextAfter next (condition.run follow s).1 ((condition.run follow s).2.kindAt 0) = true :=
        nextAfter_run ahead condition
      refine branch_clean (P := fun result => (branch condition yes no).surely leaf next result.1 = true →
        ∃ text, Tree.leaf leaf text ∈ result.2.built) errors clean ?_ ?_ surely
      · intro answer clean₁ clean₂ surely
        rw [answer] at inCondition known
        obtain ⟨ifTrue, -⟩ := Bool.and_eq_true_iff.mp surely
        rcases Bool.or_eq_true_iff.mp ifTrue with here | there
        · exact stays keepsYes (inCondition here clean₁)
        · exact ihYes keepsYes known there clean₂
      · intro answer clean₁ clean₂ surely
        rw [answer] at inCondition known
        obtain ⟨-, ifFalse⟩ := Bool.and_eq_true_iff.mp surely
        rcases Bool.or_eq_true_iff.mp ifFalse with here | there
        · exact stays keepsNo (inCondition here clean₁)
        · exact ihNo keepsNo known there clean₂
  | byKind cases ih =>
      have case := List.all_eq_true.mp surely _ (Kind.mem_all (s.kindAt 0))
      rw [ahead] at case
      exact @ih (s.kindAt 0) (List.all_eq_true.mp keeps _ (Kind.mem_all _))
        (fun kind => kind == s.kindAt 0) s (beq_self_eq_true _) case clean
  | node kind body ih => cases surely
  | group body ih => cases surely
  | wrap kind body ih => cases surely
  | loop body ih => cases surely
  | advances body ih => cases surely
  | call rule => cases surely

/-- A body that takes the token of a name, whatever its answer, gives the name to the node that is built of
it. -/
theorem named_body (errors : ∀ rule s, s.errors <:+ (follow rule s).2.errors)
    (parts : ∀ rule s, s.built <:+ (follow rule s).2.built) {kind : Kind} {body : Production ρ} {s : Parsing}
    (named : (kind.nameKind?.all fun leaf => body.keeps && body.surely leaf (fun _ => true) true &&
      body.surely leaf (fun _ => true) false) = true)
    (clean : (body.run follow s).2.errors = s.errors) : Named kind (body.run follow s).2.built.reverse := by
  intro leaf isName
  rw [isName, Option.all_some, Bool.and_assoc] at named
  obtain ⟨keeps, either⟩ := Bool.and_eq_true_iff.mp named
  have surely := of_both (Q := body.surely leaf fun _ => true) either (body.run follow s).1
  obtain ⟨text, mem⟩ :=
    surely_run errors parts (Kind.nameKind?_ne_error isName) body keeps rfl surely clean
  exact ⟨text, List.mem_reverse.mpr mem⟩

/-- **A production that names its declarations does so in every parse without faults.** -/
theorem named_run (errors : ∀ rule s, s.errors <:+ (follow rule s).2.errors)
    (parts : ∀ rule s, s.built <:+ (follow rule s).2.built)
    (follows : ∀ rule s, s.BuiltWith Named → (follow rule s).2.errors = s.errors →
      (follow rule s).2.BuiltWith Named)
    (p : Production ρ) (named : p.named = true) {s : Parsing} (built : s.BuiltWith Named)
    (clean : (p.run follow s).2.errors = s.errors) : (p.run follow s).2.BuiltWith Named := by
  induction p generalizing s with
  | answer ok => exact built
  | look condition => exact built
  | bump => exact built.take id
  | bumpAs kind => exact built.take _
  | fault cause => exact built
  | andThen first second ih₁ ih₂ =>
      obtain ⟨named₁, named₂⟩ := Bool.and_eq_true_iff.mp named
      obtain ⟨clean₁, clean₂⟩ := andThen_clean errors first second clean
      exact ih₂ named₂ (ih₁ named₁ built clean₁) clean₂
  | branch condition yes no ih ihYes ihNo =>
      obtain ⟨named, namedNo⟩ := Bool.and_eq_true_iff.mp named
      obtain ⟨named, namedYes⟩ := Bool.and_eq_true_iff.mp named
      exact branch_clean (P := fun result => result.2.BuiltWith Named) errors clean
        (fun _ clean₁ clean₂ => ihYes namedYes (ih named built clean₁) clean₂)
        (fun _ clean₁ clean₂ => ihNo namedNo (ih named built clean₁) clean₂)
  | byKind cases ih => exact ih _ (List.all_eq_true.mp named _ (Kind.mem_all _)) built clean
  | node kind body ih =>
      obtain ⟨inside, own⟩ := Bool.and_eq_true_iff.mp named
      exact built.flush.node (ih inside .fresh clean) (named_body errors parts own clean)
  | group body ih => exact built.flush.group (ih named .fresh clean)
  | wrap kind body ih =>
      obtain ⟨inside, own⟩ := Bool.and_eq_true_iff.mp named
      exact (ih inside built clean).wrap (named_body errors parts own clean)
  | loop body ih =>
      exact iterate_clean (errors_run errors body) (fun _ built clean => ih named built clean)
        (fun _ built => built) s.ahead.length built clean
  | advances body ih => exact ih named built clean
  | call rule => exact follows rule s built clean

end Production

/-! ## (4) The grammar -/

namespace Grammar

set_option maxRecDepth 4000 in
/-- No infix operator builds a declaration. -/
theorem nameKind?_infix : ∀ operator ∈ Kind.all, ∀ p ∈ infixPower? operator,
    p.kind.nameKind? = none := by
  decide

/-- The right operand of an infix operator contains no declaration without a name. -/
theorem named_infixOperand (operator : Kind) (right : Nat) :
    (infixOperand operator right).named = true := by
  have name : nameRef.named = true := by decide
  unfold infixOperand
  split
  · rfl
  · rfl
  · rw [Production.named, name]
    rfl
  · rfl

/-- An expression contains no declaration without a name. -/
theorem named_operatorChain (power : Nat) : (operatorChain power).named = true := by
  have step : (infixStep power).named = true := by
    obtain ⟨cases, same, each⟩ := infixStep_induction power (fun _ p => p.named = true) (fun _ => rfl)
      fun operator listed p found => by
        have noName := nameKind?_infix operator listed p found
        simp [Production.also, Production.ok, Production.named, noName, named_infixOperand]
    rw [same]
    exact List.all_eq_true.mpr each
  rw [operatorChain, Production.named, Production.named, Production.named, Production.named, step]
  rfl

end Grammar

set_option maxRecDepth 2000 in
/-- **Every rule names the declarations that it builds.** -/
theorem Rule.named_all (rule : Rule) : rule.production.named = true := by
  cases rule with
  | expression power => exact Grammar.named_operatorChain power
  | _ => decide

/-- No rule gathers what has been built before it. -/
theorem Rule.keeps_all (rule : Rule) : rule.production.keeps = true := by
  cases rule with
  | expression power => rfl
  | _ => decide

/-- Errors stay when a rule is followed. -/
theorem Rule.errors_follow (depth : Nat) (rule : Rule) (s : Parsing) :
    s.errors <:+ (Rule.follow depth rule s).2.errors := by
  induction depth generalizing rule s with
  | zero => exact List.suffix_refl _
  | succ depth ih => exact Production.errors_run ih rule.production s

/-- Finished parts stay when a rule is followed. -/
theorem Rule.built_follow (depth : Nat) (rule : Rule) (s : Parsing) :
    s.built <:+ (Rule.follow depth rule s).2.built := by
  induction depth generalizing rule s with
  | zero => exact List.suffix_refl _
  | succ depth ih => exact Production.built_run ih rule.production rule.keeps_all s

/-- A rule that reports no fault names the declarations that it builds. -/
theorem Rule.named_follow (depth : Nat) (rule : Rule) (s : Parsing) (built : s.BuiltWith Named)
    (clean : (Rule.follow depth rule s).2.errors = s.errors) :
    (Rule.follow depth rule s).2.BuiltWith Named := by
  induction depth generalizing rule s with
  | zero => exact built
  | succ depth ih =>
      exact Production.named_run (Rule.errors_follow depth) (Rule.built_follow depth) ih rule.production
        rule.named_all built clean

/-- **In the tree of a text without errors all declarations have names.** -/
theorem Parse.named_ofTokens {tokens : List Token} (clean : (Parse.ofTokens tokens).errors = []) :
    (Parse.ofTokens tokens).tree.Everywhere Named := by
  let start := Parsing.ofTokens tokens
  let depth := ruleDepth start.ahead.length
  have named : Grammar.sourceFile.named = true := by decide
  have silent : (Grammar.sourceFile.run (Rule.follow depth) start).2.errors = start.errors :=
    List.reverse_eq_nil_iff.mp clean
  have built : (Grammar.sourceFile.run (Rule.follow depth) start).2.BuiltWith Named :=
    Production.named_run (Rule.errors_follow depth) (Rule.built_follow depth) (Rule.named_follow depth)
      Grammar.sourceFile named (fun _ mem => absurd mem List.not_mem_nil) silent
  refine .node (fun name isName => ?_) fun part mem => built.flush part (List.mem_reverse.mp mem)
  cases isName

/-! ## (5) Places -/

namespace Cursor

/-- Each tree among the parts of a node stands at the place of a part. -/
theorem exists_mem_childrenFrom {tree : Tree} {trees : List Tree} (mem : tree ∈ trees) (parent : Cursor)
    (left : List Tree) (start : Nat) : ∃ d ∈ childrenFrom parent left start trees, d.tree = tree := by
  induction trees generalizing left start with
  | nil => cases mem
  | cons first right ih =>
      rw [childrenFrom]
      rcases List.mem_cons.mp mem with rfl | mem
      · exact ⟨_, List.mem_cons_self, rfl⟩
      · obtain ⟨d, inRest, same⟩ := ih mem (first :: left) (start + first.length)
        exact ⟨d, List.mem_cons_of_mem _ inRest, same⟩

/-- **A declaration in a text without errors has the token of its name.** -/
theorem exists_token? {c d : Cursor} (all : c.tree.Everywhere Named) (mem : d ∈ c.descendants)
    {name : Kind} (isName : d.kind.nameKind? = some name) : ∃ token, d.token? name = some token := by
  obtain ⟨inElements, node⟩ := List.mem_filter.mp mem
  have here : ∃ text, Tree.leaf name text ∈ d.tree.children :=
    (everywhere_of_mem_elements all inElements).here (show d.isLeaf = false by simpa using node) name isName
  obtain ⟨text, inParts⟩ := here
  obtain ⟨token, inChildren, tree⟩ := exists_mem_childrenFrom inParts d [] d.start
  have leaf : token ∈ d.tokens := List.mem_filter.mpr ⟨inChildren, by rw [isLeaf, tree, Tree.isLeaf]⟩
  have kind : (token.kind == name) = true := by
    rw [Cursor.kind, tree, Tree.kind]
    exact beq_self_eq_true name
  exact Option.isSome_iff_exists.mp (List.find?_isSome.mpr ⟨token, leaf, kind⟩)

end Cursor

end PhpMembers
