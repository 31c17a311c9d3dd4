import PhpMembers.Proofs.Syntax.Operators

/-! # Calls and the parentheses behind accesses

In the tree of every text, damaged or not, an access is what a call calls if and only if a parenthesis opens
behind it. Whether one does is in general decided by what comes after the construct that the access ends, so
the condition on a tree depends on what follows it.

* `opens` : whether a parenthesis opens behind a place.
* `Called` : accesses are called where a parenthesis opens behind them, and only there.
* `Production.faces_run` : a parse brings no parenthesis forward.
* `Production.called_run`, `Grammar.called_postfixed` : the condition is kept by everything that a parse does.
* `Parse.called_ofTokens` : the trees of all texts. -/

namespace PhpMembers

/-! ## (1) What follows a tree -/

/-- Whether a parenthesis is the first token that is not trivia, among some leaves or else behind them. -/
def opens (next : Bool) (leaves : List (Kind × Text)) : Bool :=
  leaves.foldr (fun leaf next => if leaf.1.isTrivia then next else leaf.1 == .lParen) next

@[simp] theorem opens_cons (next : Bool) (leaf : Kind × Text) (leaves : List (Kind × Text)) :
    opens next (leaf :: leaves) = if leaf.1.isTrivia then opens next leaves else leaf.1 == .lParen := rfl

theorem opens_append (next : Bool) (leaves others : List (Kind × Text)) :
    opens next (leaves ++ others) = opens (opens next others) leaves := List.foldr_append

/-- A parenthesis that opens in any case opens, whatever comes behind. -/
theorem opens_mono {next later : Bool} (le : next = true → later = true) (leaves : List (Kind × Text))
    (isOpen : opens next leaves = true) : opens later leaves = true := by
  induction leaves with
  | nil => exact le isOpen
  | cons leaf leaves ih =>
      rw [opens_cons] at isOpen ⊢
      split
      · rename_i trivia
        rw [if_pos trivia] at isOpen
        exact ih isOpen
      · rename_i notTrivia
        rw [if_neg notTrivia] at isOpen
        exact isOpen

/-- Trivia is passed over. -/
theorem opens_gap (next : Bool) {gap : List Token} (trivia : ∀ t ∈ gap, t.isTrivia = true) :
    opens next (Tree.leavesOfAll (gap.map Token.leaf)) = next := by
  induction gap with
  | nil =>
      rw [List.map_nil, Tree.leavesOfAll_nil]
      rfl
  | cons t gap ih =>
      obtain ⟨first, later⟩ := List.forall_mem_cons.mp trivia
      rw [List.map_cons, Tree.leavesOfAll_cons, Token.leaf, Tree.leaves_leaf, List.singleton_append, opens_cons,
        ih later]
      exact if_pos first

/-! ## (2) Called accesses -/

/-- Whether a node accesses a member. -/
def Kind.isAccess : Kind → Bool
  | .memberAccessExpr | .staticAccessExpr => true
  | _ => false

/-- Whether a tree is an access. -/
def Tree.isAccess : Tree → Bool
  | leaf _ _ => false
  | node kind _ => kind.isAccess

mutual

/-- Each access inside the tree is what a call calls if a parenthesis opens behind it, and only then; `next`
tells whether one opens behind the tree. -/
def Called (next : Bool) : Tree → Prop
  | .leaf _ _ => True
  | .node kind parts => CalledAmong (kind == .callExpr) next parts

/-- The same for consecutive parts of a node, and for each of them that is an access. `callee` tells whether
the first node among them is what a call calls. A call contains the parenthesis itself. -/
def CalledAmong (callee next : Bool) : List Tree → Prop
  | [] => True
  | part :: parts =>
    Called (opens next (Tree.leavesOfAll parts)) part ∧
      (part.isAccess = true →
        if callee then opens false (Tree.leavesOfAll parts) = true
        else opens next (Tree.leavesOfAll parts) = false) ∧
      CalledAmong (callee && part.isLeaf) next parts

end

theorem called_leaf (next : Bool) (kind : Kind) (text : Text) : Called next (.leaf kind text) := by
  rw [Called]
  trivial

theorem called_node {next : Bool} {kind : Kind} {parts : List Tree} :
    Called next (.node kind parts) ↔ CalledAmong (kind == .callExpr) next parts := by
  rw [Called]

theorem calledAmong_nil (callee next : Bool) : CalledAmong callee next [] := by
  rw [CalledAmong]
  trivial

theorem calledAmong_cons {callee next : Bool} {part : Tree} {parts : List Tree} :
    CalledAmong callee next (part :: parts) ↔
      Called (opens next (Tree.leavesOfAll parts)) part ∧
        (part.isAccess = true →
          if callee then opens false (Tree.leavesOfAll parts) = true
          else opens next (Tree.leavesOfAll parts) = false) ∧
        CalledAmong (callee && part.isLeaf) next parts := by
  rw [CalledAmong]

mutual

/-- If a parenthesis that opens behind the tree does no harm, neither does it do to leave it out. -/
theorem Called.mono {next later : Bool} (le : later = true → next = true) :
    ∀ {tree : Tree}, Called next tree → Called later tree
  | .leaf _ _, _ => called_leaf later _ _
  | .node _ _, called => called_node.mpr (CalledAmong.mono le (called_node.mp called))

/-- The same for consecutive parts. -/
theorem CalledAmong.mono {callee next later : Bool} (le : later = true → next = true) :
    ∀ {parts : List Tree}, CalledAmong callee next parts → CalledAmong callee later parts
  | [], _ => calledAmong_nil callee later
  | part :: parts, called => by
      obtain ⟨here, access, rest⟩ := calledAmong_cons.mp called
      refine calledAmong_cons.mpr ⟨here.mono (opens_mono le _), fun isAccess => ?_, rest.mono le⟩
      have before := access isAccess
      split
      · rename_i isCallee
        rwa [if_pos isCallee] at before
      · rename_i other
        rw [if_neg other] at before
        exact Bool.eq_false_iff.mpr fun isOpen => by simp [opens_mono le _ isOpen] at before

end

namespace CalledAmong

variable {callee next : Bool} {parts others : List Tree}

/-- More parts follow, none of which is what a call calls. -/
theorem append (first : CalledAmong false (opens next (Tree.leavesOfAll others)) parts)
    (second : CalledAmong false next others) : CalledAmong false next (parts ++ others) := by
  induction parts with
  | nil => exact second
  | cons part parts ih =>
      obtain ⟨here, access, rest⟩ := calledAmong_cons.mp first
      rw [← opens_append, ← Tree.leavesOfAll_append] at here access
      exact calledAmong_cons.mpr ⟨here, access, ih rest⟩

/-- A token is no access. -/
theorem leaf_cons {kind : Kind} {text : Text} (called : CalledAmong callee next parts) :
    CalledAmong callee next (.leaf kind text :: parts) := by
  refine calledAmong_cons.mpr ⟨called_leaf _ _ _, fun isAccess => absurd isAccess Bool.false_ne_true, ?_⟩
  rw [Tree.isLeaf, Bool.and_true]
  exact called

/-- Trivia are tokens. -/
theorem gap (callee next : Bool) (gap : List Token) : CalledAmong callee next (gap.map Token.leaf) := by
  induction gap with
  | nil => exact calledAmong_nil callee next
  | cons t gap ih => exact ih.leaf_cons

/-- Without accesses it does not matter what a call calls. -/
theorem of_none (none : ∀ part ∈ parts, part.isAccess = false) (called : CalledAmong false next parts) :
    CalledAmong callee next parts := by
  induction parts generalizing callee with
  | nil => exact calledAmong_nil callee next
  | cons part parts ih =>
      obtain ⟨notAccess, noneLater⟩ := List.forall_mem_cons.mp none
      obtain ⟨here, -, rest⟩ := calledAmong_cons.mp called
      refine calledAmong_cons.mpr ⟨here, fun isAccess => ?_, ih noneLater rest⟩
      rw [notAccess] at isAccess
      cases isAccess

/-- One node that is no access. -/
theorem single {kind : Kind} {inside : List Tree} (called : Called next (.node kind inside))
    (other : kind.isAccess = false) : CalledAmong false next [.node kind inside] := by
  refine calledAmong_cons.mpr ⟨?_, fun isAccess => ?_, calledAmong_nil _ _⟩
  · rw [Tree.leavesOfAll_nil]
    exact called
  · have isAccess : kind.isAccess = true := isAccess
    rw [other] at isAccess
    cases isAccess

end CalledAmong

/-! ## (3) A parse and the next parenthesis -/

namespace Parsing

/-- Whether the next token is an opening parenthesis. -/
def nextOpens (s : Parsing) : Bool := s.kindAt 0 == .lParen

/-- Whether an opening parenthesis is the first token of the open construct or, if that has none, the next
one. -/
def faces (s : Parsing) : Bool := opens s.nextOpens s.leaves

/-- In an open construct accesses are called where a parenthesis opens behind them, and none of its parts is
an access with a parenthesis behind it. -/
def Quiet (s : Parsing) : Prop := CalledAmong false s.nextOpens s.built.reverse

variable {s t : Parsing}

theorem faces_fresh (s : Parsing) : s.flush.fresh.faces = s.nextOpens := by
  rw [faces, leaves, fresh, List.reverse_nil, Tree.leavesOfAll_nil]
  rfl

theorem quiet_fresh (s : Parsing) : s.fresh.Quiet := calledAmong_nil _ _

/-- Parts are added behind the trivia in front of the next token. If no parenthesis was next, none is in front
now. -/
theorem faces_add (parts : List Tree) (tidy : s.Tidy)
    (le : opens t.nextOpens (Tree.leavesOfAll parts.reverse) = true → s.nextOpens = true)
    (apart : s.faces = false) : { t with built := parts ++ s.flush.built : Parsing }.faces = false := by
  refine Bool.eq_false_iff.mpr fun isOpen => ?_
  have split : ({ t with built := parts ++ s.flush.built : Parsing }).leaves =
      s.leaves ++ (Tree.leavesOfAll (s.gap.map Token.leaf) ++ Tree.leavesOfAll parts.reverse) := by
    simp [leaves, Parsing.flush]
  rw [faces, split, opens_append, opens_append, opens_gap _ tidy.1] at isOpen
  rw [faces, opens_mono le _ isOpen] at apart
  cases apart

/-- Parts are added. If no parenthesis was next, none is in front of what was there before. -/
theorem Quiet.add (quiet : s.Quiet) (parts : List Tree) (tidy : s.Tidy)
    (le : opens t.nextOpens (Tree.leavesOfAll parts.reverse) = true → s.nextOpens = true)
    (called : CalledAmong false t.nextOpens parts.reverse) :
    { t with built := parts ++ s.flush.built : Parsing }.Quiet := by
  have split : ({ t with built := parts ++ s.flush.built : Parsing }).built.reverse =
      s.built.reverse ++ (s.gap.map Token.leaf ++ parts.reverse) := by
    simp [Parsing.flush]
  rw [Quiet, split]
  refine (CalledAmong.mono (fun isOpen => ?_) quiet).append ((CalledAmong.gap _ _ _).append called)
  rw [Tree.leavesOfAll_append, opens_append, opens_gap _ tidy.1] at isOpen
  exact le isOpen

/-- A token that is recorded as it is, or as a name, brings no parenthesis forward. -/
theorem opens_recorded {next : Lexeme} {rest : List Lexeme} (tidy : s.Tidy) (ahead : s.ahead = next :: rest)
    {kind : Kind} (plain : kind = s.kindAt 0 ∨ kind.isPlainName = true) (later : Bool)
    (isOpen : opens later (Tree.leaves (.leaf kind next.token.text)) = true) : s.nextOpens = true := by
  have significant : next.token.kind.isTrivia = false :=
    (tidy.2 next (by rw [ahead]; exact List.mem_cons_self)).1
  have first : s.kindAt 0 = next.token.kind := by simp [kindAt, ahead]
  rw [Tree.leaves_leaf, opens_cons] at isOpen
  rcases plain with own | name
  · rw [own, first, if_neg (by simp [significant])] at isOpen
    rw [nextOpens, first]
    exact isOpen
  · rcases Bool.or_eq_true_iff.mp name with ident | qualified
    · rw [beq_iff_eq.mp ident] at isOpen
      cases isOpen
    · rw [beq_iff_eq.mp qualified] at isOpen
      cases isOpen

/-- Taking a token adds a leaf; at the end of the text it adds none. -/
theorem take_eq_add (s : Parsing) (rename : Kind → Kind) :
    s.take rename = s.flush ∨ ∃ next rest, s.ahead = next :: rest ∧
      s.take rename = { s.take rename with
        built := [.leaf (rename (s.kindAt 0)) next.token.text] ++ s.flush.built } := by
  cases ahead : s.ahead with
  | nil => exact .inl (take_of_nil rename ahead)
  | cons next rest => exact .inr ⟨next, rest, rfl, by simp [take, flush, kindAt, ahead]⟩

/-- Trivia changes nothing. -/
theorem faces_flush (tidy : s.Tidy) (apart : s.faces = false) : s.flush.faces = false :=
  faces_add (t := s.flush) [] tidy
    (fun isOpen => by rwa [List.reverse_nil, Tree.leavesOfAll_nil] at isOpen) apart

/-- Trivia changes nothing. -/
theorem Quiet.flush (quiet : s.Quiet) (tidy : s.Tidy) : s.flush.Quiet :=
  quiet.add (t := s.flush) [] tidy
    (fun isOpen => by rwa [List.reverse_nil, Tree.leavesOfAll_nil] at isOpen) (calledAmong_nil _ _)

/-- Taking a token brings no parenthesis forward. -/
theorem faces_take (tidy : s.Tidy) {rename : Kind → Kind}
    (plain : rename (s.kindAt 0) = s.kindAt 0 ∨ (rename (s.kindAt 0)).isPlainName = true)
    (apart : s.faces = false) : (s.take rename).faces = false := by
  rcases s.take_eq_add rename with stuck | ⟨next, rest, ahead, taken⟩
  · rw [stuck]
    exact faces_flush tidy apart
  · rw [taken]
    refine faces_add _ tidy (fun isOpen => opens_recorded tidy ahead plain (s.take rename).nextOpens ?_) apart
    simpa using isOpen

/-- A token is no access. -/
theorem Quiet.take (quiet : s.Quiet) (tidy : s.Tidy) {rename : Kind → Kind}
    (plain : rename (s.kindAt 0) = s.kindAt 0 ∨ (rename (s.kindAt 0)).isPlainName = true) :
    (s.take rename).Quiet := by
  rcases s.take_eq_add rename with stuck | ⟨next, rest, ahead, taken⟩
  · rw [stuck]
    exact quiet.flush tidy
  · rw [taken]
    refine quiet.add _ tidy (fun isOpen => opens_recorded tidy ahead plain (s.take rename).nextOpens ?_) ?_
    · simpa using isOpen
    · exact (calledAmong_nil _ _).leaf_cons

end Parsing

namespace Production

variable {ρ : Type} {node : Kind → Bool} {follow : ρ → Parsing → Bool × Parsing}

/-- **A parse brings no parenthesis forward**: if none is next when a construct is opened, the construct does
not begin with one. -/
theorem faces_run (tidies : ∀ rule s, s.Tidy → (follow rule s).2.Tidy)
    (rules : ∀ rule s, s.Tidy → s.faces = false → (follow rule s).2.faces = false) (p : Production ρ)
    (yields : p.yields Kind.isPlainName node = true) {s : Parsing} (tidy : s.Tidy) (apart : s.faces = false) :
    (p.run follow s).2.faces = false := by
  -- A construct that is closed again faces what it faced when it was opened, with what was added behind that.
  induction p generalizing s with
  | answer ok => exact apart
  | look condition => exact apart
  | bump => exact Parsing.faces_take tidy (.inl rfl) apart
  | bumpAs kind => exact Parsing.faces_take tidy (.inr yields) apart
  | fault cause => exact apart
  | andThen first second ih₁ ih₂ =>
      obtain ⟨yields₁, yields₂⟩ := Bool.and_eq_true_iff.mp yields
      exact ih₂ yields₂ (tidy_run tidies first tidy) (ih₁ yields₁ tidy apart)
  | branch condition yes no ih ihYes ihNo =>
      obtain ⟨yields, yieldsNo⟩ := Bool.and_eq_true_iff.mp yields
      obtain ⟨yields, yieldsYes⟩ := Bool.and_eq_true_iff.mp yields
      have tidy' := tidy_run tidies condition tidy
      have apart' := ih yields tidy apart
      exact branch_cases (P := fun result => result.2.faces = false) (fun _ => ihYes yieldsYes tidy' apart')
        (fun _ => ihNo yieldsNo tidy' apart')
  | byKind cases ih => exact ih _ (List.all_eq_true.mp yields _ (Kind.mem_all _)) tidy apart
  | node kind body ih =>
      -- If the node began with a parenthesis, then one was next when the node was opened.
      obtain ⟨-, inside⟩ := Bool.and_eq_true_iff.mp yields
      refine Parsing.faces_add (t := (body.run follow s.flush.fresh).2) [.node kind _] tidy
        (fun isOpen => ?_) apart
      by_contra closed
      have within := ih inside tidy.opened (by rw [Parsing.faces_fresh]; exact Bool.eq_false_iff.mpr closed)
      rw [Parsing.faces, Parsing.leaves] at within
      rw [List.reverse_singleton, Tree.leavesOfAll_cons, Tree.leavesOfAll_nil, List.append_nil, Tree.leaves_node,
        within] at isOpen
      cases isOpen
  | group body ih =>
      refine Parsing.faces_add (t := (body.run follow s.flush.fresh).2) _ tidy (fun isOpen => ?_) apart
      by_contra closed
      have within := ih yields tidy.opened (by rw [Parsing.faces_fresh]; exact Bool.eq_false_iff.mpr closed)
      rw [Parsing.faces, Parsing.leaves] at within
      rw [within] at isOpen
      cases isOpen
  | wrap kind body ih =>
      obtain ⟨-, inside⟩ := Bool.and_eq_true_iff.mp yields
      have within := ih inside tidy apart
      rw [Parsing.faces, Parsing.leaves] at within
      rw [run, Parsing.faces, Parsing.leaves, List.reverse_singleton, Tree.leavesOfAll_cons, Tree.leavesOfAll_nil,
        List.append_nil, Tree.leaves_node]
      exact within
  | loop body ih =>
      have rounds := iterate_induction (P := fun t => t.Tidy ∧ t.faces = false)
        (fun t kept => ⟨tidy_run tidies body kept.1, ih yields kept.1 kept.2⟩) (s.ahead.length + 1) ⟨tidy, apart⟩
      exact rounds.2
  | advances body ih => exact ih yields tidy apart
  | call rule => exact rules rule s tidy apart

/-- The part of a construct that a production reads begins with a parenthesis only if one was next. -/
theorem opens_run (tidies : ∀ rule s, s.Tidy → (follow rule s).2.Tidy)
    (rules : ∀ rule s, s.Tidy → s.faces = false → (follow rule s).2.faces = false) (p : Production ρ)
    (yields : p.yields Kind.isPlainName node = true) {s : Parsing} (tidy : s.Tidy)
    (isOpen : (p.run follow s.flush.fresh).2.faces = true) : s.nextOpens = true := by
  by_contra closed
  have apart := faces_run tidies rules p yields tidy.opened
    (by rw [Parsing.faces_fresh]; exact Bool.eq_false_iff.mpr closed)
  rw [apart] at isOpen
  cases isOpen

/-- **Where no accesses and calls are built, the accesses that are there stay called as they should be.** -/
theorem called_run (nodes : ∀ kind, node kind = true → kind.isAccess = false ∧ kind ≠ .callExpr)
    (tidies : ∀ rule s, s.Tidy → (follow rule s).2.Tidy)
    (faces : ∀ rule s, s.Tidy → s.faces = false → (follow rule s).2.faces = false)
    (rules : ∀ rule s, s.Tidy → s.Quiet → (follow rule s).2.Quiet) (p : Production ρ)
    (yields : p.yields Kind.isPlainName node = true) {s : Parsing} (tidy : s.Tidy) (quiet : s.Quiet) :
    (p.run follow s).2.Quiet := by
  have gathered {kind : Kind} {t : Parsing} (here : node kind = true) (inside : t.Quiet) :
      CalledAmong false t.nextOpens [.node kind t.built.reverse] := by
    obtain ⟨notAccess, notCall⟩ := nodes kind here
    refine .single (called_node.mpr ?_) notAccess
    rw [beq_eq_false_iff_ne.mpr notCall]
    exact inside
  induction p generalizing s with
  | answer ok => exact quiet
  | look condition => exact quiet
  | bump => exact quiet.take tidy (.inl rfl)
  | bumpAs kind => exact quiet.take tidy (.inr yields)
  | fault cause => exact quiet
  | andThen first second ih₁ ih₂ =>
      obtain ⟨yields₁, yields₂⟩ := Bool.and_eq_true_iff.mp yields
      exact ih₂ yields₂ (tidy_run tidies first tidy) (ih₁ yields₁ tidy quiet)
  | branch condition yes no ih ihYes ihNo =>
      obtain ⟨yields, yieldsNo⟩ := Bool.and_eq_true_iff.mp yields
      obtain ⟨yields, yieldsYes⟩ := Bool.and_eq_true_iff.mp yields
      have tidy' := tidy_run tidies condition tidy
      have quiet' := ih yields tidy quiet
      exact branch_cases (P := fun result => result.2.Quiet) (fun _ => ihYes yieldsYes tidy' quiet')
        (fun _ => ihNo yieldsNo tidy' quiet')
  | byKind cases ih => exact ih _ (List.all_eq_true.mp yields _ (Kind.mem_all _)) tidy quiet
  | node kind body ih =>
      obtain ⟨here, inside⟩ := Bool.and_eq_true_iff.mp yields
      have within := ih inside tidy.opened s.flush.quiet_fresh
      -- What was there before now stands in front of a node, and that begins with a parenthesis only if one was next.
      refine quiet.add (t := (body.run follow s.flush.fresh).2) [.node kind _] tidy
        (fun isOpen => opens_run tidies faces body inside tidy ?_) (gathered here within)
      simpa [Parsing.faces, Parsing.leaves] using isOpen
  | group body ih =>
      exact quiet.add (t := (body.run follow s.flush.fresh).2) _ tidy
        (fun isOpen => opens_run tidies faces body yields tidy isOpen) (ih yields tidy.opened s.flush.quiet_fresh)
  | wrap kind body ih =>
      obtain ⟨here, inside⟩ := Bool.and_eq_true_iff.mp yields
      exact gathered here (ih inside tidy quiet)
  | loop body ih =>
      have rounds := iterate_induction (P := fun t => t.Tidy ∧ t.Quiet)
        (fun t kept => ⟨tidy_run tidies body kept.1, ih yields kept.1 kept.2⟩) (s.ahead.length + 1) ⟨tidy, quiet⟩
      exact rounds.2
  | advances body ih => exact ih yields tidy quiet
  | call rule => exact rules rule s tidy quiet

/-- A loop whose rounds take tokens ends with a round that answers `false`. -/
theorem exists_last_round {P : Parsing → Prop} (step : Parsing → Bool × Parsing)
    (round : ∀ s, P s → P (step s).2)
    (shorter : ∀ s, P s → (step s).1 = true → (step s).2.ahead.length < s.ahead.length) (n : Nat) {s : Parsing}
    (enough : s.ahead.length < n) (start : P s) :
    ∃ t, P t ∧ (step t).1 = false ∧ iterate step n s = (step t).2 := by
  induction n generalizing s with
  | zero => exact absurd enough (Nat.not_lt_zero _)
  | succ n ih =>
      have after := round s start
      have takes := shorter s start
      rw [iterate]
      rcases found : step s with ⟨_ | _, t⟩
      · exact ⟨s, start, by rw [found], by rw [found]⟩
      · rw [found] at after takes
        have takes : t.ahead.length < s.ahead.length := takes rfl
        exact ih (by omega) after

end Production

/-! ## (4) The grammar -/

/-- The nodes that only the loop over accesses builds, as far as calls matter. -/
def Kind.isPostfix : Kind → Bool
  | .memberAccessExpr | .staticAccessExpr | .callExpr => true
  | _ => false

/-- Other nodes are neither accesses nor calls. -/
theorem Kind.not_access_of_not_isPostfix (kind : Kind) (other : (!kind.isPostfix) = true) :
    kind.isAccess = false ∧ kind ≠ .callExpr := by
  constructor
  · unfold isAccess
    split
    · cases other
    · cases other
    · rfl
  · rintro rfl
    cases other

/-- The loops over accesses and over infix operators do not build others either. -/
theorem Kind.not_isPostfix_of_not_isChained (kind : Kind) (other : (!kind.isChained) = true) :
    (!kind.isPostfix) = true := by
  unfold isPostfix
  split
  · cases other
  · cases other
  · cases other
  · rfl

namespace Grammar

open Production

variable {depth : Nat}

/-- Apart from its operands an expression builds what infix operators build. -/
theorem yields_operatorChain {node : Kind → Bool} (name : node .nameRef = true)
    (operators : ∀ operator ∈ Kind.all, ∀ p ∈ infixPower? operator, node p.kind = true) (power : Nat) :
    (operatorChain power).yields Kind.isPlainName node = true := by
  have step : (infixStep power).yields Kind.isPlainName node = true := by
    obtain ⟨cases, same, each⟩ := infixStep_induction power (fun _ p => p.yields Kind.isPlainName node = true)
      (fun _ => rfl) fun operator listed p found => by
        simp [also, ok, yields, yields_infixOperand name, operators operator listed p found]
    rw [same]
    exact List.all_eq_true.mpr each
  rw [operatorChain, yields, yields, yields, yields, step]
  rfl

set_option maxRecDepth 2000 in
/-- All rules but one build no access and no call. -/
theorem yields_others (rule : Rule) (notPostfixed : rule ≠ .postfixed) :
    rule.production.yields Kind.isPlainName (fun kind => !kind.isPostfix) = true := by
  by_cases isExpression : ∃ power, rule = .expression power
  · obtain ⟨power, rfl⟩ := isExpression
    exact yields_operatorChain rfl (by decide) power
  · have others := rule.yields_all notPostfixed fun power same => isExpression ⟨power, same⟩
    exact yields_mono (fun _ same => same) Kind.not_isPostfix_of_not_isChained _ others

/-- Whatever the rule, no token is recorded under another kind unless as a name. -/
theorem yields_names (rule : Rule) : rule.production.yields Kind.isPlainName (fun _ => true) = true := by
  by_cases isPostfixed : rule = .postfixed
  · subst isPostfixed
    decide
  · exact yields_mono (fun _ same => same) (fun _ _ => rfl) _ (yields_others rule isPostfixed)

/-- Following a rule brings no parenthesis forward. -/
theorem faces_follow (depth : Nat) (rule : Rule) (s : Parsing) (tidy : s.Tidy) (apart : s.faces = false) :
    (Rule.follow depth rule s).2.faces = false := by
  induction depth generalizing rule s with
  | zero => exact apart
  | succ depth ih => exact faces_run (Rule.tidy_follow depth) ih rule.production (yields_names rule) tidy apart

/-- How many accesses a rule adds at most. Those that no operand contains add none. -/
def accesses : Rule → Kind → ℕ∞
  | .primary | .variable | .new | .closure | .arrowFn | .choice | .attributeGroup => fun _ => 0
  | _ => fun _ => ⊤

set_option maxRecDepth 4000 in
/-- An operand without operators is no access. -/
theorem accesses_follow {kind : Kind} (access : kind.isAccess = true) (depth : Nat) (rule : Rule) (s : Parsing) :
    (Rule.follow depth rule s).2.nodes kind ≤ s.nodes kind + accesses rule kind := by
  have adds (rule : Rule) : rule.production.most accesses kind ≤ accesses rule kind := by
    unfold Kind.isAccess at access
    split at access
    · cases rule with
      | primary | «variable» | new | closure | arrowFn | choice | attributeGroup => decide
      | _ => exact le_top
    · cases rule with
      | primary | «variable» | new | closure | arrowFn | choice | attributeGroup => decide
      | _ => exact le_top
    · cases access
  induction depth generalizing rule s with
  | zero => exact le_self_add
  | succ depth ih =>
      exact (nodes_run_le ih rule.production s).trans (add_le_add_right (adds rule) _)

/-- No part of an operand without operators is an access. -/
theorem primary_not_isAccess (depth : Nat) {s : Parsing} (fresh : s.built = []) :
    ∀ part ∈ (Rule.follow depth .primary s).2.built, part.isAccess = false := by
  intro part mem
  refine Bool.eq_false_iff.mpr fun isAccess => ?_
  cases part with
  | leaf kind text => cases isAccess
  | node kind inside =>
      have none := accesses_follow isAccess depth .primary s
      have nothing : s.nodes kind = 0 := by
        rw [Parsing.nodes, fresh]
        rfl
      rw [nothing, zero_add] at none
      have some : 0 < (Rule.follow depth .primary s).2.built.countP (Tree.isNode kind) :=
        List.countP_pos_iff.mpr ⟨_, mem, beq_self_eq_true kind⟩
      have none : (Rule.follow depth .primary s).2.built.countP (Tree.isNode kind) = 0 :=
        Nat.cast_eq_zero.mp (le_antisymm none zero_le)
      omega

/-- With at most `depth` rules open, accesses are called as they should be. -/
def AllCalled (depth : Nat) : Prop :=
  ∀ (rule : Rule) (s : Parsing), s.Tidy → s.Quiet → (Rule.follow depth rule s).2.Quiet

/-- What the rounds over accesses work on: parts without an access, or one tree. -/
inductive Folded (s : Parsing) : Prop
  /-- There is no access yet. -/
  | operand (none : ∀ part ∈ s.built, part.isAccess = false) (quiet : s.Quiet)
  /-- All has been gathered into one node. -/
  | single {kind : Kind} {parts : List Tree} (only : s.built = [.node kind parts])
      (called : Called s.nextOpens (.node kind parts))

/-- If no parenthesis is next, no access is to be called. -/
theorem Folded.quiet {s : Parsing} (folded : Folded s) (closed : s.nextOpens = false) : s.Quiet := by
  cases folded with
  | operand none quiet => exact quiet
  | single only called =>
      rw [Parsing.Quiet, only, List.reverse_singleton, closed]
      rw [closed] at called
      exact calledAmong_cons.mpr ⟨by rwa [Tree.leavesOfAll_nil], fun _ => by rw [Tree.leavesOfAll_nil]; rfl,
        calledAmong_nil _ _⟩

/-- A round that is no call gathers an access, an index or the like. -/
theorem Folded.gather (rules : AllCalled depth) {s : Parsing} (folded : Folded s) (tidy : s.Tidy)
    (closed : s.nextOpens = false) {kind : Kind} (notCall : kind ≠ .callExpr) {body : Grammar}
    (yields : body.yields Kind.isPlainName (fun kind => !kind.isPostfix) = true) :
    Folded ((wrap kind body).run (Rule.follow depth) s).2 := by
  have inside := called_run Kind.not_access_of_not_isPostfix (Rule.tidy_follow depth) (faces_follow depth) rules
    body yields tidy (folded.quiet closed)
  refine .single rfl (called_node.mpr ?_)
  rw [beq_eq_false_iff_ne.mpr notCall]
  exact inside

/-- What begins with a parenthesis has it in front of everything else. -/
theorem opens_of_bump {rest : Grammar} (keeps : rest.keeps = true) {s : Parsing} (isOpen : s.nextOpens = true) :
    opens false ((andThen bump rest).run (Rule.follow depth) s.flush.fresh).2.leaves = true := by
  have first : s.kindAt 0 = .lParen := beq_iff_eq.mp isOpen
  cases ahead : s.ahead with
  | nil => simp [Parsing.kindAt, ahead] at first
  | cons next later =>
      have kind : next.token.kind = .lParen := by simpa [Parsing.kindAt, ahead] using first
      have taken : (s.flush.fresh.take id).built = [.leaf .lParen next.token.text] := by
        simp [Parsing.take, Parsing.flush, Parsing.fresh, ahead, kind]
      obtain ⟨more, parts⟩ := built_run (Rule.built_follow depth) rest keeps (s.flush.fresh.take id)
      rw [run, run, Parsing.leaves, ← parts, taken, List.reverse_append, List.reverse_singleton,
        List.singleton_append, Tree.leavesOfAll_cons, Tree.leaves_leaf]
      rfl

/-- The arguments of a call are one node, which begins with a parenthesis. -/
theorem argList_follow (rules : AllCalled depth) (deep : 0 < depth) {s : Parsing} (tidy : s.Tidy)
    (isOpen : s.nextOpens = true) :
    ∃ inside, (Rule.follow depth .argList s).2.built = .node .argList inside :: s.flush.built ∧
      opens false (Tree.leavesOfAll inside) = true ∧
        Called (Rule.follow depth .argList s).2.nextOpens (.node .argList inside) := by
  have quiet := rules .argList s.flush.fresh tidy.opened s.flush.quiet_fresh
  cases depth with
  | zero => exact absurd deep (Nat.lt_irrefl 0)
  | succ depth =>
      obtain ⟨rest, keeps, body⟩ : ∃ rest : Grammar, rest.keeps = true ∧
          Rule.argList.production = node .argList (andThen bump rest) := ⟨_, by decide, rfl⟩
      rw [Rule.follow, body] at quiet ⊢
      exact ⟨_, rfl, opens_of_bump keeps isOpen, (calledAmong_cons.mp quiet).1⟩

/-- A round that is a call gathers what is called and the arguments. -/
theorem Folded.apply (rules : AllCalled depth) (deep : 0 < depth) {s : Parsing} (folded : Folded s) (tidy : s.Tidy)
    (isOpen : s.nextOpens = true) :
    Folded ((wrap .callExpr (call .argList) : Grammar).run (Rule.follow depth) s).2 := by
  obtain ⟨inside, parts, arguments, called⟩ := argList_follow rules deep tidy isOpen
  let after := (Rule.follow depth .argList s).2
  let behind := s.gap.map Token.leaf ++ [.node .argList inside]
  have all : after.built.reverse = s.built.reverse ++ behind := by
    rw [parts]
    simp [behind, Parsing.flush]
  have follows (next : Bool) : opens next (Tree.leavesOfAll behind) = true := by
    rw [Tree.leavesOfAll_append, opens_append, opens_gap _ tidy.1, Tree.leavesOfAll_cons, Tree.leavesOfAll_nil,
      List.append_nil, Tree.leaves_node]
    exact opens_mono (fun falsity => absurd falsity Bool.false_ne_true) _ arguments
  have rest : CalledAmong false after.nextOpens behind :=
    (CalledAmong.gap _ _ _).append (.single called rfl)
  refine .single rfl (called_node.mpr ?_)
  change CalledAmong true after.nextOpens after.built.reverse
  rw [all]
  cases folded with
  | operand none quiet =>
      -- What is called is no access, and no other part of a call is one.
      refine .of_none (List.forall_mem_append.mpr ⟨fun part mem => none part (List.mem_reverse.mp mem), ?_⟩)
        (CalledAmong.append (CalledAmong.mono (fun _ => isOpen) quiet) rest)
      refine List.forall_mem_append.mpr ⟨fun part mem => ?_, List.forall_mem_singleton.mpr rfl⟩
      obtain ⟨t, -, rfl⟩ := List.mem_map.mp mem
      rfl
  | single only callee =>
      rw [only, List.reverse_singleton, List.singleton_append]
      exact calledAmong_cons.mpr ⟨Called.mono (fun _ => isOpen) callee, fun _ => follows false, rest⟩

/-- What begins with a token takes it. -/
theorem length_bump_lt (depth : Nat) (rest : Grammar) {s : Parsing} (more : s.kindAt 0 ≠ .error) :
    ((andThen bump rest).run (Rule.follow depth) s).2.ahead.length < s.ahead.length := by
  have ahead : s.ahead ≠ [] := by
    intro none
    exact more (by simp [Parsing.kindAt, none])
  exact (length_run_le (Rule.length_follow_le depth) rest (s.take id)).trans_lt (Parsing.length_take_lt ahead id)

/-- The arguments of a call take a token. -/
theorem length_argList_lt (deep : 0 < depth) {s : Parsing} (more : s.kindAt 0 ≠ .error) :
    (Rule.follow depth .argList s).2.ahead.length < s.ahead.length := by
  cases depth with
  | zero => exact absurd deep (Nat.lt_irrefl 0)
  | succ depth =>
      obtain ⟨rest, body⟩ : ∃ rest : Grammar, Rule.argList.production = node .argList (andThen bump rest) :=
        ⟨_, rfl⟩
      rw [Rule.follow, body]
      exact length_bump_lt depth (s := s.flush.fresh) rest more

/-- **A round over accesses**: it gathers what there is with an access, a call or the like and takes a token, or
it ends the loop, and then no parenthesis is next. -/
theorem Folded.round (rules : AllCalled depth) (deep : 0 < depth) {s : Parsing} (folded : Folded s) (tidy : s.Tidy) :
    Folded (postfixStep.run (Rule.follow depth) s).2 ∧
      ((postfixStep.run (Rule.follow depth) s).1 = true →
        (postfixStep.run (Rule.follow depth) s).2.ahead.length < s.ahead.length) ∧
      ((postfixStep.run (Rule.follow depth) s).1 = false →
        (postfixStep.run (Rule.follow depth) s).2.Quiet) := by
  have closed {kind : Kind} (next : s.kindAt 0 = kind) (other : kind ≠ .lParen) : s.nextOpens = false := by
    rw [Parsing.nextOpens, next]
    exact beq_eq_false_iff_ne.mpr other
  have gathers {kind : Kind} {body : Grammar} (notOpen : s.nextOpens = false) (notCall : kind ≠ .callExpr)
      (yields : body.yields Kind.isPlainName (fun kind => !kind.isPostfix) = true)
      (takes : (body.run (Rule.follow depth) s).2.ahead.length < s.ahead.length) :
      Folded ((wrap kind body).run (Rule.follow depth) s).2 ∧
        (true = true → ((wrap kind body).run (Rule.follow depth) s).2.ahead.length < s.ahead.length) ∧
        (true = false → ((wrap kind body).run (Rule.follow depth) s).2.Quiet) :=
    ⟨folded.gather rules tidy notOpen notCall yields, fun _ => takes, fun falsity => by cases falsity⟩
  -- Only the case of a parenthesis builds a call; all others are closed to one by the token that is next.
  rw [postfixStep, run]
  split
  · rename_i next
    exact gathers (closed next (by decide)) (by decide) (by decide)
      (length_bump_lt depth _ (by rw [next]; decide))
  · rename_i next
    exact gathers (closed next (by decide)) (by decide) (by decide)
      (length_bump_lt depth _ (by rw [next]; decide))
  · rename_i next
    exact gathers (closed next (by decide)) (by decide) (by decide)
      (length_bump_lt depth _ (by rw [next]; decide))
  · rename_i next
    have isOpen : s.nextOpens = true := beq_iff_eq.mpr next
    exact ⟨folded.apply rules deep tidy isOpen, fun _ => length_argList_lt deep (by rw [next]; decide),
      fun falsity => by cases falsity⟩
  · rename_i next
    exact gathers (closed next (by decide)) (by decide) (by decide)
      (length_bump_lt depth _ (by rw [next]; decide))
  · rename_i next
    exact gathers (closed next (by decide)) (by decide) rfl
      (length_bump_lt depth (answer true) (by rw [next]; decide))
  · rename_i next
    exact gathers (closed next (by decide)) (by decide) rfl
      (length_bump_lt depth (answer true) (by rw [next]; decide))
  · rename_i notOpen _ _ _
    exact ⟨folded, fun falsity => absurd falsity Bool.false_ne_true,
      fun _ => folded.quiet (beq_eq_false_iff_ne.mpr notOpen)⟩

/-- The loop over accesses calls what a parenthesis follows, and nothing else. -/
theorem called_postfixed (rules : AllCalled depth) {s : Parsing} (tidy : s.Tidy) (quiet : s.Quiet) :
    (postfixed.run (Rule.follow depth) s).2.Quiet := by
  let body : Grammar := branch (call .primary) (loop postfixStep) stop
  have names : body.yields Kind.isPlainName (fun _ => true) = true := by decide
  suffices inside : (body.run (Rule.follow depth) s.flush.fresh).2.Quiet from
    quiet.add (t := (body.run (Rule.follow depth) s.flush.fresh).2) _ tidy
      (fun isOpen => opens_run (Rule.tidy_follow depth) (faces_follow depth) body names tidy isOpen) inside
  have reads := Rule.gathers_follow depth .primary s.flush.fresh tidy.opened fun kinds starts => by cases starts
  have operand := rules .primary s.flush.fresh tidy.opened s.flush.quiet_fresh
  have none := primary_not_isAccess depth (s := s.flush.fresh) rfl
  simp only [body]
  rw [run, run]
  rcases found : Rule.follow depth .primary s.flush.fresh with ⟨_ | _, t⟩
  · rw [found] at operand
    exact operand
  · rw [found] at reads operand none
    have deep : 0 < depth := reads.followed rfl
    -- The loop ends with a round that finds nothing to gather.
    obtain ⟨u, ⟨tidyLast, last⟩, ends, same⟩ := exists_last_round (P := fun t => t.Tidy ∧ Folded t)
      (postfixStep.run (Rule.follow depth))
      (fun t kept => ⟨tidy_run (Rule.tidy_follow depth) postfixStep kept.1, (kept.2.round rules deep kept.1).1⟩)
      (fun t kept => (kept.2.round rules deep kept.1).2.1) (t.ahead.length + 1) (Nat.lt_succ_self _)
      ⟨reads.tidy, .operand none operand⟩
    change (iterate (postfixStep.run (Rule.follow depth)) (t.ahead.length + 1) t).Quiet
    rw [same]
    exact (last.round rules deep tidyLast).2.2 ends

/-- **Every rule calls what a parenthesis follows, and nothing else**, however many rules may be open. -/
theorem called_follow (depth : Nat) : AllCalled depth := by
  induction depth with
  | zero => exact fun rule s tidy quiet => quiet
  | succ depth ih =>
      intro rule s tidy quiet
      by_cases isPostfixed : rule = .postfixed
      · subst isPostfixed
        exact called_postfixed ih tidy quiet
      · exact called_run Kind.not_access_of_not_isPostfix (Rule.tidy_follow depth) (faces_follow depth) ih
          rule.production (yields_others rule isPostfixed) tidy quiet

end Grammar

/-- **In the tree of every text an access is called if a parenthesis opens behind it, and only then.** -/
theorem Parse.called_ofTokens (tokens : List Token) : Called false (Parse.ofTokens tokens).tree := by
  let start := Parsing.ofTokens tokens
  let depth := ruleDepth start.ahead.length
  let done := (Grammar.sourceFile.run (Rule.follow depth) start).2
  have yields : Grammar.sourceFile.yields Kind.isPlainName (fun kind => !kind.isPostfix) = true :=
    Grammar.yields_sourceFile rfl
  have tidy : start.Tidy := Parsing.tidy_split tokens
  have quiet : done.Quiet :=
    Production.called_run Kind.not_access_of_not_isPostfix (Rule.tidy_follow depth) (Grammar.faces_follow depth)
      (Grammar.called_follow depth) Grammar.sourceFile yields tidy (calledAmong_nil _ _)
  have flushed : done.flush.Quiet := quiet.flush (Production.tidy_run (Rule.tidy_follow depth) _ tidy)
  -- Behind the end of the text nothing opens.
  have ends : done.flush.nextOpens = false := by
    have nothing : done.flush.ahead = [] := Grammar.sourceFile_atEnd depth start
    rw [Parsing.nextOpens, Parsing.kindAt, nothing]
    rfl
  rw [Parsing.Quiet, ends] at flushed
  exact called_node.mpr flushed

end PhpMembers
