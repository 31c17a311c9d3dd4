import PhpMembers.Proofs.Typing.Documented

/-! # The levels of types

The type of an expression is found within a number of levels. An expression takes types from at most one other
expression: from one that stands in it and is smaller, or, if it is a variable, from the assignment that gives the
variable its value, which ends before the variable begins. No way to read a type turns an unknown one into
another one. So more levels never change a type that is known, and with enough of them a type no longer depends
on their number.

* `Cursor.operand?`, `Cursor.assignedFrom?` : where an expression takes types from.
* `Typing.typeBy_related` : the type of an expression depends on nothing else.
* `Typing.typeOf_mono` : more levels do not change a type that is known.
* `Cursor.acc_takesFrom` : expressions can be followed back only finitely often. -/

namespace PhpMembers

namespace Cursor

variable {source name : Text} {e d use viewer node : Cursor} {tree : Tree} {offset crossed : Nat} {found : Resolution}

/-! ## (1) Where an expression takes types from -/

/-- The expression inside of an expression whose type tells that of the whole. -/
def operand? (e : Cursor) : Option Cursor :=
  match e.kind with
  | .parenExpr => e.firstExpression?
  | .assignExpr => if e.isPlainAssignment then e.assigned? else none
  | .callExpr => e.firstExpression?.bind fun callee =>
      if callee.kind = .memberAccessExpr then callee.instanceName?.bind fun _ => callee.firstExpression? else none
  | .memberAccessExpr => e.instanceName?.bind fun _ => e.firstExpression?
  | .unaryExpr => if e.hasToken .cloneKw then e.firstExpression? else none
  | _ => none

/-- The assignment that gives a variable its value, and how many functions lie between the two. -/
def assignedFrom? (e : Cursor) : Option (Nat × Cursor) :=
  if e.kind = .variableExpr then
    (e.plainVariable?.bind fun name => if name = thisWord then none else e.resolveVariable? name).bind fun found =>
      match found.binding with
      | .assignment node => some (found.crossed, node)
      | _ => none
  else none

/-- `TakesFrom d e`: the type of `e` is told by that of `d`. -/
def TakesFrom (d e : Cursor) : Prop := e.operand? = some d ∨ ∃ crossed, e.assignedFrom? = some (crossed, d)

/-- A part of a node is an element of it, and smaller. -/
theorem smaller_of_mem_children (part : d ∈ e.children) : d ∈ e.elements ∧ sizeOf d.tree < sizeOf e.tree :=
  ⟨children_subset_elements e.self_mem_elements part, sizeOf_lt_of_mem_children part⟩

/-- The first expression is a part. -/
theorem mem_children_of_firstExpression? (first : e.firstExpression? = some d) : d ∈ e.children :=
  List.mem_of_mem_filter (List.mem_of_find?_eq_some first)

/-- **The operand of an expression stands in it and is smaller.** -/
theorem smaller_of_operand? (operand : e.operand? = some d) : d ∈ e.elements ∧ sizeOf d.tree < sizeOf e.tree := by
  rw [operand?] at operand
  split at operand
  · exact smaller_of_mem_children (mem_children_of_firstExpression? operand)
  · obtain ⟨-, second⟩ := Option.ite_none_right_eq_some.mp operand
    obtain ⟨inRange, same⟩ := List.getElem?_eq_some_iff.mp second
    have isExpression : d ∈ e.expressions := same ▸ List.getElem_mem inRange
    exact smaller_of_mem_children (List.mem_of_mem_filter (List.mem_of_mem_filter isExpression))
  · -- The receiver of a call stands in the access that is called.
    obtain ⟨callee, first, operand⟩ := Option.bind_eq_some_iff.mp operand
    obtain ⟨-, operand⟩ := Option.ite_none_right_eq_some.mp operand
    obtain ⟨-, -, receiver⟩ := Option.bind_eq_some_iff.mp operand
    have outer := smaller_of_mem_children (mem_children_of_firstExpression? first)
    have inner := smaller_of_mem_children (mem_children_of_firstExpression? receiver)
    exact ⟨mem_elements_trans inner.1 outer.1, inner.2.trans outer.2⟩
  · obtain ⟨-, -, first⟩ := Option.bind_eq_some_iff.mp operand
    exact smaller_of_mem_children (mem_children_of_firstExpression? first)
  · obtain ⟨-, first⟩ := Option.ite_none_right_eq_some.mp operand
    exact smaller_of_mem_children (mem_children_of_firstExpression? first)
  · cases operand

/-- An assignment in effect in a scope belongs to it, and ends at the place where it is seen at the latest. -/
theorem stop_le_of_latestBinding? {scope : Cursor}
    (latest : latestBinding? scope name offset = some (.assignment node)) :
    node ∈ scope.elements ∧ node.stop ≤ offset := by
  obtain ⟨⟨position, binding⟩, greatest, same⟩ := Option.map_eq_some_iff.mp latest
  obtain ⟨before, after, split, -⟩ := exists_split_of_lastGreatest? greatest
  have inBindings : (position, binding) ∈ PhpMembers.bindings scope name offset := by
    rw [split]
    simp
  obtain rfl : binding = .assignment node := same
  -- Only a node can bind a variable by an assignment; a comment never does.
  rcases List.mem_append.mp inBindings with byNode | byComment
  · obtain ⟨c, belongs, binds⟩ := List.mem_filterMap.mp byNode
    rw [withinScope_eq] at belongs
    rw [nodeBinding?] at binds
    split at binds
    · obtain ⟨test, same⟩ := Option.ite_none_right_eq_some.mp binds
      obtain ⟨-, same⟩ := Prod.mk.inj (Option.some.inj same)
      cases same
      rw [Bool.and_eq_true, decide_eq_true_eq] at test
      exact ⟨List.mem_of_mem_filter belongs, test.2⟩
    · obtain ⟨-, same⟩ := Option.ite_none_right_eq_some.mp binds
      cases same
    · cases binds
  · obtain ⟨c, -, binds⟩ := List.mem_filterMap.mp byComment
    obtain ⟨-, binds⟩ := Option.ite_none_right_eq_some.mp binds
    obtain ⟨statement, -, same⟩ := Option.map_eq_some_iff.mp binds
    cases same

/-- **What is found through all scopes is in effect in one of them**, no later than where the variable is looked up;
or it is a parameter. -/
theorem exists_latest_of_bindingAmong? (mem : viewer ∈ (root tree).elements) (le : viewer.start ≤ offset)
    (resolved : bindingAmong? name viewer.scopes viewer offset crossed = some found) :
    ∃ scope ∈ (root tree).elements, (∃ earlier ≤ offset, latestBinding? scope name earlier = some found.binding) ∨
      ∃ param, found.binding = .parameter scope param := by
  let inFront (viewer : Cursor) (earlier : Nat) : Prop := viewer.start ≤ earlier ∧ earlier ≤ offset
  have outward : ∀ viewer earlier scope parent, inFront viewer earlier → scope.IsScopeOf viewer →
      scope ∈ (root tree).elements → viewer ∈ scope.elements → scope.parent? = some parent →
        inFront parent scope.start := by
    rintro viewer earlier scope parent ⟨le, le'⟩ - inFile below parents
    obtain ⟨parentInFile, part⟩ := mem_elements_of_parent? inFile parents
    have inside := within_of_mem_elements (stop_of_mem_elements inFile) below
    have function := within_of_mem_children (stop_of_mem_elements parentInFile) part
    exact ⟨function.1, by omega⟩
  obtain ⟨viewer, earlier, scope, ⟨-, le'⟩, inFile, -, latest | param⟩ :=
    exists_scope_of_bindingAmong? outward mem ⟨le, offset.le_refl⟩ resolved
  · exact ⟨scope, inFile, .inl ⟨earlier, le', latest⟩⟩
  · exact ⟨scope, inFile, .inr param⟩

/-- **The assignment that gives a variable its value ends before the variable begins.** -/
theorem stop_le_of_assignedFrom? (mem : e ∈ (root tree).elements) (assigned : e.assignedFrom? = some (crossed, d)) :
    e.kind = .variableExpr ∧ d ∈ (root tree).elements ∧ d.stop ≤ e.start := by
  rw [assignedFrom?] at assigned
  obtain ⟨kind, assigned⟩ := Option.ite_none_right_eq_some.mp assigned
  obtain ⟨found, resolved, assigned⟩ := Option.bind_eq_some_iff.mp assigned
  obtain ⟨name, -, resolved⟩ := Option.bind_eq_some_iff.mp resolved
  obtain ⟨-, resolved⟩ := Option.ite_none_left_eq_some.mp resolved
  split at assigned
  · rename_i node binding
    obtain ⟨-, rfl⟩ := Prod.mk.inj (Option.some.inj assigned)
    obtain ⟨scope, inTree, ⟨earlier, le, latest⟩ | ⟨param, isParam⟩⟩ :=
      exists_latest_of_bindingAmong? mem e.start.le_refl resolved
    · rw [binding] at latest
      obtain ⟨inScope, ends⟩ := stop_le_of_latestBinding? latest
      exact ⟨kind, mem_elements_trans inScope inTree, ends.trans le⟩
    · rw [binding] at isParam
      cases isParam
  · cases assigned

/-- A variable with a name is not empty. -/
theorem start_lt_stop_of_assignedFrom? (mem : e ∈ (ofText source).elements)
    (assigned : e.assignedFrom? = some (crossed, d)) : e.start < e.stop := by
  rw [assignedFrom?] at assigned
  obtain ⟨kind, assigned⟩ := Option.ite_none_right_eq_some.mp assigned
  obtain ⟨found, resolved, -⟩ := Option.bind_eq_some_iff.mp assigned
  obtain ⟨name, named, -⟩ := Option.bind_eq_some_iff.mp resolved
  have isUse : e.isVariable name = true := by
    rw [isVariable, kind, named, beq_self_eq_true, beq_self_eq_true, Bool.and_true]
  exact (start_lt_stop_of_isVariable mem isUse).2

/-- **Expressions can be followed back only finitely often**, without any count of the steps. What a type is taken
from ends earlier, or it ends no later and is smaller. -/
theorem acc_takesFrom (mem : e ∈ (ofText source).elements) : Acc TakesFrom e := by
  suffices all : ∀ measure : Nat × Nat, ∀ e ∈ (ofText source).elements, (e.stop, sizeOf e.tree) = measure →
      Acc TakesFrom e from all _ e mem rfl
  intro measure
  induction measure using (Prod.instWellFoundedRelation (α := Nat) (β := Nat)).wf.induction with
  | _ measure ih =>
      rintro e mem rfl
      refine ⟨e, fun d takes => ?_⟩
      rcases takes with operand | ⟨crossed, assigned⟩
      · obtain ⟨inside, smaller⟩ := smaller_of_operand? operand
        have within := within_of_mem_elements (stop_of_mem_elements mem) inside
        refine ih _ ?_ d (mem_elements_trans inside mem) rfl
        rcases Nat.lt_or_eq_of_le within.2.2 with earlier | same
        · exact Prod.Lex.left _ _ earlier
        · rw [same]
          exact Prod.Lex.right _ smaller
      · obtain ⟨-, inFile, ends⟩ := stop_le_of_assignedFrom? mem assigned
        have filled := start_lt_stop_of_assignedFrom? mem assigned
        exact ih _ (Prod.Lex.left _ _ (lt_of_le_of_lt ends filled)) d inFile rfl

end Cursor

/-! ## (2) One more level -/

namespace Typing

variable {e : Cursor} {part part' : Cursor → StaticType} {bound bound' : Nat → Cursor → StaticType}

/-- **The type of an expression is told by what it takes types from.** Whatever relates those types, and the types
of members whose receivers are related, relates the types of the expression. -/
theorem typeBy_related (t : Typing) {R : StaticType → StaticType → Prop} (same : ∀ x, R x x)
    (member : ∀ {x y}, R x y → ∀ kind name, R (t.memberType x kind name) (t.memberType y kind name))
    (inner : ∀ d, e.operand? = some d → R (part d) (part' d))
    (outer : ∀ crossed d, e.assignedFrom? = some (crossed, d) → R (bound crossed d) (bound' crossed d)) :
    R (t.typeBy part bound e) (t.typeBy part' bound' e) := by
  have operand : ∀ found, e.operand? = found →
      R ((found.map part).getD .unknown) ((found.map part').getD .unknown) := by
    intro found is
    cases found with
    | none => exact same _
    | some d => exact inner d is
  rw [typeBy, typeBy]
  split <;> rename_i kind <;> try exact same _
  · -- A variable: only an assignment leads to another expression.
    rcases named : e.plainVariable? with _ | name
    · exact same _
    · show R (if name = thisWord then _ else _) (if name = thisWord then _ else _)
      by_cases isThis : name = thisWord
      · rw [if_pos isThis, if_pos isThis]
        exact same _
      · rw [if_neg isThis, if_neg isThis]
        rcases resolved : e.resolveVariable? name with _ | ⟨binding, viewer, crossed⟩
        · exact same _
        · cases binding with
          | assignment node =>
              refine outer crossed node ?_
              rw [Cursor.assignedFrom?, if_pos kind, named, Option.bind_some, if_neg isThis, resolved]
              rfl
          | handler clause => exact same _
          | documented type offset => exact same _
          | parameter function param => exact same _
  · exact operand _ (by rw [Cursor.operand?, kind])
  · by_cases plain : e.isPlainAssignment = true
    · rw [if_pos plain, if_pos plain]
      exact operand _ (by rw [Cursor.operand?, kind, if_pos plain])
    · rw [if_neg plain, if_neg plain]
      exact same _
  · -- A call: the receiver of the access that is called.
    rcases first : e.firstExpression? with _ | callee
    · exact same _
    · dsimp only
      split
      · rename_i isAccess
        rcases named : callee.instanceName? with _ | token
        · exact same _
        · refine member (operand _ ?_) _ _
          rw [Cursor.operand?, kind]
          simp only [first, Option.bind_some, if_pos isAccess, named]
      · exact same _
      · exact same _
  · rcases named : e.instanceName? with _ | token
    · exact same _
    · refine member (operand _ ?_) _ _
      rw [Cursor.operand?, kind]
      simp only [named, Option.bind_some]
  · by_cases clone : e.hasToken .cloneKw = true
    · rw [if_pos clone, if_pos clone]
      exact operand _ (by rw [Cursor.operand?, kind, if_pos clone])
    · rw [if_neg clone, if_neg clone]
      exact same _

/-- The type of an expression is the same wherever it takes the same types. -/
theorem typeBy_congr (t : Typing) (inner : ∀ d, e.operand? = some d → part d = part' d)
    (outer : ∀ crossed d, e.assignedFrom? = some (crossed, d) → bound crossed d = bound' crossed d) :
    t.typeBy part bound e = t.typeBy part' bound' e :=
  t.typeBy_related (fun _ => rfl) (fun same kind name => by rw [same]) inner outer

end Typing

/-- `x.AtMost y`: either nothing is known, or it is known to be `y`. -/
def StaticType.AtMost (x y : StaticType) : Prop := x = .unknown ∨ x = y

namespace Typing

variable {source : Text} {e : Cursor}

/-- **More levels do not change a type that is known.** -/
theorem typeOf_mono (t : Typing) {levels levels' : Nat} (le : levels ≤ levels') (e : Cursor) :
    (t.typeOf levels e).AtMost (t.typeOf levels' e) := by
  induction levels using Nat.strong_induction_on generalizing levels' e with
  | _ levels ih =>
      rcases levels with _ | levels
      · exact .inl (by rw [typeOf])
      · obtain ⟨levels', rfl⟩ : ∃ more, levels' = more + 1 := ⟨levels' - 1, by omega⟩
        rw [typeOf, typeOf]
        refine t.typeBy_related (fun x => .inr rfl) ?_ ?_ ?_
        · -- No member of an unknown receiver is known.
          rintro x y (rfl | rfl) kind name
          · exact .inl rfl
          · exact .inr rfl
        · intro d _
          exact ih levels (by omega) (by omega) d
        · intro crossed d _
          exact ih (levels - crossed) (by omega) (by omega) d

/-- If enough levels are known for what an expression takes types from, enough are known for the expression. -/
theorem exists_levels (t : Typing) {f : Cursor → StaticType} (mem : e ∈ (Cursor.ofText source).elements)
    (known : ∀ d ∈ (Cursor.ofText source).elements, d.TakesFrom e →
      ∃ n, ∀ levels, n ≤ levels → t.typeOf levels d = f d) :
    ∃ n, ∀ levels, n ≤ levels → t.typeOf levels e = t.typeBy f (fun _ => f) e := by
  have inner : ∃ n, ∀ d, e.operand? = some d → ∀ levels, n ≤ levels → t.typeOf levels d = f d := by
    rcases operand : e.operand? with _ | d
    · exact ⟨0, fun d none => by cases none⟩
    · have inFile := Cursor.mem_elements_trans (Cursor.smaller_of_operand? operand).1 mem
      obtain ⟨n, enough⟩ := known d inFile (.inl operand)
      exact ⟨n, fun d' same => by rwa [← Option.some.inj same]⟩
  have outer : ∃ n, ∀ crossed d, e.assignedFrom? = some (crossed, d) →
      ∀ levels, n ≤ levels → t.typeOf (levels - crossed) d = f d := by
    rcases assigned : e.assignedFrom? with _ | ⟨crossed, d⟩
    · exact ⟨0, fun crossed d none => by cases none⟩
    · obtain ⟨-, inFile, -⟩ := Cursor.stop_le_of_assignedFrom? mem assigned
      obtain ⟨n, enough⟩ := known d inFile (.inr ⟨crossed, assigned⟩)
      refine ⟨n + crossed, fun crossed' d' same levels le => ?_⟩
      obtain ⟨rfl, rfl⟩ := Prod.mk.inj (Option.some.inj same)
      exact enough _ (by omega)
  obtain ⟨n, inner⟩ := inner
  obtain ⟨m, outer⟩ := outer
  -- One level is used up here, and the levels that are enough for both are enough for each.
  refine ⟨n + m + 1, fun levels le => ?_⟩
  obtain ⟨levels, rfl⟩ : ∃ more, levels = more + 1 := ⟨levels - 1, by omega⟩
  rw [typeOf]
  exact t.typeBy_congr (fun d operand => inner d operand _ (by omega))
    fun crossed d assigned => outer crossed d assigned _ (by omega)

/-- With enough levels the type of an expression no longer depends on their number. -/
theorem exists_settled (t : Typing) (mem : e ∈ (Cursor.ofText source).elements) :
    ∃ x n, ∀ levels, n ≤ levels → t.typeOf levels e = x := by
  induction Cursor.acc_takesFrom mem with
  | intro e _ ih =>
      have known : ∀ d, ∃ x, d ∈ (Cursor.ofText source).elements → d.TakesFrom e →
          ∃ n, ∀ levels, n ≤ levels → t.typeOf levels d = x := by
        intro d
        by_cases needed : d ∈ (Cursor.ofText source).elements ∧ d.TakesFrom e
        · obtain ⟨x, enough⟩ := ih d needed.2 needed.1
          exact ⟨x, fun _ _ => enough⟩
        · exact ⟨.unknown, fun inFile takes => absurd ⟨inFile, takes⟩ needed⟩
      choose f known using known
      exact ⟨_, t.exists_levels mem known⟩

/-- **There are types without any count of levels**: the type of each expression is told by the types of other
expressions, and it is the one that is found with enough levels. -/
theorem exists_unlimited (t : Typing) (source : Text) :
    ∃ f : Cursor → StaticType, ∀ e ∈ (Cursor.ofText source).elements,
      f e = t.typeBy f (fun _ => f) e ∧ ∃ n, ∀ levels, n ≤ levels → t.typeOf levels e = f e := by
  have known : ∀ e, ∃ x, e ∈ (Cursor.ofText source).elements → ∃ n, ∀ levels, n ≤ levels → t.typeOf levels e = x := by
    intro e
    by_cases mem : e ∈ (Cursor.ofText source).elements
    · obtain ⟨x, enough⟩ := t.exists_settled mem
      exact ⟨x, fun _ => enough⟩
    · exact ⟨.unknown, fun inFile => absurd inFile mem⟩
  choose f known using known
  refine ⟨f, fun e mem => ⟨?_, known e mem⟩⟩
  obtain ⟨n, enough⟩ := known e mem
  obtain ⟨m, told⟩ := t.exists_levels mem fun d inFile _ => known d inFile
  calc f e = t.typeOf (n + m) e := (enough _ (by omega)).symm
    _ = t.typeBy f (fun _ => f) e := told _ (by omega)

end Typing

/-! ## (3) The limit on levels -/

/-- **The limit on levels only loses precision, and nothing needs it to end.** For every text, whatever is known
about classes:

* with fewer levels the type of an expression is the same as with more, or it is unknown;
* the type of an expression is told by the types of those that it takes types from;
* these stand in it and are smaller, or it is a variable and they end before it begins;
* so expressions can be followed back only finitely often;
* and there are types without any limit, which are found with enough levels. -/
theorem levels_lose_precision_only (source : Text) (t : Typing) :
    (∀ e levels levels', levels ≤ levels' → t.typeOf levels e = .unknown ∨ t.typeOf levels e = t.typeOf levels' e) ∧
      (∀ e part part' bound bound',
        (∀ d : Cursor, d.TakesFrom e → part d = part' d ∧ ∀ crossed, bound crossed d = bound' crossed d) →
          t.typeBy part bound e = t.typeBy part' bound' e) ∧
      (∀ e ∈ (Cursor.ofText source).elements, ∀ d : Cursor, d.TakesFrom e →
        d ∈ e.elements ∧ sizeOf d.tree < sizeOf e.tree ∨
          e.kind = .variableExpr ∧ d ∈ (Cursor.ofText source).elements ∧ d.stop ≤ e.start) ∧
      (∀ e ∈ (Cursor.ofText source).elements, Acc Cursor.TakesFrom e) ∧
      ∃ f : Cursor → StaticType, ∀ e ∈ (Cursor.ofText source).elements,
        f e = t.typeBy f (fun _ => f) e ∧ ∃ n, ∀ levels, n ≤ levels → t.typeOf levels e = f e := by
  refine ⟨fun e levels levels' le => t.typeOf_mono le e, ?_, ?_, fun e mem => Cursor.acc_takesFrom mem,
    t.exists_unlimited source⟩
  · intro e part part' bound bound' same
    exact t.typeBy_congr (fun d operand => (same d (.inl operand)).1)
      fun crossed d assigned => (same d (.inr ⟨crossed, assigned⟩)).2 crossed
  · intro e mem d takes
    rcases takes with operand | ⟨crossed, assigned⟩
    · exact .inl (Cursor.smaller_of_operand? operand)
    · exact .inr (Cursor.stop_le_of_assignedFrom? mem assigned)

/-- A variable with a value from another variable. -/
def passedOn : Text := "<?php $a = new A; $b = $a; $b->f();".toList

/-- Its type is found within five levels, and so within any greater number, but not within four. -/
theorem levels_lose_precision_only_passedOn :
    ∃ use ∈ (Cursor.ofText passedOn).descendants, use.isVariable ['b'] = true ∧ use.start = 27 ∧
      ((SourceFile.ofText passedOn).typing .empty).typeOf 4 use = .unknown ∧
        ∀ levels, 5 ≤ levels → ((SourceFile.ofText passedOn).typing .empty).typeOf levels use = .object ⟨['A']⟩ := by
  obtain ⟨use, mem, isUse, begins, four, five⟩ :
      ∃ use ∈ (Cursor.ofText passedOn).descendants, use.isVariable ['b'] = true ∧ use.start = 27 ∧
        ((SourceFile.ofText passedOn).typing .empty).typeOf 4 use = .unknown ∧
          ((SourceFile.ofText passedOn).typing .empty).typeOf 5 use = .object ⟨['A']⟩ := by
    decide +kernel
  refine ⟨use, mem, isUse, begins, four, fun levels le => ?_⟩
  rcases (levels_lose_precision_only passedOn ((SourceFile.ofText passedOn).typing .empty)).1 use 5 levels le with
    nothing | same
  · rw [five] at nothing
    cases nothing
  · rw [← same, five]

end PhpMembers
