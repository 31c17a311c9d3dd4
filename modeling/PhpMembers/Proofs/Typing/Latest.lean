import PhpMembers.Proofs.Search.Names
import PhpMembers.Proofs.Syntax.Applied
import PhpMembers.Proofs.Typing.Scopes
import PhpMembers.Typing.Inference
import PhpMembers.Workspace.SourceFile

/-! # The latest binding of a variable

A variable has the type of what was stored in it last. Among the assignments of a scope that are over at some
offset and the handlers that have begun there, the one furthest to the right is in effect. Only if there is none
does a parameter count, and after that the scope around a function that sees it.

* `Cursor.Assigns`, `Cursor.Catches`, `Cursor.Binds` : what binds a variable.
* `Cursor.Latest`, `Cursor.Unbound` : the binding in effect.
* `Cursor.latest_of_latestBinding?` : what is looked up is the latest binding.
* `Typing.VariableType`, `latest_binding_wins` : the type of a variable. -/

namespace PhpMembers

namespace Cursor

variable {source name : Text} {c d scope : Cursor} {offset : Nat}

/-! ## (1) Bindings -/

/-- `c.Assigns name`: an assignment with `=`, and the variable stands in front of the token. -/
def Assigns (c : Cursor) (name : Text) : Prop :=
  c.kind = .assignExpr ∧ ∃ eq ∈ c.token? .eq, ∃ target ∈ c.nodes,
    target.isVariable name = true ∧ target.stop ≤ eq.start

/-- The value of an assignment: the first expression behind the token. -/
def value? (c : Cursor) : Option Cursor :=
  (c.token? .eq).bind fun eq => c.expressions.find? fun part => eq.stop ≤ part.start

/-- `c.Catches name`: a handler that stores what it catches in the variable. -/
def Catches (c : Cursor) (name : Text) : Prop := c.kind = .catchClause ∧ c.plainVariable? = some name

/-- `c.Binds name`: an assignment to the variable or a handler that stores in it. -/
def Binds (c : Cursor) (name : Text) : Prop := c.Assigns name ∨ c.Catches name

/-- Where a binding takes effect: a handler where it begins, an assignment where it ends. -/
def effect (c : Cursor) : Nat := if c.kind = .catchClause then c.start else c.stop

/-- `c.Untargeted name`: a damaged assignment with nothing in front of its token and the variable as its value. -/
def Untargeted (c : Cursor) (name : Text) : Prop :=
  c.kind = .assignExpr ∧ ∃ eq ∈ c.token? .eq, (∀ part ∈ c.expressions, eq.stop ≤ part.start) ∧
    ∃ value ∈ c.value?, value.isVariable name = true

instance (c : Cursor) (name : Text) : Decidable (c.Assigns name) :=
  inferInstanceAs (Decidable (_ ∧ ∃ eq ∈ c.token? .eq, ∃ target ∈ c.nodes, _ ∧ _))

instance (c : Cursor) (name : Text) : Decidable (c.Catches name) :=
  inferInstanceAs (Decidable (_ ∧ _))

instance (c : Cursor) (name : Text) : Decidable (c.Binds name) :=
  inferInstanceAs (Decidable (_ ∨ _))

instance (c : Cursor) (name : Text) : Decidable (c.Untargeted name) :=
  inferInstanceAs (Decidable (_ ∧ ∃ eq ∈ c.token? .eq, (∀ part ∈ c.expressions, _) ∧ ∃ value ∈ c.value?, _))

/-- What is read as the target of an assignment: its first expression. -/
theorem assignsTo_iff : c.assignsTo name = true ↔
    c.kind = .assignExpr ∧ ∃ target, c.firstExpression? = some target ∧ target.isVariable name = true := by
  rw [assignsTo, Bool.and_eq_true, beq_iff_eq]
  cases c.firstExpression? with
  | none => simp
  | some target => simp

/-- A variable is an expression. -/
theorem isExpression_of_isVariable (isUse : c.isVariable name = true) : c.kind.isExpression = true := by
  rw [isVariable, Bool.and_eq_true, beq_iff_eq] at isUse
  rw [isUse.1]
  rfl

/-- An assignment takes effect where it ends. -/
theorem effect_of_kind_assignExpr (kind : c.kind = .assignExpr) : c.effect = c.stop := by
  rw [effect, if_neg (by rw [kind]; decide)]

/-- A handler takes effect where it begins. -/
theorem effect_of_kind_catchClause (kind : c.kind = .catchClause) : c.effect = c.start := by
  rw [effect, if_pos kind]

/-! ## (2) What is looked for in a node -/

/-- The sides of the token of an assignment. -/
theorem sides_of_assignment (mem : c ∈ (ofText source).descendants) (isAssignment : c.kind = .assignExpr)
    {eq : Cursor} (found : c.token? .eq = some eq) :
    eq.isLeaf = true ∧ ∃ front behind, Sides c eq front behind := by
  have inTokens := List.mem_of_find?_eq_some found
  have kind : eq.kind = .eq := by simpa using List.find?_some found
  refine ⟨(List.mem_filter.mp inTokens).2, sides_of_operator mem inTokens ?_ (by rw [kind]; rfl)⟩
  rw [isAssignment, kind]
  decide

/-- **The value is the first expression behind the token**: what stands in front is passed over. -/
theorem value?_eq (mem : c ∈ (ofText source).descendants) {eq : Cursor} {front behind : List Cursor}
    (found : c.token? .eq = some eq) (sides : Sides c eq front behind) :
    c.value? = (behind.filter (·.tree.isExpression)).head? := by
  have inElements := (List.mem_filter.mp mem).1
  obtain ⟨inChildren, leaf⟩ := List.mem_filter.mp (List.mem_of_find?_eq_some found)
  have filled := start_lt_stop_of_isLeaf (children_subset_elements inElements inChildren) leaf
  -- The token has a text, so an expression in front of it begins before the token ends.
  have inFront : (front.filter (·.tree.isExpression)).find? (fun part => eq.stop ≤ part.start) = none := by
    refine List.find?_eq_none.mpr fun part mem => ?_
    have here := (List.mem_filter.mp mem).1
    have ends := sides.apart.1 part here
    have inParts : part ∈ c.children := by
      rw [sides.parts]
      exact List.mem_append_left _ here
    have placed := stop_of_mem_elements (children_subset_elements inElements inParts)
    rw [decide_eq_true_eq]
    omega
  have inBehind : (behind.filter (·.tree.isExpression)).find? (fun part => eq.stop ≤ part.start) =
      (behind.filter (·.tree.isExpression)).head? := by
    cases parts : behind.filter (·.tree.isExpression) with
    | nil => rfl
    | cons first others =>
        have first := sides.apart.2 first (List.mem_of_mem_filter (by rw [parts]; exact List.mem_cons_self))
        rw [List.find?_cons_of_pos (by simpa using first), List.head?_cons]
  rw [value?, found, Option.bind_some, sides.expressions_eq leaf, List.find?_append, inFront, Option.none_or, inBehind]

/-- What stands in front of the token is read as the target, and the value is behind it. -/
theorem assigned?_eq (mem : c ∈ (ofText source).descendants) (assigns : c.Assigns name) :
    c.assignsTo name = true ∧ c.isPlainAssignment = true ∧ c.assigned? = c.value? := by
  obtain ⟨isAssignment, eq, inToken, target, inNodes, isUse, before⟩ := assigns
  have found : c.token? .eq = some eq := inToken
  obtain ⟨leaf, front, behind, sides⟩ := sides_of_assignment mem isAssignment found
  obtain ⟨inChildren, isNode⟩ := List.mem_filter.mp inNodes
  have expression : target.tree.isExpression = true := by
    rw [isExpression_tree, isExpression_of_isVariable isUse, Bool.and_true]
    exact isNode
  have node : target.isLeaf = false := by simpa using isNode
  have inFront := sides.mem_front leaf (List.mem_filter.mp mem).1 inChildren node before
  refine ⟨assignsTo_iff.mpr ⟨isAssignment, target, sides.firstExpression? leaf inFront expression, isUse⟩, ?_, ?_⟩
  · rw [isPlainAssignment, hasToken, List.any_eq_true]
    exact ⟨eq, List.mem_of_find?_eq_some found, by simpa using List.find?_some found⟩
  · rw [value?_eq mem found sides, assigned?, sides.expressions_eq leaf]
    obtain ⟨only, alone⟩ : ∃ only, front.filter (·.tree.isExpression) = [only] := by
      refine List.length_eq_one_iff.mp (Nat.le_antisymm sides.few ?_)
      exact List.length_pos_of_mem (List.mem_filter.mpr ⟨inFront, expression⟩)
    rw [alone, List.singleton_append, List.getElem?_cons_succ, List.head?_eq_getElem?]

/-- What has parts is a node. -/
theorem mem_descendants_of_mem_children (mem : c ∈ (ofText source).elements) (part : d ∈ c.children) :
    c ∈ (ofText source).descendants := by
  refine List.mem_filter.mpr ⟨mem, ?_⟩
  cases leaf : c.isLeaf with
  | false => rfl
  | true =>
      rw [children_of_isLeaf leaf] at part
      cases part

/-- What has a token is a node. -/
theorem mem_descendants_of_token? (mem : c ∈ (ofText source).elements) {kind : Kind}
    (found : c.token? kind = some d) : c ∈ (ofText source).descendants :=
  mem_descendants_of_mem_children mem (List.mem_filter.mp (List.mem_of_find?_eq_some found)).1

/-- **What is read as the target is one**, unless the assignment is damaged and its value is the variable. -/
theorem assigns_of_assignsTo (mem : c ∈ (ofText source).elements) (reads : c.assignsTo name = true)
    (plain : c.isPlainAssignment = true) (targeted : ¬c.Untargeted name) : c.Assigns name := by
  obtain ⟨isAssignment, target, first, isUse⟩ := assignsTo_iff.mp reads
  obtain ⟨eq, found⟩ : ∃ eq, c.token? .eq = some eq := by
    obtain ⟨eq, inTokens, isEq⟩ := List.any_eq_true.mp plain
    exact Option.isSome_iff_exists.mp (List.find?_isSome.mpr ⟨eq, inTokens, isEq⟩)
  by_cases lost : ∀ part ∈ c.expressions, eq.stop ≤ part.start
  · -- Nothing stands in front, so the value has been taken for the target.
    rw [firstExpression?_eq] at first
    obtain ⟨others, all⟩ : ∃ others, c.expressions = target :: others := List.head?_eq_some_iff.mp first
    have value : c.value? = some target := by
      rw [value?, found, Option.bind_some, all]
      exact List.find?_cons_of_pos (by simpa using lost target (by rw [all]; exact List.mem_cons_self))
    exact absurd ⟨isAssignment, eq, found, lost, target, value, isUse⟩ targeted
  · obtain ⟨leaf, front, behind, sides⟩ :=
      sides_of_assignment (mem_descendants_of_token? mem found) isAssignment found
    obtain ⟨inNodes, before⟩ := sides.stop_le_of_firstExpression? leaf first lost
    exact ⟨isAssignment, eq, found, target, inNodes, isUse, before⟩

/-- **What is looked for is what binds the variable.** -/
theorem binds_of_nodeBinding? (mem : c ∈ (ofText source).elements) {position : Nat} {binding : Binding}
    (found : c.nodeBinding? name offset = some (position, binding))
    (targeted : c.stop ≤ offset → ¬c.Untargeted name) :
    c.effect ≤ offset ∧ position = c.effect ∧
      (c.Assigns name ∧ binding = .assignment c ∨ c.Catches name ∧ binding = .handler c) := by
  rw [nodeBinding?] at found
  split at found
  · rename_i kind
    obtain ⟨test, same⟩ := Option.ite_none_right_eq_some.mp found
    obtain ⟨rfl, rfl⟩ := Prod.mk.inj (Option.some.inj same)
    rw [Bool.and_eq_true, Bool.and_eq_true, decide_eq_true_eq] at test
    obtain ⟨⟨reads, plain⟩, le⟩ := test
    have effect := effect_of_kind_assignExpr kind
    exact ⟨by rw [effect]; exact le, effect.symm, .inl ⟨assigns_of_assignsTo mem reads plain (targeted le), rfl⟩⟩
  · rename_i kind
    obtain ⟨test, same⟩ := Option.ite_none_right_eq_some.mp found
    obtain ⟨rfl, rfl⟩ := Prod.mk.inj (Option.some.inj same)
    rw [Bool.and_eq_true, decide_eq_true_eq, beq_iff_eq] at test
    have effect := effect_of_kind_catchClause kind
    exact ⟨by rw [effect]; exact test.2, effect.symm, .inr ⟨⟨kind, test.1⟩, rfl⟩⟩
  · cases found

/-- Nothing that binds the variable is passed over. -/
theorem nodeBinding?_of_binds (mem : c ∈ (ofText source).elements) (binds : c.Binds name)
    (inEffect : c.effect ≤ offset) : ∃ binding, c.nodeBinding? name offset = some (c.effect, binding) := by
  rw [nodeBinding?]
  rcases binds with assigns | ⟨kind, stores⟩
  · have kind := assigns.1
    obtain ⟨eq, found, -⟩ := assigns.2
    obtain ⟨reads, plain, -⟩ := assigned?_eq (mem_descendants_of_token? mem found) assigns
    rw [effect_of_kind_assignExpr kind] at inEffect ⊢
    rw [kind, reads, plain, decide_eq_true inEffect]
    exact ⟨_, rfl⟩
  · rw [effect_of_kind_catchClause kind] at inEffect ⊢
    rw [kind, stores, beq_self_eq_true, decide_eq_true inEffect]
    exact ⟨_, rfl⟩

/-! ## (3) The binding in effect -/

/-- The binding that takes effect last up to an offset; of several at the same place it is the last one from
left to right. -/
structure Latest (scope : Cursor) (name : Text) (offset : Nat) (c : Cursor) : Prop where
  /-- It belongs to the scope. -/
  belongs : c.BelongsTo scope
  /-- It is in effect at the offset. -/
  inEffect : c.effect ≤ offset
  /-- No binding in front of it takes effect later, and none behind it takes effect as late. -/
  last : ∃ before after, scope.elements = before ++ c :: after ∧
    (∀ d ∈ before, d.BelongsTo scope → d.Binds name → d.effect ≤ offset → d.effect ≤ c.effect) ∧
    ∀ d ∈ after, d.BelongsTo scope → d.Binds name → d.effect ≤ offset → d.effect < c.effect

/-- No binding of the scope is in effect at the offset. -/
def Unbound (scope : Cursor) (name : Text) (offset : Nat) : Prop :=
  ∀ c : Cursor, c.BelongsTo scope → c.Binds name → offset < c.effect

end Cursor

/-- Only of nothing is nothing the greatest. -/
theorem eq_nil_of_lastGreatest? {α : Type} {all : List (Nat × α)} (none : lastGreatest? all = none) : all = [] := by
  cases all with
  | nil => rfl
  | cons x rest =>
      rw [lastGreatest?] at none
      cases later : lastGreatest? rest with
      | none => simp [later] at none
      | some y =>
          simp only [later] at none
          split at none <;> cases none

/-- What is greatest is greater than all behind it and not smaller than any in front of it. -/
theorem exists_split_of_lastGreatest? {α : Type} {all : List (Nat × α)} {x : Nat × α}
    (found : lastGreatest? all = some x) :
    ∃ before after, all = before ++ x :: after ∧ (∀ y ∈ before, y.1 ≤ x.1) ∧ ∀ y ∈ after, y.1 < x.1 := by
  induction all generalizing x with
  | nil => cases found
  | cons first rest ih =>
      rw [lastGreatest?] at found
      cases later : lastGreatest? rest with
      | none =>
          have empty := eq_nil_of_lastGreatest? later
          rw [later] at found
          obtain rfl := Option.some.inj found
          exact ⟨[], [], by rw [empty, List.nil_append], List.forall_mem_nil _, List.forall_mem_nil _⟩
      | some y =>
          obtain ⟨before, after, split, front, behind⟩ := ih later
          simp only [later] at found
          -- The first pair wins only if it is greater than the greatest of the others.
          split at found
          · rename_i le
            obtain rfl := Option.some.inj found
            exact ⟨first :: before, after, by rw [split, List.cons_append],
              List.forall_mem_cons.mpr ⟨le, front⟩, behind⟩
          · rename_i lt
            obtain rfl := Option.some.inj found
            refine ⟨[], rest, rfl, List.forall_mem_nil _, fun z mem => ?_⟩
            rw [split] at mem
            rcases List.mem_append.mp mem with inFront | there
            · exact Nat.lt_of_le_of_lt (front z inFront) (Nat.lt_of_not_le lt)
            rcases List.mem_cons.mp there with rfl | inBehind
            · exact Nat.lt_of_not_le lt
            · exact (behind z inBehind).trans (Nat.lt_of_not_le lt)

namespace Cursor

open scoped Classical in
/-- Without documentation in front of the offset only assignments and handlers bind. -/
theorem bindings_eq (undocumented : ∀ d ∈ scope.leaves, d.kind = .docComment → offset < d.stop) :
    PhpMembers.bindings scope name offset = scope.elements.filterMap fun c =>
      if c.BelongsTo scope then c.nodeBinding? name offset else none := by
  have noComment : scope.withinScope.filterMap (·.commentBinding? name offset) = [] := by
    refine List.filterMap_eq_nil_iff.mpr fun d mem => if_neg fun test => ?_
    rw [Bool.and_eq_true, Bool.and_eq_true, decide_eq_true_eq, beq_iff_eq] at test
    obtain ⟨⟨leaf, isComment⟩, le⟩ := test
    rw [withinScope_eq] at mem
    have later := undocumented d (List.mem_filter.mpr ⟨List.mem_of_mem_filter mem, leaf⟩) isComment
    omega
  rw [PhpMembers.bindings, noComment, List.append_nil, withinScope_eq, List.filterMap_filter]
  simp only [decide_eq_true_eq]

/-- **What is looked up in a scope is the latest binding**, if there is one. -/
theorem latest_of_latestBinding? (inFile : scope ∈ (ofText source).elements)
    (undocumented : ∀ d ∈ scope.leaves, d.kind = .docComment → offset < d.stop)
    (targeted : ∀ c : Cursor, c.BelongsTo scope → c.stop ≤ offset → ¬c.Untargeted name) :
    match latestBinding? scope name offset with
    | none => scope.Unbound name offset
    | some binding => ∃ c, scope.Latest name offset c ∧
        (c.Assigns name ∧ binding = .assignment c ∨ c.Catches name ∧ binding = .handler c) := by
  classical
  have file {c : Cursor} (belongs : c.BelongsTo scope) : c ∈ (ofText source).elements :=
    mem_elements_trans belongs.1 inFile
  -- Whatever binds is among the pairs that are compared.
  have listed {c : Cursor} {cs : List Cursor} (mem : c ∈ cs) (belongs : c.BelongsTo scope) (binds : c.Binds name)
      (inEffect : c.effect ≤ offset) : ∃ binding, (c.effect, binding) ∈ cs.filterMap fun c =>
        if c.BelongsTo scope then c.nodeBinding? name offset else none := by
    obtain ⟨binding, found⟩ := nodeBinding?_of_binds (file belongs) binds inEffect
    exact ⟨binding, List.mem_filterMap.mpr ⟨c, mem, by rw [if_pos belongs, found]⟩⟩
  rw [latestBinding?, bindings_eq undocumented]
  cases greatest : lastGreatest? (scope.elements.filterMap fun c =>
      if c.BelongsTo scope then c.nodeBinding? name offset else none) with
  | none =>
      intro c belongs binds
      refine Nat.lt_of_not_le fun inEffect => ?_
      obtain ⟨binding, mem⟩ := listed belongs.1 belongs binds inEffect
      rw [eq_nil_of_lastGreatest? greatest] at mem
      cases mem
  | some x =>
      obtain ⟨lower, higher, all, front, behind⟩ := exists_split_of_lastGreatest? greatest
      obtain ⟨before, rest, split, lowers, others⟩ := List.filterMap_eq_append_iff.mp all
      obtain ⟨between, c, after, rfl, none, found, highers⟩ := List.filterMap_eq_cons_iff.mp others
      obtain ⟨belongs, found⟩ := Option.ite_none_right_eq_some.mp found
      obtain ⟨inEffect, position, same⟩ :=
        binds_of_nodeBinding? (file belongs) found fun le => targeted c belongs le
      refine ⟨c, ⟨belongs, inEffect, before ++ between, after, ?_, ?_, ?_⟩, same⟩
      · rw [split, List.append_assoc]
      · intro d mem belongs binds inEffect
        rcases List.mem_append.mp mem with inBefore | inBetween
        · obtain ⟨binding, inLower⟩ := listed inBefore belongs binds inEffect
          rw [lowers] at inLower
          rw [← position]
          exact front _ inLower
        · obtain ⟨binding, found⟩ := nodeBinding?_of_binds (file belongs) binds inEffect
          have nothing := none d inBetween
          rw [if_pos belongs, found] at nothing
          cases nothing
      · intro d mem belongs binds inEffect
        obtain ⟨binding, inHigher⟩ := listed mem belongs binds inEffect
        rw [highers] at inHigher
        rw [← position]
        exact behind _ inHigher

end Cursor

/-! ## (4) The type of a variable -/

namespace Typing

variable {source name : Text} {scope viewer use c : Cursor} {offset levels : Nat}

/-- The type of what a handler catches: that of its only alternative besides `null`. -/
def caughtType (t : Typing) (clause : Cursor) : StaticType :=
  match clause.typeHint? with
  | some hint => (DeclaredType.ofHint t.regions hint).type
  | none => .unknown

/-- The type that a binding gives. -/
def bindingType (t : Typing) (levels : Nat) (found : Resolution) : StaticType :=
  match found.binding with
  | .assignment node => t.typeOf (levels - found.crossed) node
  | .handler clause => t.caughtType clause
  | .documented type offset =>
    (DeclaredType.ofText t.regions type offset (t.regions.enclosingClass? found.viewer)).type
  | .parameter function param => t.paramType function param

/-- The type that a variable has at an offset, seen from a place. -/
def variableType (t : Typing) (levels : Nat) (viewer : Cursor) (name : Text) (offset : Nat) : StaticType :=
  ((bindingAmong? name viewer.scopes viewer offset 0).map (t.bindingType levels)).getD .unknown

/-- The type of a use of a variable is that which the variable has where the use begins. -/
theorem typeOf_use (t : Typing) (levels : Nat) (isUse : use.isVariable name = true) (other : name ≠ thisWord) :
    t.typeOf (levels + 1) use = t.variableType levels use name use.start := by
  rw [Cursor.isVariable, Bool.and_eq_true, beq_iff_eq, beq_iff_eq] at isUse
  rw [typeOf, typeBy, isUse.1, isUse.2]
  simp only [if_neg other]
  rw [variableType, Cursor.resolveVariable?]
  cases bindingAmong? name use.scopes use use.start 0 with
  | none => rfl
  | some found =>
      obtain ⟨binding, viewer, crossed⟩ := found
      cases binding <;> rfl

/-- The type of an assignment is that of its value. -/
theorem typeOf_assignment (t : Typing) (levels : Nat) (mem : c ∈ (Cursor.ofText source).elements)
    (assigns : c.Assigns name) : t.typeOf levels c = (c.value?.map (t.typeOf (levels - 1))).getD .unknown := by
  obtain ⟨eq, found, -⟩ := assigns.2
  obtain ⟨-, plain, value⟩ := Cursor.assigned?_eq (Cursor.mem_descendants_of_token? mem found) assigns
  rw [← value]
  cases levels with
  | zero =>
      rw [typeOf]
      cases c.assigned? with
      | none => rfl
      | some value => rw [Option.map_some, Option.getD_some, typeOf]
  | succ levels =>
      rw [typeOf, typeBy, assigns.1]
      simp only [plain, if_true]
      cases c.assigned? <;> rfl

/-- A binding that is seen through one more function is used up one level earlier. -/
theorem bindingAmong?_succ (name : Text) (scopes : List Cursor) (viewer : Cursor) (offset crossed : Nat) :
    bindingAmong? name scopes viewer offset (crossed + 1) =
      (bindingAmong? name scopes viewer offset crossed).map
        fun found => { found with crossed := found.crossed + 1 } := by
  -- The number of functions that have been left is only passed on.
  induction scopes generalizing viewer offset crossed with
  | nil => rfl
  | cons scope outer ih =>
      rw [bindingAmong?, bindingAmong?]
      cases latestBinding? scope name offset with
      | some binding => rfl
      | none =>
          simp only
          split
          · rfl
          cases scope.paramNamed? name with
          | some param => rfl
          | none =>
              cases scope.parent? with
              | none => rfl
              | some parent =>
                  simp only
                  split
                  · exact ih parent scope.start (crossed + 1)
                  · rfl

/-- Through one more function there is one level less. -/
theorem bindingType_succ (t : Typing) (levels : Nat) (found : Resolution) :
    t.bindingType levels { found with crossed := found.crossed + 1 } = t.bindingType (levels - 1) found := by
  obtain ⟨binding, viewer, crossed⟩ := found
  cases binding with
  | assignment node => simp only [bindingType, Nat.sub_add_eq, Nat.sub_right_comm]
  | handler clause => rfl
  | documented type offset => rfl
  | parameter function param => rfl

/-- What is looked up around a function has the type that it has there, with one level less. -/
theorem variableType_around (t : Typing) (levels : Nat) (parent : Cursor) (name : Text) (offset : Nat) :
    ((bindingAmong? name parent.scopes parent offset 1).map (t.bindingType levels)).getD .unknown =
      t.variableType (levels - 1) parent name offset := by
  have same : t.bindingType levels ∘ (fun found => { found with crossed := found.crossed + 1 }) =
      t.bindingType (levels - 1) := by
    funext found
    exact t.bindingType_succ levels found
  rw [bindingAmong?_succ, Option.map_map, same, variableType]

/-- The type that a variable has at an offset of a scope, by the ways in which it can get one. -/
inductive VariableType (t : Typing) (levels : Nat) (scope : Cursor) (name : Text) (offset : Nat) :
    StaticType → Prop
  /-- The latest binding is an assignment: the type of its value. -/
  | assigned {c : Cursor} (latest : scope.Latest name offset c) (assigns : c.Assigns name) :
      VariableType t levels scope name offset ((c.value?.map (t.typeOf (levels - 1))).getD .unknown)
  /-- The latest binding is a handler: the type of what it catches. -/
  | caught {c : Cursor} (latest : scope.Latest name offset c) (catches : c.Catches name) :
      VariableType t levels scope name offset (t.caughtType c)
  /-- Nothing binds the variable, and it is a parameter: the declared type of the parameter. -/
  | declared (unbound : scope.Unbound name offset) (function : scope.kind.isFunctionLike = true) {param : Cursor}
      (found : scope.paramNamed? name = some param) :
      VariableType t levels scope name offset (t.paramType scope param)
  /-- Nothing binds the variable, and the function sees that of the scope around it: the type that it has
  there where the function begins. -/
  | inherited (unbound : scope.Unbound name offset) (none : scope.paramNamed? name = none)
      (inherits : scope.kind = .arrowFnExpr ∨ scope.kind = .closureExpr ∧ name ∈ scope.usedVariables)
      {parent : Cursor} (around : scope.parent? = some parent) :
      VariableType t levels scope name offset (t.variableType (levels - 1) parent name scope.start)
  /-- Otherwise nothing is known. -/
  | unknown (unbound : scope.Unbound name offset)
      (none : scope.kind.isFunctionLike = true → scope.paramNamed? name = none)
      (closed : ¬(scope.kind = .arrowFnExpr ∨ scope.kind = .closureExpr ∧ name ∈ scope.usedVariables)) :
      VariableType t levels scope name offset .unknown

/-- A function sees a variable around it if it is an arrow function, or a closure that lists the variable. -/
theorem inherits_iff : scope.inherits name = true ↔
    scope.kind = .arrowFnExpr ∨ scope.kind = .closureExpr ∧ name ∈ scope.usedVariables := by
  rw [Cursor.inherits]
  split
  · rename_i kind
    simp [kind]
  · rename_i kind
    simp [kind]
  · rename_i notArrow notClosure
    refine iff_of_false Bool.false_ne_true ?_
    rintro (arrow | ⟨closure, -⟩)
    · exact notArrow arrow
    · exact notClosure closure

/-- **Where nothing binds it, a variable is a parameter** or it is looked up around the function. -/
theorem variableType_unbound (t : Typing) (levels : Nat) (inFile : scope ∈ (Cursor.ofText source).elements)
    (around : scope.IsScopeOf viewer) (none : latestBinding? scope name offset = none)
    (unbound : scope.Unbound name offset) :
    t.VariableType levels scope name offset (t.variableType levels viewer name offset) := by
  rw [variableType, Cursor.scopes_eq around, bindingAmong?, none]
  cases function : scope.kind.isFunctionLike with
  | false =>
      refine .unknown unbound (fun isFunction => absurd isFunction (by rw [function]; decide)) ?_
      rintro (arrow | ⟨closure, -⟩)
      · rw [arrow] at function
        cases function
      · rw [closure] at function
        cases function
  | true =>
      cases named : scope.paramNamed? name with
      | some param => exact .declared unbound function named
      | none =>
          -- A function is not the whole file, so something is around it.
          obtain ⟨parent, parents⟩ : ∃ parent, scope.parent? = some parent := by
            have notFile : scope ≠ Cursor.ofText source := by
              rintro rfl
              cases function
            obtain ⟨parent, -, part⟩ := Cursor.exists_parent_of_mem_elements inFile notFile
            exact ⟨parent, Cursor.parent?_of_mem_children part⟩
          rw [parents]
          cases seen : scope.inherits name with
          | false =>
              refine .unknown unbound (fun _ => named) fun sees => ?_
              rw [inherits_iff.mpr sees] at seen
              cases seen
          | true =>
              have type : t.VariableType levels scope name offset
                  (t.variableType (levels - 1) parent name scope.start) :=
                .inherited unbound named (inherits_iff.mp seen) parents
              rw [← t.variableType_around] at type
              exact type

/-- **The type of a variable**, seen from any place of a scope. -/
theorem variableType_law (t : Typing) (levels : Nat) (mem : viewer ∈ (Cursor.ofText source).elements)
    (around : scope.IsScopeOf viewer) (undocumented : ∀ d ∈ scope.leaves, d.kind = .docComment → offset < d.stop)
    (targeted : ∀ c : Cursor, c.BelongsTo scope → c.stop ≤ offset → ¬c.Untargeted name) :
    t.VariableType levels scope name offset (t.variableType levels viewer name offset) := by
  have inFile := (Cursor.mem_elements_of_isScopeOf mem around).1
  have latest := Cursor.latest_of_latestBinding? inFile undocumented targeted
  cases found : latestBinding? scope name offset with
  | none =>
      rw [found] at latest
      exact t.variableType_unbound levels inFile around found latest
  | some binding =>
      rw [found] at latest
      have type : t.variableType levels viewer name offset = t.bindingType levels ⟨binding, viewer, 0⟩ := by
        rw [variableType, Cursor.scopes_eq around, bindingAmong?, found]
        rfl
      rw [type, bindingType]
      obtain ⟨c, last, ⟨assigns, rfl⟩ | ⟨catches, rfl⟩⟩ := latest
      · have value := t.typeOf_assignment levels (Cursor.mem_elements_trans last.belongs.1 inFile) assigns
        simp only [Nat.sub_zero, value]
        exact .assigned last assigns
      · exact .caught last catches

end Typing

/-! ## (5) Uses of variables -/

/-- **The latest binding of a variable wins.** For every text, damaged or not, and every use of a variable other
than `$this` whose scope has no documentation in front of the use:

* if an assignment to the variable is the binding of the scope that takes effect last, no later than the use, it
  has the type of the assigned value;
* if a handler is, it has the type of what that catches;
* if there is none, it has the type of the parameter with its name, or else, in a function that sees the
  variables around it, the type that the variable has in the scope around the function where the function
  begins;
* otherwise, and where no level is left, its type is unknown.

The scope must not have an assignment over by then that has lost its left side and has the variable as its
value. -/
theorem latest_binding_wins (source : Text) (t : Typing) (levels : Nat) {use scope : Cursor} {name : Text}
    (mem : use ∈ (Cursor.ofText source).descendants) (isUse : use.isVariable name = true) (other : name ≠ thisWord)
    (around : scope.IsScopeOf use) (undocumented : ∀ d ∈ scope.leaves, d.kind = .docComment → use.start < d.stop)
    (targeted : ∀ c : Cursor, c.BelongsTo scope → c.stop ≤ use.start → ¬c.Untargeted name) :
    t.typeOf 0 use = .unknown ∧
      t.VariableType levels scope name use.start (t.typeOf (levels + 1) use) := by
  constructor
  · rw [Typing.typeOf]
  · rw [t.typeOf_use levels isUse other]
    exact t.variableType_law levels (List.mem_of_mem_filter mem) around undocumented targeted

/-- A variable that is assigned to, and stored in by a handler behind that. -/
def caughtAgain : Text := "<?php try \x7b $v = new A; \x7d catch (B $v) \x7b $v->f(); \x7d".toList

/-- In the handler the variable has the type that the handler catches. -/
theorem latest_binding_wins_caughtAgain :
    ∃ use ∈ (Cursor.ofText caughtAgain).descendants, use.isVariable ['v'] = true ∧ use.start = 41 ∧
      ((SourceFile.ofText caughtAgain).typing .empty).VariableType 32 (Cursor.ofText caughtAgain) ['v'] 41
        (((SourceFile.ofText caughtAgain).typing .empty).typeOf typingLevels use) ∧
      ((SourceFile.ofText caughtAgain).typing .empty).typeOf typingLevels use = .object ⟨['B']⟩ := by
  obtain ⟨use, mem, isUse, start, object⟩ : ∃ use ∈ (Cursor.ofText caughtAgain).descendants,
      use.isVariable ['v'] = true ∧ use.start = 41 ∧
        ((SourceFile.ofText caughtAgain).typing .empty).typeOf typingLevels use = .object ⟨['B']⟩ := by decide +kernel
  have noFunction : ∀ x ∈ (Cursor.ofText caughtAgain).elements, x.kind.isFunctionLike = false := by decide +kernel
  have noComment : ∀ d ∈ (Cursor.ofText caughtAgain).leaves, d.kind ≠ .docComment := by decide +kernel
  have noDamage : ∀ c ∈ (Cursor.ofText caughtAgain).elements, ¬c.Untargeted ['v'] := by decide +kernel
  have type := (latest_binding_wins caughtAgain ((SourceFile.ofText caughtAgain).typing .empty) 32 mem isUse
    (by decide) (Cursor.isScopeOf_root (List.mem_of_mem_filter mem) noFunction)
    (fun d mem isComment => absurd isComment (noComment d mem))
    fun c belongs _ => noDamage c belongs.1).2
  rw [start] at type
  exact ⟨use, mem, isUse, start, type, object⟩

/-- An assignment, and a damaged one behind it that only reads the variable. -/
def lostTarget : Text := "<?php $v = new A; . = $v; $v->f();".toList

/-- The damaged assignment is taken for one to the variable, so the type of the first one is lost. -/
theorem lostTarget_hides_assignment :
    ∃ use ∈ (Cursor.ofText lostTarget).descendants, use.isVariable ['v'] = true ∧
      (Cursor.ofText lostTarget).IsScopeOf use ∧ (∀ d ∈ (Cursor.ofText lostTarget).leaves, d.kind ≠ .docComment) ∧
      (∃ c, (Cursor.ofText lostTarget).Latest ['v'] use.start c ∧ c.Assigns ['v'] ∧
        c.value?.map (((SourceFile.ofText lostTarget).typing .empty).typeOf 31) = some (.object ⟨['A']⟩)) ∧
      ((SourceFile.ofText lostTarget).typing .empty).typeOf typingLevels use = .unknown := by
  obtain ⟨use, mem, isUse, start, unknown⟩ : ∃ use ∈ (Cursor.ofText lostTarget).descendants,
      use.isVariable ['v'] = true ∧ use.start = 26 ∧
        ((SourceFile.ofText lostTarget).typing .empty).typeOf typingLevels use = .unknown := by decide +kernel
  have noScope : ∀ x ∈ (Cursor.ofText lostTarget).elements,
      x.kind.isFunctionLike = false ∧ x.kind.opensScope = false := by decide +kernel
  have noComment : ∀ d ∈ (Cursor.ofText lostTarget).leaves, d.kind ≠ .docComment := by decide +kernel
  have alone : ((Cursor.ofText lostTarget).elements.filter fun c => c.Binds ['v']).length = 1 := by decide +kernel
  have assigned : ∀ c ∈ (Cursor.ofText lostTarget).elements.filter fun c => c.Binds ['v'],
      c.effect ≤ 26 ∧ c.Assigns ['v'] ∧
        c.value?.map (((SourceFile.ofText lostTarget).typing .empty).typeOf 31) = some (.object ⟨['A']⟩) := by
    decide +kernel
  obtain ⟨c, only⟩ := List.length_eq_one_iff.mp alone
  have inFilter : c ∈ (Cursor.ofText lostTarget).elements.filter fun c => c.Binds ['v'] := by
    rw [only]
    exact List.mem_singleton_self c
  obtain ⟨inEffect, assigns, type⟩ := assigned c inFilter
  obtain ⟨before, after, all, notBefore, -, notAfter⟩ := List.filter_eq_cons_iff.mp only
  refine ⟨use, mem, isUse, Cursor.isScopeOf_root (List.mem_of_mem_filter mem) fun x mem => (noScope x mem).1,
    noComment, ⟨c, ⟨⟨List.mem_of_mem_filter inFilter, ?_⟩, by rw [start]; exact inEffect, before, after, all, ?_, ?_⟩,
      assigns, type⟩, unknown⟩
  · intro x mem _ opens
    rw [(noScope x mem).2] at opens
    cases opens
  · intro d mem _ binds
    exact absurd binds (by simpa using notBefore d mem)
  · intro d mem _ binds
    exact absurd binds (by simpa using List.filter_eq_nil_iff.mp notAfter d mem)

end PhpMembers
