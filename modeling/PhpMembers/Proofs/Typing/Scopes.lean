import PhpMembers.Proofs.Syntax.Following
import PhpMembers.Typing.Binding

/-! # The scopes of variables

A variable belongs to the innermost function around it or, outside of functions, to the file. To a scope belong
all places below it that no function and no class in between hides.

* `Cursor.elementsWithin_eq_filter` : a walk that does not enter some nodes.
* `Cursor.BelongsTo`, `Cursor.withinScope_eq` : what belongs to a scope.
* `Cursor.IsScopeOf`, `Cursor.scopes_eq` : the scope of a place.
* `bindingAmong?_cases`, `exists_scope_of_bindingAmong?` : where a variable is found. -/

namespace PhpMembers

namespace Cursor

variable {c d scope viewer : Cursor}

/-! ## (1) Walks that do not enter some nodes -/

/-- A node is no element of its parts. -/
theorem notMem_elements_of_mem_children (mem : d ∈ c.children) : c ∉ d.elements := by
  have once := c.nodup_elements
  rw [elements_eq, List.nodup_cons] at once
  exact fun inElements => once.1 (List.mem_flatMap.mpr ⟨d, mem, inElements⟩)

/-- Parts with a common element are the same. -/
theorem eq_of_mem_children_of_mem_elements {part other : Cursor} (isPart : part ∈ c.children)
    (isOther : other ∈ c.children) (inPart : d ∈ part.elements) (inOther : d ∈ other.elements) : part = other := by
  obtain ⟨between, around, -⟩ := exists_ancestors_of_mem_elements inPart
  obtain ⟨between', around', -⟩ := exists_ancestors_of_mem_elements inOther
  rw [ancestors_of_mem_children isPart] at around
  rw [ancestors_of_mem_children isOther] at around'
  have same : (between ++ [part]) ++ c.ancestors = (between' ++ [other]) ++ c.ancestors := by
    rw [List.append_assoc, List.append_assoc, List.singleton_append, List.singleton_append, ← around, ← around']
  exact (List.concat_inj.mp (by simpa using List.append_cancel_right same)).2

/-- `c.Enters enter d`: no node below `c` and around `d` or at it fails the test on its kind. -/
def Enters (c : Cursor) (enter : Kind → Bool) (d : Cursor) : Prop :=
  ∀ x ∈ c.elements, d ∈ x.elements → enter x.kind = false → x = c

/-- What is entered from a part that is entered itself is entered from the node. -/
theorem enters_part_iff {enter : Kind → Bool} {part : Cursor} (isPart : part ∈ c.children)
    (entered : enter part.kind = true) (mem : d ∈ part.elements) : part.Enters enter d ↔ c.Enters enter d := by
  constructor
  · intro inside x inElements contains hides
    rcases mem_elements_iff.mp inElements with rfl | ⟨other, isOther, below⟩
    · rfl
    · obtain rfl := eq_of_mem_children_of_mem_elements isPart isOther mem (mem_elements_trans contains below)
      rw [inside x below contains hides, entered] at hides
      cases hides
  · intro inside x inElements contains hides
    have same := inside x (mem_elements_iff.mpr (.inr ⟨part, isPart, inElements⟩)) contains hides
    rw [same] at inElements
    exact absurd inElements (notMem_elements_of_mem_children isPart)

/-- The walk over consecutive parts. -/
theorem walkAll_eq_flatMap (enter : Kind → Bool) (trees : List Tree) (parent : Cursor) (left : List Tree)
    (start : Nat) :
    walkAll enter trees parent left start = (childrenFrom parent left start trees).flatMap fun d =>
      if enter d.kind then d.elementsWithin enter else [] := by
  induction trees generalizing left start with
  | nil => rw [walkAll, childrenFrom, List.flatMap_nil]
  | cons tree right ih =>
      rw [walkAll, ih, childrenFrom, List.flatMap_cons]
      cases entered : enter tree.kind with
      | true => simp only [Cursor.kind, Cursor.tree, entered, elementsWithin, if_true]
      | false => simp [Cursor.kind, Cursor.tree, entered]

/-- The walk over a node is that over its parts. -/
theorem elementsWithin_eq (c : Cursor) (enter : Kind → Bool) : c.elementsWithin enter =
    c :: c.children.flatMap fun d => if enter d.kind then d.elementsWithin enter else [] := by
  rw [elementsWithin]
  cases tree : c.tree with
  | leaf kind text =>
      have leaf : c.isLeaf = true := by rw [isLeaf, tree, Tree.isLeaf]
      rw [walk, children_of_isLeaf leaf, List.flatMap_nil]
  | node kind parts => rw [walk, walkAll_eq_flatMap, children, tree, Tree.children]

open scoped Classical in
/-- **A walk that does not enter some nodes meets the elements that are entered**, in their order. -/
theorem elementsWithin_eq_filter (c : Cursor) (enter : Kind → Bool) :
    c.elementsWithin enter = c.elements.filter fun d => c.Enters enter d := by
  induction c using inductionOn with
  | step c ih =>
      have itself : c.Enters enter c := by
        intro x inElements contains _
        rcases mem_elements_iff.mp inElements with rfl | ⟨part, isPart, below⟩
        · rfl
        · exact absurd (mem_elements_trans contains below) (notMem_elements_of_mem_children isPart)
      rw [elementsWithin_eq, elements_eq, List.filter_cons_of_pos (by simpa using itself), List.filter_flatMap]
      refine congrArg (c :: ·) (List.flatMap_congr fun part isPart => ?_)
      cases entered : enter part.kind with
      | true =>
          rw [if_pos rfl, ih part isPart]
          exact List.filter_congr fun d mem => decide_eq_decide.mpr (enters_part_iff isPart entered mem)
      -- Below a part that is not entered, the part itself keeps the walk from every element.
      | false =>
          refine (List.filter_eq_nil_iff.mpr fun d mem => ?_).symm
          intro inside
          have same := of_decide_eq_true inside part
            (mem_elements_iff.mpr (.inr ⟨part, isPart, part.self_mem_elements⟩)) mem entered
          have circular := part.self_mem_elements
          rw [same] at circular isPart
          exact notMem_elements_of_mem_children isPart circular

/-! ## (2) What belongs to a scope -/

/-- `c.BelongsTo scope`: a place in the scope, and not in a function or class inside of the scope. -/
def BelongsTo (c scope : Cursor) : Prop :=
  c ∈ scope.elements ∧ ∀ x ∈ scope.elements, c ∈ x.elements → x.kind.opensScope = true → x = scope

open scoped Classical in
/-- **What is walked through for a scope belongs to it**, and nothing else does. -/
theorem withinScope_eq (scope : Cursor) : scope.withinScope = scope.elements.filter (·.BelongsTo scope) := by
  rw [withinScope, elementsWithin_eq_filter]
  refine List.filter_congr fun c mem => decide_eq_decide.mpr ?_
  simp [Enters, BelongsTo, mem]

/-! ## (3) The scope of a place -/

/-- `scope.IsScopeOf viewer`: the innermost function around a place, or the whole tree if there is none. -/
def IsScopeOf (scope viewer : Cursor) : Prop :=
  ∃ inner outer, viewer.ancestors = inner ++ scope :: outer ∧
    (∀ x ∈ inner, x.kind.isFunctionLike = false) ∧ (scope.kind.isFunctionLike = true ∨ outer = [])

/-- **The scopes that are looked through** are the scope of the place and those around it. -/
theorem scopes_eq (around : scope.IsScopeOf viewer) :
    viewer.scopes = scope :: (scope.parent?.elim [] scopes) := by
  induction viewer with
  | root tree =>
      obtain ⟨inner, outer, all, -, -⟩ := around
      cases inner with
      | nil =>
          obtain ⟨rfl, -⟩ := List.cons.inj all
          rfl
      | cons x inner => simp [ancestors] at all
  | child parent left tree right start stop ih =>
      obtain ⟨inner, outer, all, plain, function⟩ := around
      -- The place is its own scope if it is a function; else its scope is that of its parent.
      cases inner with
      | nil =>
          obtain ⟨rfl, rest⟩ := List.cons.inj all
          have isFunction : tree.kind.isFunctionLike = true := by
            refine function.resolve_right fun none => ?_
            obtain ⟨_, parents⟩ := parent.exists_ancestors_eq_cons
            rw [none, parents] at rest
            cases rest
          rw [scopes, if_pos isFunction]
          rfl
      | cons x inner =>
          obtain ⟨rfl, rest⟩ := List.cons.inj all
          have noFunction : tree.kind.isFunctionLike = false := plain _ List.mem_cons_self
          rw [scopes, if_neg (by rw [noFunction]; decide)]
          exact ih ⟨inner, outer, rest, fun x mem => plain x (List.mem_cons_of_mem _ mem), function⟩

/-- Without functions around it a place belongs to the whole tree. -/
theorem isScopeOf_root {tree : Tree} (mem : viewer ∈ (root tree).elements)
    (plain : ∀ x ∈ (root tree).elements, x.kind.isFunctionLike = false) : (root tree).IsScopeOf viewer := by
  obtain ⟨between, around, inside⟩ := exists_ancestors_of_mem_elements mem
  exact ⟨between, [], around, fun x inBetween => plain x (inside x inBetween).1, .inr rfl⟩

/-- Every place has a scope. -/
theorem exists_isScopeOf (viewer : Cursor) : ∃ scope : Cursor, scope.IsScopeOf viewer := by
  induction viewer with
  | root tree => exact ⟨root tree, [], [], rfl, List.forall_mem_nil _, .inr rfl⟩
  | child parent left tree right start stop ih =>
      cases function : tree.kind.isFunctionLike with
      | true => exact ⟨_, [], parent.ancestors, rfl, List.forall_mem_nil _, .inl function⟩
      | false =>
          obtain ⟨scope, inner, outer, around, plain, ends⟩ := ih
          refine ⟨scope, child parent left tree right start stop :: inner, outer, ?_, ?_, ends⟩
          · rw [ancestors, around, List.cons_append]
          · exact List.forall_mem_cons.mpr ⟨function, plain⟩

/-- The scope of a place of a tree is a place of the tree, too, and the place lies in it. -/
theorem mem_elements_of_isScopeOf {tree : Tree} (mem : viewer ∈ (root tree).elements)
    (around : scope.IsScopeOf viewer) : scope ∈ (root tree).elements ∧ viewer ∈ scope.elements := by
  obtain ⟨inner, outer, all, -, -⟩ := around
  obtain ⟨between, nodes, inside⟩ := exists_ancestors_of_mem_elements mem
  have inAncestors : scope ∈ viewer.ancestors := by
    rw [all]
    simp
  rw [nodes] at inAncestors
  rcases List.mem_append.mp inAncestors with inBetween | atTop
  · exact inside scope inBetween
  · rw [List.mem_singleton.mp atTop]
    exact ⟨self_mem_elements _, mem⟩

end Cursor

/-! ## (4) Looking a variable up -/

section

variable {name : Text} {viewer : Cursor} {offset crossed : Nat} {found : Resolution}

/-- **A variable is bound in the first scope**, or is a parameter of it, or is looked up around it. -/
theorem bindingAmong?_cases {scope : Cursor} {outer : List Cursor}
    (resolved : bindingAmong? name (scope :: outer) viewer offset crossed = some found) :
    (∃ binding, latestBinding? scope name offset = some binding ∧ found = ⟨binding, viewer, crossed⟩) ∨
      latestBinding? scope name offset = none ∧ scope.kind.isFunctionLike = true ∧
        ((∃ param, scope.paramNamed? name = some param ∧ found = ⟨.parameter scope param, viewer, crossed⟩) ∨
          scope.paramNamed? name = none ∧ ∃ parent, scope.parent? = some parent ∧ scope.inherits name = true ∧
            bindingAmong? name outer parent scope.start (crossed + 1) = some found) := by
  rw [bindingAmong?] at resolved
  -- The search stops at the first of these, and goes outwards only if there is none.
  rcases latest : latestBinding? scope name offset with _ | binding
  · rw [latest] at resolved
    obtain ⟨function, resolved⟩ := Option.ite_none_left_eq_some.mp resolved
    refine .inr ⟨rfl, by simpa using function, ?_⟩
    rcases named : scope.paramNamed? name with _ | param
    · rw [named] at resolved
      rcases parents : scope.parent? with _ | parent
      · rw [parents] at resolved
        cases resolved
      · simp only [parents] at resolved
        obtain ⟨inherits, resolved⟩ := Option.ite_none_right_eq_some.mp resolved
        exact .inr ⟨rfl, parent, rfl, inherits, resolved⟩
    · rw [named] at resolved
      exact .inl ⟨param, rfl, (Option.some.inj resolved).symm⟩
  · rw [latest] at resolved
    exact .inl ⟨binding, rfl, (Option.some.inj resolved).symm⟩

/-- **What is looked up through all scopes is found in one of them**, and there holds what is kept on the way from a
scope to what is around it. -/
theorem exists_scope_of_bindingAmong? {tree : Tree} {P : Cursor → Nat → Prop}
    (outward : ∀ viewer offset scope parent, P viewer offset → scope.IsScopeOf viewer →
      scope ∈ (Cursor.root tree).elements → viewer ∈ scope.elements → scope.parent? = some parent →
        P parent scope.start)
    (mem : viewer ∈ (Cursor.root tree).elements) (start : P viewer offset)
    (resolved : bindingAmong? name viewer.scopes viewer offset crossed = some found) :
    ∃ viewer offset scope, P viewer offset ∧ scope ∈ (Cursor.root tree).elements ∧ viewer ∈ scope.elements ∧
      (latestBinding? scope name offset = some found.binding ∨ ∃ param, found.binding = .parameter scope param) := by
  generalize scopes : viewer.scopes = all at resolved
  induction all generalizing viewer offset crossed with
  | nil => cases resolved
  | cons scope outer ih =>
      obtain ⟨innermost, around⟩ := viewer.exists_isScopeOf
      rw [Cursor.scopes_eq around] at scopes
      obtain ⟨rfl, rfl⟩ := List.cons.inj scopes
      obtain ⟨inFile, below⟩ := Cursor.mem_elements_of_isScopeOf mem around
      rcases bindingAmong?_cases resolved with
        ⟨binding, latest, rfl⟩ | ⟨-, -, ⟨param, -, rfl⟩ | ⟨-, parent, parents, -, resolved⟩⟩
      · exact ⟨viewer, offset, innermost, start, inFile, below, .inl latest⟩
      · exact ⟨viewer, offset, innermost, start, inFile, below, .inr ⟨param, rfl⟩⟩
      · -- The search goes on around the function, from where the function begins.
        have further := outward viewer offset innermost parent start around inFile below parents
        exact ih (Cursor.mem_elements_of_parent? inFile parents).1 further (by rw [parents]; rfl) resolved

end

end PhpMembers
