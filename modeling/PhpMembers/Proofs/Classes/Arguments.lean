import PhpMembers.Proofs.Classes.Declared
import PhpMembers.Typing.Inference

/-! # The arguments of a class without a name

The arguments that stand between the word `class` and the body of a class without a name are evaluated
around it. In the tree they are a part of that class, though, and the class-like around a place is looked for
among all nodes around it. So the class around the `new` expression is out of sight in its arguments.

* `Cursor.enclosingClassLike?_eq_some_iff`, `Cursor.enclosingClassLike?_eq_none_iff` : the class-like around
  a place, and the places without one.
* `Cursor.mem_elements_of_enclosingClassLike?` : in the arguments only class-likes of the arguments count.
* `arguments_without_class` : what the arguments mean by `self`, `static`, `parent` and `$this`.
* `constructorArgument_loses_class` : an argument that means another class than the code around it. -/

namespace PhpMembers

namespace Cursor

variable {c d e anon args : Cursor}

/-! ## (1) The innermost class -/

/-- Whether a node is a class, with or without a name. -/
def isAnyClass (c : Cursor) : Bool := c.kind.isClassLike || c.kind == .anonClass

/-- The class-like around a place is the innermost one, and no class without a name lies inside of it. -/
theorem enclosingClassLike?_eq_some_iff : d.enclosingClassLike? = some c ↔
    c.kind.isClassLike = true ∧
      ∃ inner outer, d.ancestors = inner ++ c :: outer ∧ ∀ x ∈ inner, x.isAnyClass = false := by
  have whole : d.enclosingClassLike? = (d.ancestors.find? isAnyClass).filter (·.kind.isClassLike) := by
    have test : (fun a : Cursor => a.kind.isClassLike || a.kind == .anonClass) = isAnyClass := rfl
    rw [enclosingClassLike?, test]
    cases d.ancestors.find? isAnyClass with
    | none => rfl
    | some found => rfl
  rw [whole, Option.filter_eq_some_iff, List.find?_eq_some_iff_append]
  simp only [Bool.not_eq_true']
  constructor
  · rintro ⟨⟨-, inner, outer, around, plain⟩, classLike⟩
    exact ⟨classLike, inner, outer, around, plain⟩
  · rintro ⟨classLike, inner, outer, around, plain⟩
    exact ⟨⟨by rw [isAnyClass, classLike]; rfl, inner, outer, around, plain⟩, classLike⟩

/-- A class without a name is no class-like. -/
theorem ne_of_anonClass (anonymous : anon.kind = .anonClass) (classLike : c.kind.isClassLike = true) :
    anon ≠ c := by
  rintro rfl
  rw [anonymous] at classLike
  cases classLike

/-- No class without a name lies between a place and the class-like around it. -/
theorem notMem_ancestors_of_enclosingClassLike? (found : d.enclosingClassLike? = some c)
    (mem : anon ∈ d.ancestors) (anonymous : anon.kind = .anonClass) : c ∉ anon.ancestors := by
  obtain ⟨classLike, inner, outer, around, plain⟩ := enclosingClassLike?_eq_some_iff.mp found
  intro inside
  rw [around] at mem
  rcases List.mem_append.mp mem with deeper | further
  · have notClass := plain anon deeper
    rw [isAnyClass, anonymous] at notClass
    cases notClass
  · -- The class without a name would lie both around the class-like and inside of it.
    rw [← ancestors_eq_of_append around] at further
    exact ne_of_anonClass anonymous classLike (eq_of_mem_ancestors further inside)

/-- **Without a class-like around them are the places** where each class-like further out has a class without
a name inside of it. -/
theorem enclosingClassLike?_eq_none_iff : d.enclosingClassLike? = none ↔
    ∀ c ∈ d.ancestors, c.kind.isClassLike = true →
      ∃ anon ∈ d.ancestors, anon.kind = .anonClass ∧ c ∈ anon.ancestors := by
  constructor
  · intro without c mem classLike
    -- The first class around the place is one without a name, and `c` stands further out.
    obtain ⟨found, first⟩ : ∃ found, d.ancestors.find? isAnyClass = some found := by
      refine Option.isSome_iff_exists.mp (List.find?_isSome.mpr ⟨c, mem, ?_⟩)
      rw [isAnyClass, classLike]
      rfl
    obtain ⟨isAny, inner, outer, around, plain⟩ := List.find?_eq_some_iff_append.mp first
    simp only [Bool.not_eq_true'] at plain
    have anonymous : found.kind = .anonClass := by
      rcases Bool.or_eq_true_iff.mp isAny with named | anonymous
      · have here := enclosingClassLike?_eq_some_iff.mpr ⟨named, inner, outer, around, plain⟩
        rw [without] at here
        cases here
      · exact beq_iff_eq.mp anonymous
    refine ⟨found, by rw [around]; simp, anonymous, ?_⟩
    rw [ancestors_eq_of_append around]
    rw [around] at mem
    rcases List.mem_append.mp mem with deeper | further
    · have notClass := plain c deeper
      rw [isAnyClass, classLike] at notClass
      cases notClass
    · exact further
  · intro hidden
    refine Option.eq_none_iff_forall_ne_some.mpr fun c found => ?_
    obtain ⟨classLike, inner, outer, around, -⟩ := enclosingClassLike?_eq_some_iff.mp found
    obtain ⟨anon, mem, anonymous, inside⟩ := hidden c (by rw [around]; simp) classLike
    exact notMem_ancestors_of_enclosingClassLike? found mem anonymous inside

/-! ## (2) Inside of the arguments -/

/-- Around arguments is the class without a name. -/
theorem ancestors_of_args (created : anon ∈ e.nodesOf .anonClass) (list : args ∈ anon.nodesOf .argList) :
    args.ancestors = args :: anon :: e.ancestors := by
  rw [ancestors_of_mem_children (mem_children_of_mem_nodesOf list).1,
    ancestors_of_mem_children (mem_children_of_mem_nodesOf created).1]

/-- **A class-like around a part of the arguments stands in the arguments itself.** -/
theorem mem_elements_of_enclosingClassLike? (created : anon ∈ e.nodesOf .anonClass)
    (list : args ∈ anon.nodesOf .argList) (inside : d ∈ args.elements)
    (found : d.enclosingClassLike? = some c) :
    c.kind.isClassLike = true ∧ c ∈ args.elements ∧ d ∈ c.elements := by
  obtain ⟨classLike, inner, outer, around, -⟩ := enclosingClassLike?_eq_some_iff.mp found
  obtain ⟨between, around', within⟩ := exists_ancestors_of_mem_elements inside
  have anonymous := (mem_children_of_mem_nodesOf created).2
  rw [ancestors_of_args created list] at around'
  have hidden := notMem_ancestors_of_enclosingClassLike? found (by rw [around']; simp) anonymous
  rw [ancestors_of_mem_children (mem_children_of_mem_nodesOf created).1] at hidden
  have mem : c ∈ d.ancestors := by rw [around]; simp
  rw [around'] at mem
  rcases List.mem_append.mp mem with deeper | further
  · exact ⟨classLike, within c deeper⟩
  · rcases List.mem_cons.mp further with rfl | further
    · rw [(mem_children_of_mem_nodesOf list).2] at classLike
      cases classLike
    · exact absurd further hidden

end Cursor

/-! ## (3) What the arguments mean -/

section

variable {d : Cursor}

/-- Without a class-like around them `self`, `static` and `parent` mean no class. -/
theorem Regions.resolveName?_eq_none (regions : Regions) (without : d.enclosingClassLike? = none)
    (relative : d.isRelativeClass = true) : regions.resolveName? d = none := by
  simp only [Cursor.isRelativeClass, List.any_cons, List.any_nil, Bool.or_false, Bool.or_eq_true] at relative
  rw [resolveName?, enclosingClass?, without]
  rcases relative with isSelf | isStatic | isParent
  · simp [isSelf]
  · simp [isStatic]
  · simp [isParent]

/-- Nor is anything known of `$this`. -/
theorem Typing.typeOf_this_eq_unknown (t : Typing) (levels : Nat) (without : d.enclosingClassLike? = none)
    (isThis : d.isVariable thisWord = true) : t.typeOf levels d = .unknown := by
  obtain ⟨isVariable, named⟩ := Bool.and_eq_true_iff.mp isThis
  cases levels with
  | zero => rw [typeOf]
  | succ levels =>
      rw [typeOf, typeBy, beq_iff_eq.mp isVariable, beq_iff_eq.mp named]
      simp only [if_true, Regions.enclosingClass?, without]
      rfl

end

/-- **The arguments of a class without a name do not see the class around it.** Of all places, those have no
class-like around them where each class-like further out has a class without a name inside of it, be it around
its body or around its arguments. So for each part of the arguments of such a class:

* it has the same class-like around it as the `new` expression only where neither has any;
* a class-like that it has around it stands in the arguments itself;
* in no class-like of the arguments it has none, so `self`, `static` and `parent` mean no class there, and the
  type of `$this` is unknown. -/
theorem arguments_without_class (source : Text) :
    (∀ d ∈ (Cursor.ofText source).elements, d.enclosingClassLike? = none ↔
      ∀ c ∈ d.ancestors, c.kind.isClassLike = true →
        ∃ anon ∈ d.ancestors, anon.kind = .anonClass ∧ c ∈ anon.ancestors) ∧
    ∀ e ∈ (Cursor.ofText source).ofKind .newExpr, ∀ anon ∈ e.nodesOf .anonClass,
      ∀ args ∈ anon.nodesOf .argList, ∀ d ∈ args.elements,
      (d.enclosingClassLike? = e.enclosingClassLike? ↔
        d.enclosingClassLike? = none ∧ e.enclosingClassLike? = none) ∧
      (∀ c, d.enclosingClassLike? = some c →
        c.kind.isClassLike = true ∧ c ∈ args.elements ∧ d ∈ c.elements) ∧
      ((∀ c ∈ args.elements, c.kind.isClassLike = true → d ∉ c.elements) →
        d.enclosingClassLike? = none ∧
        (∀ regions : Regions, d.isRelativeClass = true → regions.resolveName? d = none) ∧
        ∀ (t : Typing) (levels : Nat), d.isVariable thisWord = true → t.typeOf levels d = .unknown) := by
  refine ⟨fun d _ => Cursor.enclosingClassLike?_eq_none_iff, ?_⟩
  intro e _ anon created args list d inside
  have ofArgs (c : Cursor) (found : d.enclosingClassLike? = some c) :=
    Cursor.mem_elements_of_enclosingClassLike? created list inside found
  refine ⟨⟨fun same => ?_, fun neither => neither.1.trans neither.2.symm⟩, ofArgs, fun noClass => ?_⟩
  · cases found : d.enclosingClassLike? with
    | none => exact ⟨rfl, (found.symm.trans same).symm⟩
    | some c =>
        obtain ⟨-, inArgs, -⟩ := ofArgs c found
        obtain ⟨-, inner, outer, around, -⟩ :=
          Cursor.enclosingClassLike?_eq_some_iff.mp (same.symm.trans found)
        obtain ⟨between, around', -⟩ := Cursor.exists_ancestors_of_mem_elements inArgs
        have ofList := Cursor.ancestors_of_args created list
        -- The class-like would lie both around the expression and inside of the arguments.
        have outside : c ∈ args.ancestors := by rw [ofList, around]; simp
        have within : args ∈ c.ancestors := by rw [around', ofList]; simp
        obtain rfl := Cursor.eq_of_mem_ancestors outside within
        have longer := (Cursor.ancestors_suffix (c := c) (d := e) (by rw [around]; simp)).length_le
        rw [ofList, List.length_cons, List.length_cons] at longer
        omega
  · have without : d.enclosingClassLike? = none := by
      refine Option.eq_none_iff_forall_ne_some.mpr fun c found => ?_
      obtain ⟨classLike, inArgs, contains⟩ := ofArgs c found
      exact noClass c inArgs classLike contains
    refine ⟨without, fun regions relative => ?_, fun t levels isThis => ?_⟩
    · exact regions.resolveName?_eq_none without relative
    · exact t.typeOf_this_eq_unknown levels without isThis

/-- A class that passes one of its constants to a class without a name. -/
def constructorArgument : Text :=
  "<?php class A \x7b function f() \x7b new class(self::X) \x7b\x7d; \x7d \x7d".toList

/-- Around the `new` expression is the class. In the argument, where there is no class body, `self` means
nothing. -/
theorem constructorArgument_loses_class :
    ∃ e ∈ (Cursor.ofText constructorArgument).ofKind .newExpr, ∃ anon ∈ e.nodesOf .anonClass,
      ∃ args ∈ anon.nodesOf .argList, ∃ d ∈ args.elements,
        (∀ c ∈ args.elements, c.kind ≠ .classBody) ∧ d.kind = .nameRef ∧ d.nameText = selfWord ∧
        (Regions.ofFile (Cursor.ofText constructorArgument)).enclosingClass? e = some ⟨['A']⟩ ∧
        d.enclosingClassLike? = none ∧
        (Regions.ofFile (Cursor.ofText constructorArgument)).resolveName? d = none := by
  decide +kernel

end PhpMembers
