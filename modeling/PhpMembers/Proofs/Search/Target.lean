import PhpMembers.Search.Verdict

/-! # The class with which declarations are compared

Whoever searches a member of a class that has it from an interface means the declaration in the interface.

* `Aim` : the rule.
* `aim_iff` : a search follows the rule. -/

namespace PhpMembers

/-! ## (1) The rule -/

/-- `Aim analysis q wanted`: for the query, declarations are compared with the class `wanted`. This is the
searched class, or the class-like from whose first interface it has the searched member without being known
to have it itself. -/
inductive Aim (analysis : Analysis) (q : Query) : ClassName → Prop
  /-- All members of the class are searched. -/
  | allMembers {target : ClassName} (owner : q.owner = some target) (member : q.member = none) :
      Aim analysis q target
  /-- Nothing is known about the class. -/
  | unknown {target : ClassName} (owner : q.owner = some target)
      (unknown : analysis.snapshot? target = none) : Aim analysis q target
  /-- The class has the member. -/
  | own {target : ClassName} {member : MemberName} {c : Snapshot} (owner : q.owner = some target)
      (member_eq : q.member = some member) (known : analysis.snapshot? target = some c)
      (has : c.hasMember q.kind member.text = true) : Aim analysis q target
  /-- No interface of the class has the member. -/
  | noInterface {target : ClassName} {member : MemberName} {c : Snapshot}
      (owner : q.owner = some target) (member_eq : q.member = some member)
      (known : analysis.snapshot? target = some c)
      (nowhere : ∀ i ∈ c.interfaces, ∀ d, analysis.snapshot? i = some d →
        d.hasMember q.kind member.text = false) : Aim analysis q target
  /-- The class does not have the member, and the first of its interfaces that has it got it from
  `m.declaringClass`. -/
  | interface {target i : ClassName} {member : MemberName} {c d : Snapshot} {m : KnownMember}
      {before after : List ClassName} (owner : q.owner = some target)
      (member_eq : q.member = some member) (known : analysis.snapshot? target = some c)
      (lacks : c.hasMember q.kind member.text = false)
      (interfaces : c.interfaces = before ++ i :: after)
      (first : ∀ j ∈ before, ∀ e, analysis.snapshot? j = some e →
        e.hasMember q.kind member.text = false)
      (seen : analysis.snapshot? i = some d) (found : d.member? q.kind member.text = some m) :
      Aim analysis q m.declaringClass

/-! ## (2) How it is followed -/

/-- The member of an interface, if it can be looked up. -/
def Analysis.interfaceMember? (analysis : Analysis) (kind : Option MemberKind) (member : MemberName)
    (interface : ClassName) : Option KnownMember :=
  (analysis.snapshot? interface).bind (·.member? kind member.text)

/-- An interface without the member. -/
theorem Analysis.interfaceMember?_eq_none {analysis : Analysis} {kind : Option MemberKind}
    {member : MemberName} {interface : ClassName} :
    analysis.interfaceMember? kind member interface = none ↔
      ∀ c, analysis.snapshot? interface = some c → c.hasMember kind member.text = false := by
  rw [interfaceMember?, Option.bind_eq_none_iff]
  simp only [Snapshot.hasMember, Option.isSome_eq_false_iff, Option.isNone_iff_eq_none]

/-- If no step changes the head of a list, and a step without a head puts there what it finds, then the head
is what is found first. -/
theorem head?_foldl {α β : Type} {extend : List α → β → List α} {find : β → Option α}
    (step : ∀ found b, (extend found b).head? = found.head?.or (find b)) (bs : List β) (found : List α) :
    (bs.foldl extend found).head? = found.head?.or (bs.findSome? find) := by
  induction bs generalizing found with
  | nil => rw [List.foldl_nil, List.findSome?_nil, Option.or_none]
  | cons b rest ih =>
      rw [List.foldl_cons, ih, step, List.findSome?_cons, Option.or_assoc]
      cases find b with
      | none => rfl
      | some a => rfl

/-- The first class-like in the list is found at the first interface with the member. -/
theorem head?_declaringInterfaces (analysis : Analysis) (kind : Option MemberKind)
    (member : MemberName) (interfaces : List ClassName) :
    (declaringInterfaces analysis kind member interfaces).head? =
      (interfaces.findSome? (analysis.interfaceMember? kind member)).map (·.declaringClass) := by
  rw [declaringInterfaces, List.map_findSome?]
  refine head?_foldl (fun found interface => ?_) interfaces []
  rw [Function.comp_apply, Analysis.interfaceMember?]
  cases (analysis.snapshot? interface).bind (·.member? kind member.text) with
  | none => exact Option.or_none.symm
  | some m =>
      cases found with
      | nil => rfl
      | cons first others =>
          simp only [List.head?_cons, Option.some_or]
          split
          · rfl
          · rfl

/-- The class with which declarations are compared, if the searched class does not have the member. -/
theorem declarationTarget_of_lacks {analysis : Analysis} {q : Query} {target : ClassName}
    {member : MemberName} {c : Snapshot} (owner : q.owner = some target)
    (member_eq : q.member = some member) (known : analysis.snapshot? target = some c)
    (lacks : c.hasMember q.kind member.text = false) :
    (declarationTarget analysis q).owner =
      some (((c.interfaces.findSome? (analysis.interfaceMember? q.kind member)).map
        (·.declaringClass)).getD target) := by
  rw [← head?_declaringInterfaces, declarationTarget, owner, member_eq]
  simp only [known, lacks, Bool.false_eq_true, if_false]
  cases declaringInterfaces analysis q.kind member c.interfaces with
  | nil => rfl
  | cons first others =>
      cases others with
      | nil => rfl
      | cons second others => rfl

/-- The class with which declarations are compared is the searched one, if that has the member. -/
theorem declarationTarget_of_has {analysis : Analysis} {q : Query} {target : ClassName}
    {member : MemberName} {c : Snapshot} (owner : q.owner = some target)
    (member_eq : q.member = some member) (known : analysis.snapshot? target = some c)
    (has : c.hasMember q.kind member.text = true) :
    (declarationTarget analysis q).owner = some target := by
  rw [declarationTarget, owner, member_eq]
  simp only [known, has, if_true]

/-- The class that the rules name is the one with which declarations are compared. -/
theorem Aim.target_eq {analysis : Analysis} {q : Query} {wanted : ClassName} (aim : Aim analysis q wanted) :
    (declarationTarget analysis q).owner = some wanted := by
  cases aim with
  | allMembers owner member => rw [declarationTarget, owner, member]
  | unknown owner unknown =>
      rw [declarationTarget, owner]
      cases q.member with
      | none => rfl
      | some member => simp only [unknown]
  | own owner member known has => exact declarationTarget_of_has owner member known has
  | @noInterface target member c owner member_eq known nowhere =>
      -- Whether the class has the member itself does not matter here.
      cases has : c.hasMember q.kind member.text with
      | true => exact declarationTarget_of_has owner member_eq known has
      | false =>
          have notFound : c.interfaces.findSome? (analysis.interfaceMember? q.kind member) = none :=
            List.findSome?_eq_none_iff.mpr fun i mem =>
              Analysis.interfaceMember?_eq_none.mpr (nowhere i mem)
          rw [declarationTarget_of_lacks owner member_eq known has, notFound]
          rfl
  | @interface target i member c d m before after owner member_eq known lacks interfaces first seen
      found =>
      have foundHere : analysis.interfaceMember? q.kind member i = some m := by
        rw [Analysis.interfaceMember?, seen]
        exact found
      have foundFirst : c.interfaces.findSome? (analysis.interfaceMember? q.kind member) = some m :=
        List.findSome?_eq_some_iff.mpr ⟨before, i, after, interfaces, foundHere, fun j mem =>
          Analysis.interfaceMember?_eq_none.mpr (first j mem)⟩
      rw [declarationTarget_of_lacks owner member_eq known lacks, foundFirst]
      rfl

/-- Where the searched class can be looked up and does not have the member, its interfaces decide. -/
theorem aim_of_lacks {analysis : Analysis} {q : Query} {target wanted : ClassName} {member : MemberName}
    {c : Snapshot} (owner : q.owner = some target) (member_eq : q.member = some member)
    (known : analysis.snapshot? target = some c) (lacks : c.hasMember q.kind member.text = false)
    (target_eq : (declarationTarget analysis q).owner = some wanted) : Aim analysis q wanted := by
  rw [declarationTarget_of_lacks owner member_eq known lacks] at target_eq
  cases find : c.interfaces.findSome? (analysis.interfaceMember? q.kind member) with
  | none =>
      rw [find] at target_eq
      cases target_eq
      exact .noInterface owner member_eq known fun i mem =>
        Analysis.interfaceMember?_eq_none.mp (List.findSome?_eq_none_iff.mp find i mem)
  | some m =>
      rw [find] at target_eq
      cases target_eq
      obtain ⟨before, i, after, interfaces, foundHere, first⟩ := List.findSome?_eq_some_iff.mp find
      obtain ⟨d, seen, found⟩ := Option.bind_eq_some_iff.mp foundHere
      exact .interface owner member_eq known lacks interfaces
        (fun j mem => Analysis.interfaceMember?_eq_none.mp (first j mem)) seen found

/-- The class with which declarations are compared is one that the rules name. -/
theorem aim_of_target_eq {analysis : Analysis} {q : Query} {wanted : ClassName}
    (target_eq : (declarationTarget analysis q).owner = some wanted) : Aim analysis q wanted := by
  -- The cases are what is looked up in turn: the class, the member, the snapshot, the member in it.
  cases owner : q.owner with
  | none =>
      rw [declarationTarget, owner] at target_eq
      cases target_eq
  | some target =>
      cases member_eq : q.member with
      | none =>
          rw [declarationTarget, owner, member_eq] at target_eq
          cases target_eq
          exact .allMembers owner member_eq
      | some member =>
          cases known : analysis.snapshot? target with
          | none =>
              rw [declarationTarget, owner, member_eq] at target_eq
              simp only [known] at target_eq
              cases target_eq
              exact .unknown owner known
          | some c =>
              cases has : c.hasMember q.kind member.text with
              | true =>
                  rw [declarationTarget_of_has owner member_eq known has] at target_eq
                  cases target_eq
                  exact .own owner member_eq known has
              | false => exact aim_of_lacks owner member_eq known has target_eq

/-- **Declarations are compared with the class that the rules name.** -/
theorem aim_iff {analysis : Analysis} {q : Query} {wanted : ClassName} :
    Aim analysis q wanted ↔ (declarationTarget analysis q).owner = some wanted :=
  ⟨Aim.target_eq, aim_of_target_eq⟩

/-- Only a query with a class gives declarations something to be compared with. -/
theorem Aim.owner {analysis : Analysis} {q : Query} {wanted : ClassName} (aim : Aim analysis q wanted) :
    q.owner ≠ none := by
  cases aim with
  | allMembers owner _ | unknown owner _ | own owner _ _ _ | noInterface owner _ _ _
  | interface owner _ _ _ _ _ _ _ =>
      rw [owner]
      exact Option.some_ne_none _

/-- With a searched class there is a class with which declarations are compared. -/
theorem exists_aim (analysis : Analysis) {q : Query} {target : ClassName} (owner : q.owner = some target) :
    ∃ wanted, (declarationTarget analysis q).owner = some wanted := by
  cases member : q.member with
  | none => exact ⟨target, by simp [declarationTarget, owner, member]⟩
  | some m =>
      simp only [declarationTarget, owner, member]
      cases analysis.snapshot? target with
      | none => exact ⟨target, rfl⟩
      | some c =>
          by_cases has : c.hasMember q.kind m.text = true
          · exact ⟨target, by simp [has]⟩
          · simp only [has]
            cases declaringInterfaces analysis q.kind m c.interfaces with
            | nil => exact ⟨target, rfl⟩
            | cons first others => cases others <;> exact ⟨first, rfl⟩

end PhpMembers
