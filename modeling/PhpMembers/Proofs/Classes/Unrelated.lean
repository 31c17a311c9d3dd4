import PhpMembers.Proofs.Classes.Members

/-! # Classes that do not matter to a snapshot

A snapshot depends on the entries of those names only that the hierarchy of its class-like mentions. Entries of other
names may be added or declared again, and what an earlier table shadows may change: all loops take the same way
through the tables as before.

* `Explored.congr`, `Explored.unique` : a loop depends on the links of the names that it meets.
* `ClassEntry.snapshot_congr` : a snapshot depends on the entries of the names that its loops meet.
* `Mentions` : the names that a hierarchy mentions, with an entry or without; `Mentions.key_mem` : where they are.
* `snapshot_of_unrelated` : other entries do not matter. -/

namespace PhpMembers

variable {layers layers' : List ClassTable} {links : ClassEntry → List ClassName} {name other : ClassName}
  {seen : List Text} {queue reached : List ClassName} {entry : ClassEntry}

/-! ## (1) Two runs of a loop -/

namespace Explored

variable {next next' : ClassName → List ClassName}

/-- **A loop depends on the links of the names that it meets only.** -/
theorem congr (explored : Explored next seen queue reached)
    (agree : ∀ name ∈ reached, next' name = next name) : Explored next' seen queue reached := by
  induction explored with
  | done => exact .done
  | skip old _ ih => exact .skip old (ih agree)
  | visit new _ ih =>
      obtain ⟨here, others⟩ := List.forall_mem_cons.mp agree
      refine .visit new ?_
      rw [here]
      exact ih others

/-- A loop goes one way. -/
theorem unique {reached' : List ClassName} (first : Explored next seen queue reached)
    (second : Explored next seen queue reached') : reached = reached' := by
  induction first generalizing reached' with
  | done => cases second; rfl
  | skip old _ ih =>
      cases second with
      | skip _ rest => exact ih rest
      | visit new _ => exact absurd old new
  | visit new _ ih =>
      cases second with
      | skip old _ => exact absurd old new
      | visit _ rest => rw [ih rest]

end Explored

/-- A loop over entries meets the same names, in the same order, in all tables that agree on them. -/
theorem exploreEntries_congr
    (agree : ∀ name ∈ exploreEntries layers links seen queue, findIn layers' name = findIn layers name) :
    exploreEntries layers' links seen queue = exploreEntries layers links seen queue := by
  have met := explored_exploreEntries layers links seen queue
  have same : Explored (linksOf layers' links) seen queue (exploreEntries layers links seen queue) :=
    met.congr fun name mem => by rw [linksOf, linksOf, agree name mem]
  exact (explored_exploreEntries layers' links seen queue).unique same

/-- The entries of names on which tables agree. -/
theorem filterMap_findIn_congr {names : List ClassName}
    (agree : ∀ name ∈ names, findIn layers' name = findIn layers name) :
    names.filterMap (findIn layers') = names.filterMap (findIn layers) :=
  List.filterMap_congr agree

namespace ClassEntry

/-- **A snapshot depends on the entries of the names that its loops meet**: superclasses, interfaces, and the traits
of each class on the chain. -/
theorem snapshot_congr
    (parents : ∀ p ∈ superclasses layers entry, findIn layers' p = findIn layers p)
    (interfaces : ∀ i ∈ reachedInterfaces layers entry, findIn layers' i = findIn layers i)
    (traits : ∀ e ∈ classChain layers entry, ∀ t ∈ reachedTraits layers e, findIn layers' t = findIn layers t) :
    entry.snapshot layers' = entry.snapshot layers := by
  have sameParents : superclasses layers' entry = superclasses layers entry := exploreEntries_congr parents
  have sameChain : classChain layers' entry = classChain layers entry := by
    rw [classChain, classChain, sameParents, filterMap_findIn_congr parents]
  have sameInterfaces : reachedInterfaces layers' entry = reachedInterfaces layers entry := by
    rw [reachedInterfaces, sameParents, sameChain]
    exact exploreEntries_congr interfaces
  have sameMembers : memberCandidates layers' entry = memberCandidates layers entry := by
    rw [memberCandidates, memberCandidates, sameChain, sameInterfaces, filterMap_findIn_congr interfaces,
      List.flatMap_congr fun e mem => ?_]
    have sameTraits : reachedTraits layers' e = reachedTraits layers e := exploreEntries_congr (traits e mem)
    rw [sameTraits, filterMap_findIn_congr (traits e mem)]
  rw [snapshot, snapshot, sameParents, sameInterfaces, sameMembers]

end ClassEntry

/-! ## (2) The names that a hierarchy mentions -/

/-- `Mentions layers name other`: the hierarchy of `name` mentions `other`. The tables may know `other` or not. -/
inductive Mentions (layers : List ClassTable) (name : ClassName) : ClassName → Prop
  /-- The name itself. -/
  | self : Mentions layers name name
  /-- A name on the parent chain, or an interface of the class-likes on it or above these. -/
  | above {entry : ClassEntry} {chain : List ClassName} {other : ClassName}
      (found : findIn layers name = some entry)
      (parents : ParentChain layers [entry.name.key] entry.parent chain)
      (isAbove : IsAbove layers entry chain other) : Mentions layers name other
  /-- A trait that a class-like on the chain uses, directly or through other traits. -/
  | trait {entry e : ClassEntry} {chain : List ClassName} {other : ClassName}
      (found : findIn layers name = some entry)
      (parents : ParentChain layers [entry.name.key] entry.parent chain)
      (onChain : e ∈ entry :: chain.filterMap (findIn layers))
      (used : Linked layers (·.traits) e.traits other) : Mentions layers name other

/-- The keys of the names that the loops for a snapshot meet. -/
def metKeys (layers : List ClassTable) (entry : ClassEntry) : List Text :=
  entry.name.key :: ((entry.snapshot layers).ancestors ++
    (classChain layers entry).flatMap (reachedTraits layers)).map ClassName.key

/-- What a hierarchy mentions is met by one of the loops, in some letter case. -/
theorem Mentions.key_mem (mentions : Mentions layers name other) (found : findIn layers name = some entry)
    (same : entry.name.key = name.key) : other.key ∈ metKeys layers entry := by
  have known : findIn layers entry.name = some entry := (findIn_congr layers same).trans found
  have only {e : ClassEntry} {chain : List ClassName} (found' : findIn layers name = some e)
      (parents : ParentChain layers [e.name.key] e.parent chain) :
      entry = e ∧ chain = superclasses layers entry := by
    cases found.symm.trans found'
    exact ⟨rfl, parents.unique (parentChain_superclasses layers entry)⟩
  -- The loops start with the class-like itself, then follow its parents and interfaces, then the traits.
  rw [metKeys, List.map_append, List.mem_cons, List.mem_append]
  cases mentions with
  | self => exact .inl same.symm
  | above found' parents isAbove =>
      obtain ⟨rfl, rfl⟩ := only found' parents
      by_cases itself : other.key = entry.name.key
      · exact .inl itself
      · have listed := ((ClassEntry.lists_snapshot known).ancestors other.key).mpr
        exact .inr (.inl (listed ⟨itself, other, isAbove, rfl⟩))
  | @trait _ e _ _ found' parents onChain used =>
      obtain ⟨rfl, rfl⟩ := only found' parents
      have met := (explored_exploreEntries layers (·.traits) [] e.traits).mem_keys_iff
        (fun _ seen => absurd seen List.not_mem_nil) other.key
      obtain ⟨t, mem, same⟩ := List.mem_map.mp (met.mpr ⟨List.not_mem_nil, other, used, rfl⟩)
      exact .inr (.inr (List.mem_map.mpr ⟨t, List.mem_flatMap.mpr ⟨e, onChain, mem⟩, same⟩))

/-- **A snapshot depends on the entries of the names that its hierarchy mentions.** -/
theorem snapshot?_congr (agree : ∀ other, Mentions layers name other → findIn layers' other = findIn layers other) :
    snapshot? layers' name = snapshot? layers name := by
  rw [snapshot?, snapshot?, agree name .self]
  cases found : findIn layers name with
  | none => rfl
  | some entry =>
      have parents := parentChain_superclasses layers entry
      have same : entry.snapshot layers' = entry.snapshot layers := by
        refine ClassEntry.snapshot_congr ?_ ?_ ?_
        · exact fun p mem => agree p (.above found parents (.inl mem))
        · intro i mem
          have linked := (explored_reachedInterfaces layers entry).linked i mem
          exact agree i (.above found parents (.inr linked))
        · intro e onChain t mem
          have linked := (explored_exploreEntries layers (·.traits) [] e.traits).linked t mem
          exact agree t (.trait found parents onChain linked)
      rw [Option.map_some, Option.map_some, same]

/-! ## (3) Entries of other names -/

/-- Adding an entry to one of several tables changes what is known of its name only. -/
theorem findIn_insert_of_ne {above below : List ClassTable} {table : ClassTable} {inserted : ClassEntry}
    (differ : other.same inserted.name = false) :
    findIn (above ++ table.insert inserted :: below) other = findIn (above ++ table :: below) other := by
  have ne : other.key ≠ inserted.name.key := fun same => Bool.eq_false_iff.mp differ (ClassName.same_iff.mpr same)
  rw [findIn, findIn, List.findSome?_append, List.findSome?_append, List.findSome?_cons, List.findSome?_cons,
    ClassTable.find?_insert, if_neg ne]

/-- What the first of two tables shadows in the second one does not matter. -/
theorem findIn_of_shadowed {first second second' : ClassTable}
    (rest : ∀ other, first.find? other = none → second'.find? other = second.find? other) (name : ClassName) :
    findIn [first, second'] name = findIn [first, second] name := by
  simp only [findIn, List.findSome?_cons, List.findSome?_nil]
  cases found : first.find? name with
  | some entry => rfl
  | none => rw [rest name found]

/-- **Unrelated classes do not change a snapshot**, whatever the tables contain. An entry may be inserted into any of
the tables, under a new name or in the place of an older entry: if the hierarchy of a name does not mention the name of
the entry, in any letter case, the snapshot stays the same. And of two tables, the second one may change in any way
under names that the first one has. -/
theorem snapshot_of_unrelated (name : ClassName) :
    (∀ (above below : List ClassTable) (table : ClassTable) (inserted : ClassEntry),
      (∀ other, Mentions (above ++ table :: below) name other → other.same inserted.name = false) →
      snapshot? (above ++ table.insert inserted :: below) name = snapshot? (above ++ table :: below) name) ∧
    ∀ first second second' : ClassTable,
      (∀ other, first.find? other = none → second'.find? other = second.find? other) →
      snapshot? [first, second'] name = snapshot? [first, second] name := by
  refine ⟨fun above below table inserted unmentioned => ?_, fun first second second' rest => ?_⟩
  · exact snapshot?_congr fun other mentions => findIn_insert_of_ne (unmentioned other mentions)
  · exact snapshot?_congr fun other _ => findIn_of_shadowed rest other

/-- A class below the circular ones, that has a trait with them in common. -/
def outsideClass : ClassEntry :=
  ⟨⟨['X']⟩, .plain, some ⟨['A']⟩, [⟨['B']⟩], [⟨['V']⟩], [.bare .method ['g']]⟩

/-- Another class with the name of a circular one. -/
def shadowedClass : ClassEntry := ⟨⟨['b']⟩, .plain, none, [⟨['X']⟩], [], [.bare .method ['x']]⟩

/-- A class below the circular ones, and a class that they shadow. -/
theorem snapshot_of_unrelated_circularTraits :
    (∀ other, Mentions [.ofEntries circularTraits] ⟨['a']⟩ other → other.same outsideClass.name = false) ∧
    snapshot? [(ClassTable.ofEntries circularTraits).insert outsideClass] ⟨['a']⟩ =
      snapshot? [.ofEntries circularTraits] ⟨['a']⟩ ∧
    (∀ other, (ClassTable.ofEntries circularTraits).find? other = none →
      (ClassTable.ofEntries [outsideClass, shadowedClass]).find? other =
        (ClassTable.ofEntries [outsideClass]).find? other) ∧
    snapshot? [.ofEntries circularTraits, .ofEntries [outsideClass, shadowedClass]] ⟨['a']⟩ =
      snapshot? [.ofEntries circularTraits, .ofEntries [outsideClass]] ⟨['a']⟩ := by
  have unmentioned (other : ClassName) (mentions : Mentions [.ofEntries circularTraits] ⟨['a']⟩ other) :
      other.same outsideClass.name = false := by
    have known : (findIn [.ofEntries circularTraits] ⟨['a']⟩).isSome = true := by decide
    obtain ⟨entry, found⟩ := Option.isSome_iff_exists.mp known
    have apart : ∀ e ∈ findIn [.ofEntries circularTraits] ⟨['a']⟩,
        outsideClass.name.key ∉ metKeys [.ofEntries circularTraits] e := by decide
    have keyed : ∀ table ∈ [ClassTable.ofEntries circularTraits], table.Keyed :=
      List.forall_mem_singleton.mpr (ClassTable.keyed_ofEntries circularTraits)
    have met := mentions.key_mem found (key_of_findIn keyed found)
    refine Bool.eq_false_iff.mpr fun same => apart entry found ?_
    rwa [ClassName.same_iff.mp same] at met
  have shadowed (other : ClassName) (missing : (ClassTable.ofEntries circularTraits).find? other = none) :
      (ClassTable.ofEntries [outsideClass, shadowedClass]).find? other =
        (ClassTable.ofEntries [outsideClass]).find? other := by
    refine (ClassTable.find?_insert (.ofEntries [outsideClass]) shadowedClass other).trans (if_neg fun same => ?_)
    have present : (ClassTable.ofEntries circularTraits).find? shadowedClass.name ≠ none := by decide
    rw [ClassTable.find?, same] at missing
    exact present missing
  obtain ⟨inserting, shadowing⟩ := snapshot_of_unrelated ⟨['a']⟩
  exact ⟨unmentioned, inserting [] [] _ _ unmentioned, shadowed, shadowing _ _ _ shadowed⟩

end PhpMembers
