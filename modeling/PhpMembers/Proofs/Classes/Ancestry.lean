import PhpMembers.Proofs.Classes.Exploration

/-! # What is above a class-like

The ancestors of a snapshot are the names on the parent chain and the interfaces that the classes on this
chain have, directly or through other interfaces. The names may form circles, be missing, or name class-likes
of the wrong kind.

* `ParentChain` : the names from parent to parent, up to one without an entry or one met before.
* `ClassEntry.ancestors_interfaces_snapshot` : nothing is lost when a snapshot is put together.
* `mem_keys_superclasses`, `mem_keys_reachedInterfaces` : the two loops meet what is above an entry.
* `snapshot_lists_hierarchy` : the ancestors and interfaces of a snapshot. -/

namespace PhpMembers

variable {layers : List ClassTable} {entry : ClassEntry}

/-! ## (1) Snapshots with more names -/

namespace Snapshot

/-- A superclass with a new name comes last. -/
theorem addAncestor_of_new {c : Snapshot} {name : ClassName}
    (new : name.key ∉ c.ancestors.map ClassName.key) :
    c.addAncestor name = { c with ancestors := c.ancestors ++ [name] } := by
  refine if_neg fun old => new ?_
  obtain ⟨other, mem, same⟩ := List.any_eq_true.mp old
  exact List.mem_map.mpr ⟨other, mem, ClassName.same_iff.mp same⟩

/-- An interface with a new name comes last among the interfaces and among the ancestors. -/
theorem addInterface_of_new {c : Snapshot} {name : ClassName}
    (newAncestor : name.key ∉ c.ancestors.map ClassName.key)
    (newInterface : name.key ∉ c.interfaces.map ClassName.key) :
    c.addInterface name =
      { c with ancestors := c.ancestors ++ [name], interfaces := c.interfaces ++ [name] } := by
  have listed : c.interfaces.any (·.same name) ≠ true := by
    intro old
    obtain ⟨other, mem, same⟩ := List.any_eq_true.mp old
    exact newInterface (List.mem_map.mpr ⟨other, mem, ClassName.same_iff.mp same⟩)
  rw [addInterface, if_neg listed]
  exact addAncestor_of_new newAncestor

/-- Superclasses with different new names are listed in turn. -/
theorem foldl_addAncestor {names : List ClassName} {c : Snapshot}
    (new : ((c.ancestors ++ names).map ClassName.key).Nodup) :
    names.foldl addAncestor c = { c with ancestors := c.ancestors ++ names } := by
  induction names generalizing c with
  | nil => rw [List.append_nil, List.foldl_nil]
  | cons name rest ih =>
      have split : c.ancestors ++ name :: rest = c.ancestors ++ [name] ++ rest := by simp
      have first : name.key ∉ c.ancestors.map ClassName.key := by
        rw [List.map_append, List.nodup_append] at new
        exact fun old => new.2.2 _ old _ List.mem_cons_self rfl
      rw [split] at new ⊢
      rw [List.foldl_cons, addAncestor_of_new first, ih new]

/-- Interfaces with different new names are listed in turn. -/
theorem foldl_addInterface {names : List ClassName} {c : Snapshot}
    (newAncestors : ((c.ancestors ++ names).map ClassName.key).Nodup)
    (newInterfaces : ((c.interfaces ++ names).map ClassName.key).Nodup) :
    names.foldl addInterface c =
      { c with ancestors := c.ancestors ++ names, interfaces := c.interfaces ++ names } := by
  induction names generalizing c with
  | nil => rw [List.append_nil, List.append_nil, List.foldl_nil]
  | cons name rest ih =>
      have split (names : List ClassName) : names ++ name :: rest = names ++ [name] ++ rest := by simp
      have first {names : List ClassName} (new : ((names ++ name :: rest).map ClassName.key).Nodup) :
          name.key ∉ names.map ClassName.key := by
        rw [List.map_append, List.nodup_append] at new
        exact fun old => new.2.2 _ old _ List.mem_cons_self rfl
      rw [List.foldl_cons, addInterface_of_new (first newAncestors) (first newInterfaces)]
      rw [split] at newAncestors newInterfaces
      rw [ih newAncestors newInterfaces, split c.ancestors, split c.interfaces]

/-- Adding members keeps what is above. -/
theorem foldl_addMember (c : Snapshot) (members : List KnownMember) :
    (members.foldl addMember c).ancestors = c.ancestors ∧
      (members.foldl addMember c).interfaces = c.interfaces := by
  induction members generalizing c with
  | nil => exact ⟨rfl, rfl⟩
  | cons m rest ih =>
      have here : (c.addMember m).ancestors = c.ancestors ∧ (c.addMember m).interfaces = c.interfaces := by
        rw [addMember]
        split
        · exact ⟨rfl, rfl⟩
        · exact ⟨rfl, rfl⟩
      rw [List.foldl_cons, (ih _).1, (ih _).2]
      exact here

end Snapshot

/-! ## (2) The two loops of a snapshot -/

/-- The loop over the superclasses of an entry. -/
theorem explored_superclasses (layers : List ClassTable) (entry : ClassEntry) :
    Explored (linksOf layers (·.parent.toList)) [entry.name.key] entry.parent.toList
      (superclasses layers entry) :=
  explored_exploreEntries _ _ _ _

/-- The loop over the interfaces of an entry begins with those of the classes on the parent chain. The entry
and the names on this chain have been seen. -/
theorem explored_reachedInterfaces (layers : List ClassTable) (entry : ClassEntry) :
    Explored (linksOf layers (·.interfaces))
      (((superclasses layers entry).map ClassName.key).reverse ++ [entry.name.key])
      ((classChain layers entry).flatMap (·.interfaces)) (reachedInterfaces layers entry) :=
  explored_exploreEntries _ _ _ _

/-- What the second loop has seen at its start. -/
theorem mem_seenByInterfaces {key : Text} :
    key ∈ ((superclasses layers entry).map ClassName.key).reverse ++ [entry.name.key] ↔
      key = entry.name.key ∨ key ∈ (superclasses layers entry).map ClassName.key := by
  rw [List.mem_append, List.mem_reverse, List.mem_singleton, or_comm]

/-- No name is met twice by the two loops. -/
theorem nodup_keys_ancestors (layers : List ClassTable) (entry : ClassEntry) :
    ((superclasses layers entry ++ reachedInterfaces layers entry).map ClassName.key).Nodup := by
  rw [List.map_append, List.nodup_append]
  refine ⟨(explored_superclasses layers entry).nodup_keys,
    (explored_reachedInterfaces layers entry).nodup_keys, ?_⟩
  rintro key inChain _ isInterface rfl
  obtain ⟨name, mem, rfl⟩ := List.mem_map.mp isInterface
  refine (explored_reachedInterfaces layers entry).key_notMem name mem ?_
  exact mem_seenByInterfaces.mpr (.inr inChain)

namespace ClassEntry

/-- **A snapshot lists all names that the loops meet**, superclasses first. -/
theorem ancestors_interfaces_snapshot (layers : List ClassTable) (entry : ClassEntry) :
    (entry.snapshot layers).ancestors = superclasses layers entry ++ reachedInterfaces layers entry ∧
      (entry.snapshot layers).interfaces = reachedInterfaces layers entry := by
  have all := nodup_keys_ancestors layers entry
  have chain : (((Snapshot.empty entry.name entry.kind).ancestors ++ superclasses layers entry).map
      ClassName.key).Nodup := by
    rw [List.map_append, List.nodup_append] at all
    exact all.1
  have interfaces := (explored_reachedInterfaces layers entry).nodup_keys
  obtain ⟨sameAncestors, sameInterfaces⟩ := Snapshot.foldl_addMember
    ((reachedInterfaces layers entry).foldl Snapshot.addInterface
      ((superclasses layers entry).foldl Snapshot.addAncestor (.empty entry.name entry.kind)))
    (memberCandidates layers entry)
  rw [snapshot, sameAncestors, sameInterfaces, Snapshot.foldl_addAncestor chain,
    Snapshot.foldl_addInterface all interfaces]
  exact ⟨rfl, rfl⟩

end ClassEntry

/-! ## (3) The parent chain -/

/-- `ParentChain layers seen parent chain`: following parents from `parent` on, one meets the names in
`chain`. The way ends at a name that has been seen, and behind a name that has no entry or no parent. -/
inductive ParentChain (layers : List ClassTable) : List Text → Option ClassName → List ClassName → Prop
  /-- There is no parent. -/
  | top {seen : List Text} : ParentChain layers seen none []
  /-- The parent has been seen. -/
  | circle {seen : List Text} {parent : ClassName} (old : parent.key ∈ seen) :
      ParentChain layers seen (some parent) []
  /-- The parent has no entry. -/
  | unknown {seen : List Text} {parent : ClassName} (new : parent.key ∉ seen)
      (missing : findIn layers parent = none) : ParentChain layers seen (some parent) [parent]
  /-- The way leads on to the parent of the parent. -/
  | up {seen : List Text} {parent : ClassName} {entry : ClassEntry} {chain : List ClassName}
      (new : parent.key ∉ seen) (known : findIn layers parent = some entry)
      (rest : ParentChain layers (parent.key :: seen) entry.parent chain) :
      ParentChain layers seen (some parent) (parent :: chain)

/-- A loop over parents follows the parent chain. -/
theorem parentChain_of_explored {seen : List Text} {parent : Option ClassName} {chain : List ClassName}
    (explored : Explored (linksOf layers (·.parent.toList)) seen parent.toList chain) :
    ParentChain layers seen parent chain := by
  -- Each name on the chain is one round of the loop, and the queue never holds more than one name.
  induction chain generalizing seen parent with
  | nil =>
      cases parent with
      | none => exact .top
      | some parent =>
          cases explored with
          | skip old _ => exact .circle old
  | cons first rest ih =>
      cases parent with
      | none => cases explored
      | some parent =>
          cases explored with
          | skip _ rest => cases rest
          | visit new rest =>
              rw [List.nil_append, linksOf] at rest
              cases known : findIn layers first with
              | none =>
                  rw [known] at rest
                  cases rest
                  exact .unknown new known
              | some e =>
                  rw [known] at rest
                  exact .up new known (ih rest)

/-- The superclasses are the names on the parent chain. -/
theorem parentChain_superclasses (layers : List ClassTable) (entry : ClassEntry) :
    ParentChain layers [entry.name.key] entry.parent (superclasses layers entry) :=
  parentChain_of_explored (explored_superclasses layers entry)

/-- There is one parent chain. -/
theorem ParentChain.unique {seen : List Text} {parent : Option ClassName} {chain chain' : List ClassName}
    (first : ParentChain layers seen parent chain) (second : ParentChain layers seen parent chain') :
    chain = chain' := by
  -- Which rule applies is settled by whether the name is old and whether it is known.
  induction first generalizing chain' with
  | top => cases second; rfl
  | circle old =>
      cases second with
      | circle _ => rfl
      | unknown new _ => exact absurd old new
      | up new _ _ => exact absurd old new
  | unknown new missing =>
      cases second with
      | circle old => exact absurd old new
      | unknown _ _ => rfl
      | up _ known _ => rw [missing] at known; cases known
  | up new known _ ih =>
      cases second with
      | circle old => exact absurd old new
      | unknown _ missing => rw [missing] at known; cases known
      | up _ known' rest =>
          rw [known] at known'
          cases known'
          rw [ih rest]

/-! ## (4) What the loops meet -/

/-- **The first loop meets all superclasses**, apart from the entry itself. -/
theorem mem_keys_superclasses (known : findIn layers entry.name = some entry) (key : Text) :
    key ∈ (superclasses layers entry).map ClassName.key ↔ key ≠ entry.name.key ∧
      ∃ name, Linked layers (·.parent.toList) entry.parent.toList name ∧ name.key = key := by
  rw [(explored_superclasses layers entry).mem_keys_iff ?_, List.mem_singleton]
  intro name seen m link
  have same := List.mem_singleton.mp seen
  rw [linksOf, findIn_congr layers same, known] at link
  exact .inr ⟨m, link, rfl⟩

/-- An entry is on the chain of classes if it is the given one or that of a superclass. -/
theorem mem_classChain {e : ClassEntry} :
    e ∈ classChain layers entry ↔
      e = entry ∨ ∃ p ∈ superclasses layers entry, findIn layers p = some e := by
  rw [classChain, List.mem_cons, List.mem_filterMap]

/-- **The second loop meets all interfaces of the classes on the parent chain**, apart from the entry itself
and names on the chain: what is linked to those is on its way from the start. -/
theorem mem_keys_reachedInterfaces (known : findIn layers entry.name = some entry) (key : Text) :
    key ∈ (reachedInterfaces layers entry).map ClassName.key ↔
      (key ≠ entry.name.key ∧ key ∉ (superclasses layers entry).map ClassName.key) ∧
      ∃ name, Linked layers (·.interfaces) ((classChain layers entry).flatMap (·.interfaces)) name ∧
        name.key = key := by
  rw [(explored_reachedInterfaces layers entry).mem_keys_iff ?_, mem_seenByInterfaces, not_or]
  intro name seen m link
  obtain ⟨e, found, mem⟩ := mem_linksOf.mp link
  refine .inr ⟨m, List.mem_flatMap.mpr ⟨e, mem_classChain.mpr ?_, mem⟩, rfl⟩
  rcases mem_seenByInterfaces.mp seen with same | inChain
  · rw [findIn_congr layers same, known] at found
    exact .inl (Option.some.inj found).symm
  · obtain ⟨p, inChain, same⟩ := List.mem_map.mp inChain
    exact .inr ⟨p, inChain, by rwa [findIn_congr layers same]⟩

/-! ## (5) The hierarchy of a snapshot -/

/-- `IsAbove layers entry chain name`: the name is on the parent chain of the entry, or it belongs to the
least set that contains the interfaces of the entry and of all entries on the chain, and those of its own
elements. -/
def IsAbove (layers : List ClassTable) (entry : ClassEntry) (chain : List ClassName) (name : ClassName) :
    Prop :=
  name ∈ chain ∨
    Linked layers (·.interfaces) ((entry :: chain.filterMap (findIn layers)).flatMap (·.interfaces)) name

/-- `c.Lists layers entry chain`: the snapshot lists what is above the entry with the given parent chain. -/
structure Snapshot.Lists (layers : List ClassTable) (entry : ClassEntry) (chain : List ClassName)
    (c : Snapshot) : Prop where
  /-- The ancestors are, in any letter case, the names above the entry without the entry itself. -/
  ancestors : ∀ key, key ∈ c.ancestors.map ClassName.key ↔
    key ≠ entry.name.key ∧ ∃ name, IsAbove layers entry chain name ∧ name.key = key
  /-- No ancestor is listed twice. -/
  nodup : (c.ancestors.map ClassName.key).Nodup
  /-- The interfaces are some of the ancestors, in the same order, so none is listed twice either. -/
  sublist : c.interfaces.Sublist c.ancestors
  /-- Neither the entry itself nor a name on the chain is listed as an interface. -/
  apart : ∀ i ∈ c.interfaces, i.key ≠ entry.name.key ∧ i.key ∉ chain.map ClassName.key
  /-- The direct interfaces, without these names, come first and in the order of the declaration. -/
  direct : ∃ others,
    c.interfaces = newNames (entry.name.key :: chain.map ClassName.key) entry.interfaces ++ others

/-- What has been seen matters as a set. -/
theorem newNames_congr {seen seen' : List Text} (same : ∀ key, key ∈ seen ↔ key ∈ seen')
    (names : List ClassName) : newNames seen names = newNames seen' names := by
  rw [newNames, newNames]
  congr 2
  funext name
  simp [same]

/-- The snapshot of an entry that is known under its name lists what is above it. -/
theorem ClassEntry.lists_snapshot (known : findIn layers entry.name = some entry) :
    (entry.snapshot layers).Lists layers entry (superclasses layers entry) := by
  obtain ⟨ancestors, interfaces⟩ := entry.ancestors_interfaces_snapshot layers
  have explored := explored_reachedInterfaces layers entry
  constructor
  case ancestors =>
    intro key
    rw [ancestors, List.map_append, List.mem_append, mem_keys_reachedInterfaces known]
    constructor
    · rintro (inChain | ⟨⟨ne, -⟩, name, linked, same⟩)
      · obtain ⟨name, mem, same⟩ := List.mem_map.mp inChain
        exact ⟨((mem_keys_superclasses known key).mp inChain).1, name, .inl mem, same⟩
      · exact ⟨ne, name, .inr linked, same⟩
    · rintro ⟨ne, name, inChain | linked, same⟩
      · exact .inl (List.mem_map.mpr ⟨name, inChain, same⟩)
      · -- A name that is on the chain already is not listed among the interfaces again.
        by_cases inChain : key ∈ (superclasses layers entry).map ClassName.key
        · exact .inl inChain
        · exact .inr ⟨⟨ne, inChain⟩, name, linked, same⟩
  case nodup =>
    rw [ancestors]
    exact nodup_keys_ancestors layers entry
  case sublist =>
    rw [ancestors, interfaces]
    exact List.sublist_append_right _ _
  case apart =>
    rw [interfaces]
    intro i mem
    exact not_or.mp (mt mem_seenByInterfaces.mpr (explored.key_notMem i mem))
  case direct =>
    rw [interfaces]
    rw [classChain, List.flatMap_cons] at explored
    obtain ⟨others, met⟩ := explored.exists_eq_append
    refine ⟨others, met.trans ?_⟩
    rw [newNames_congr fun key => ?_]
    rw [mem_seenByInterfaces, List.mem_cons]

/-- **A snapshot lists the hierarchy of its class-like**, whatever the tables contain. They are made of any
entries, so links may lead in circles or to names without an entry, and a class may be named as an interface.
All loops end by themselves. A name with an entry has a snapshot; its ancestors are the names above the entry
without the entry itself, each once in any letter case, and its interfaces are those ancestors that are not
on the parent chain, the direct ones first. -/
theorem snapshot_lists_hierarchy (files : List (List ClassEntry)) (name : ClassName) (entry : ClassEntry)
    (found : findIn (files.map .ofEntries) name = some entry) :
    (∀ links seen queue, Explored (linksOf (files.map .ofEntries) links) seen queue
      (exploreEntries (files.map .ofEntries) links seen queue)) ∧
    ∃ c chain, snapshot? (files.map .ofEntries) name = some c ∧ c.name.key = name.key ∧
      ParentChain (files.map .ofEntries) [entry.name.key] entry.parent chain ∧
      c.Lists (files.map .ofEntries) entry chain := by
  have keyed : ∀ table ∈ files.map ClassTable.ofEntries, table.Keyed := by
    intro table mem
    obtain ⟨entries, -, rfl⟩ := List.mem_map.mp mem
    exact ClassTable.keyed_ofEntries entries
  have same := key_of_findIn keyed found
  have known := (findIn_congr _ same).trans found
  refine ⟨fun links seen queue => explored_exploreEntries _ links seen queue, entry.snapshot _, _, ?_, ?_,
    parentChain_superclasses _ entry, entry.lists_snapshot known⟩
  · rw [snapshot?, found, Option.map_some]
  · rw [entry.name_snapshot, same]

/-- Two classes that extend each other, one of which is also named as an interface, and an interface that
extends itself and others without an entry. -/
def circularClasses : Text :=
  ("<?php class A extends B implements I, b, i \x7b\x7d class B extends a implements J \x7b\x7d " ++
    "interface I extends K, J, I \x7b\x7d").toList

/-- The first of these classes. -/
theorem snapshot_lists_hierarchy_circularClasses :
    ((snapshot? ([ClassEntry.allOfText circularClasses].map .ofEntries) ⟨['a']⟩).map fun c =>
        (c.ancestors, c.interfaces)) =
      some ([⟨['B']⟩, ⟨['I']⟩, ⟨['J']⟩, ⟨['K']⟩], [⟨['I']⟩, ⟨['J']⟩, ⟨['K']⟩]) ∧
    ∃ entry, findIn ([ClassEntry.allOfText circularClasses].map .ofEntries) ⟨['a']⟩ = some entry ∧
      (∀ links seen queue,
        Explored (linksOf ([ClassEntry.allOfText circularClasses].map .ofEntries) links) seen queue
          (exploreEntries ([ClassEntry.allOfText circularClasses].map .ofEntries) links seen queue)) ∧
      ∃ c chain, snapshot? ([ClassEntry.allOfText circularClasses].map .ofEntries) ⟨['a']⟩ = some c ∧
        c.name.key = ClassName.key ⟨['a']⟩ ∧
        ParentChain ([ClassEntry.allOfText circularClasses].map .ofEntries) [entry.name.key] entry.parent
          chain ∧
        c.Lists ([ClassEntry.allOfText circularClasses].map .ofEntries) entry chain := by
  have known : (findIn ([ClassEntry.allOfText circularClasses].map .ofEntries) ⟨['a']⟩).isSome = true := by
    decide +kernel
  obtain ⟨entry, found⟩ := Option.isSome_iff_exists.mp known
  exact ⟨by decide +kernel, entry, found, snapshot_lists_hierarchy _ _ entry found⟩

end PhpMembers
