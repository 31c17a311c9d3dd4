import PhpMembers.Proofs.Classes.Ancestry

/-! # Being an instance of a class-like

Each snapshot is put together on its own, by loops that start at its class-like and pass over what they have
seen. Yet what is above a class-like above another one is above that one, too, as long as interfaces have no
superclasses.

* `isInstanceOf_snapshot_iff` : what a class-like is an instance of.
* `classChain_subset` : the superclasses of a superclass.
* `RootedInterfaces` : interfaces have no superclasses.
* `isInstanceOf_trans` : the relation is transitive. -/

namespace PhpMembers

variable {layers : List ClassTable} {entry above : ClassEntry} {name other : ClassName}

/-! ## (1) What a class-like is an instance of -/

/-- **A class-like is an instance of itself, of its superclasses and of the interfaces of the classes on its
parent chain**, in any letter case. -/
theorem isInstanceOf_snapshot_iff (known : findIn layers entry.name = some entry) :
    (entry.snapshot layers).isInstanceOf other = true ↔ entry.name.key = other.key ∨
      (∃ p, Linked layers (·.parent.toList) entry.parent.toList p ∧ p.key = other.key) ∨
      ∃ i, Linked layers (·.interfaces) ((classChain layers entry).flatMap (·.interfaces)) i ∧
        i.key = other.key := by
  have listed : (entry.snapshot layers).ancestors.any (·.same other) = true ↔
      other.key ∈ (superclasses layers entry).map ClassName.key ∨
        other.key ∈ (reachedInterfaces layers entry).map ClassName.key := by
    rw [(entry.ancestors_interfaces_snapshot layers).1, ← List.mem_append, ← List.map_append, List.mem_map,
      List.any_eq_true]
    simp only [ClassName.same_iff]
  rw [Snapshot.isInstanceOf, entry.name_snapshot, Bool.or_eq_true, ClassName.same_iff, listed,
    mem_keys_reachedInterfaces known, mem_keys_superclasses known]
  constructor
  · rintro (self | ⟨-, superclass⟩ | ⟨-, interface⟩)
    · exact .inl self
    · exact .inr (.inl superclass)
    · exact .inr (.inr interface)
  · intro above
    -- The ancestors leave out the class itself, and the interfaces among them the superclasses.
    by_cases self : other.key = entry.name.key
    · exact .inl self.symm
    · rcases above with self | superclass | interface
      · exact .inl self
      · exact .inr (.inl ⟨self, superclass⟩)
      · by_cases superclass : ∃ p, Linked layers (·.parent.toList) entry.parent.toList p ∧ p.key = other.key
        · exact .inr (.inl ⟨self, superclass⟩)
        · exact .inr (.inr ⟨⟨self, fun inChain => superclass inChain.2⟩, interface⟩)

/-! ## (2) Along the parent chain -/

/-- An entry is on the chain of classes if it is the given one or that of a superclass, met by the loop or
not. -/
theorem mem_classChain_iff (known : findIn layers entry.name = some entry) :
    above ∈ classChain layers entry ↔ above = entry ∨
      ∃ p, Linked layers (·.parent.toList) entry.parent.toList p ∧ findIn layers p = some above := by
  rw [mem_classChain]
  constructor
  · rintro (self | ⟨p, inChain, found⟩)
    · exact .inl self
    · exact .inr ⟨p, (explored_superclasses layers entry).linked p inChain, found⟩
  · rintro (self | ⟨p, linked, found⟩)
    · exact .inl self
    · -- The loop passes over names that lead back to the entry.
      by_cases circle : p.key = entry.name.key
      · rw [findIn_congr layers circle, known] at found
        exact .inl (Option.some.inj found).symm
      · obtain ⟨q, inChain, same⟩ := List.mem_map.mp
          ((mem_keys_superclasses known p.key).mpr ⟨circle, p, linked, rfl⟩)
        exact .inr ⟨q, inChain, (findIn_congr layers same).trans found⟩

/-- The superclasses of a class on the chain are superclasses. -/
theorem linked_parent_trans (known : findIn layers entry.name = some entry)
    (inChain : above ∈ classChain layers entry)
    (linked : Linked layers (·.parent.toList) above.parent.toList name) :
    Linked layers (·.parent.toList) entry.parent.toList name := by
  refine linked.trans fun p mem => ?_
  rcases (mem_classChain_iff known).mp inChain with rfl | ⟨q, linked, found⟩
  · exact .start mem
  · exact .link linked found mem

/-- **The chain of a class on the chain is part of the chain.** -/
theorem classChain_subset (known : findIn layers entry.name = some entry)
    (knownAbove : findIn layers above.name = some above) (inChain : above ∈ classChain layers entry) :
    classChain layers above ⊆ classChain layers entry := by
  intro e mem
  rcases (mem_classChain_iff knownAbove).mp mem with rfl | ⟨p, linked, found⟩
  · exact inChain
  · exact (mem_classChain_iff known).mpr (.inr ⟨p, linked_parent_trans known inChain linked, found⟩)

/-! ## (3) Along interfaces -/

/-- `RootedInterfaces layers`: whatever a known class-like names as an interface has no superclass, as far as
it is known. -/
def RootedInterfaces (layers : List ClassTable) : Prop :=
  ∀ name entry, findIn layers name = some entry → ∀ i ∈ entry.interfaces,
    ∀ e, findIn layers i = some e → e.parent = none

/-- It is enough to look at all entries. -/
theorem rootedInterfaces_of_entries
    (rooted : ∀ e ∈ entriesOf layers, ∀ i ∈ e.2.interfaces, ∀ d ∈ findIn layers i, d.parent = none) :
    RootedInterfaces layers :=
  fun _ _ found i mem e known => rooted _ (mem_entriesOf_of_findIn found) i mem e known

/-- What is linked by interfaces is named as an interface. -/
theorem exists_entry_of_linked (known : findIn layers entry.name = some entry)
    (linked : Linked layers (·.interfaces) ((classChain layers entry).flatMap (·.interfaces)) name) :
    ∃ n e, findIn layers n = some e ∧ name ∈ e.interfaces := by
  cases linked with
  | start inStart =>
      obtain ⟨e, inChain, mem⟩ := List.mem_flatMap.mp inStart
      rcases mem_classChain.mp inChain with self | ⟨p, -, found⟩
      · rw [← self] at known
        exact ⟨e.name, e, known, mem⟩
      · exact ⟨p, e, found, mem⟩
  | link _ found mem => exact ⟨_, _, found, mem⟩

/-- Nothing is linked to nothing. -/
theorem not_linked_nil {links : ClassEntry → List ClassName} : ¬ Linked layers links [] name := by
  intro linked
  induction linked with
  | start mem => cases mem
  | link _ _ _ ih => exact ih

/-- A class without a superclass is alone on its chain. -/
theorem classChain_of_parent_eq_none (known : findIn layers above.name = some above)
    (rooted : above.parent = none) {e : ClassEntry} (mem : e ∈ classChain layers above) : e = above := by
  rcases (mem_classChain_iff known).mp mem with self | ⟨p, linked, -⟩
  · exact self
  · rw [rooted] at linked
    exact absurd linked not_linked_nil

/-- **What a class-like above an entry is an instance of, the entry is an instance of.** -/
theorem isInstanceOf_of_isInstanceOf (rooted : RootedInterfaces layers)
    (known : findIn layers entry.name = some entry) (knownAbove : findIn layers above.name = some above)
    (isAbove : (entry.snapshot layers).isInstanceOf above.name = true)
    (isOther : (above.snapshot layers).isInstanceOf other = true) :
    (entry.snapshot layers).isInstanceOf other = true := by
  rcases (isInstanceOf_snapshot_iff known).mp isAbove with self | ⟨p, linked, same⟩ | ⟨i, linked, same⟩
  · -- The entry itself.
    rw [findIn_congr layers self, knownAbove] at known
    cases known
    exact isOther
  · -- A superclass: everything above it is above the entry for the same reason.
    have inChain : above ∈ classChain layers entry :=
      (mem_classChain_iff known).mpr (.inr ⟨p, linked, (findIn_congr layers same).trans knownAbove⟩)
    rw [isInstanceOf_snapshot_iff known]
    rcases (isInstanceOf_snapshot_iff knownAbove).mp isOther with
      self | ⟨q, further, isOther⟩ | ⟨j, further, isOther⟩
    · exact .inr (.inl ⟨p, linked, same.trans self⟩)
    · exact .inr (.inl ⟨q, linked_parent_trans known inChain further, isOther⟩)
    · refine .inr (.inr ⟨j, further.trans fun m mem => .start ?_, isOther⟩)
      obtain ⟨e, onChain, mem⟩ := List.mem_flatMap.mp mem
      exact List.mem_flatMap.mpr ⟨e, classChain_subset known knownAbove inChain onChain, mem⟩
  · -- An interface, which has no superclass: above it are only the interfaces that it extends.
    have found := (findIn_congr layers same).trans knownAbove
    obtain ⟨n, e, foundBelow, mem⟩ := exists_entry_of_linked known linked
    have root := rooted n e foundBelow i mem above found
    rw [isInstanceOf_snapshot_iff known]
    rcases (isInstanceOf_snapshot_iff knownAbove).mp isOther with
      self | ⟨q, further, -⟩ | ⟨j, further, isOther⟩
    · exact .inr (.inr ⟨i, linked, same.trans self⟩)
    · rw [root] at further
      exact absurd further not_linked_nil
    · refine .inr (.inr ⟨j, further.trans fun m mem => ?_, isOther⟩)
      obtain ⟨e, onChain, mem⟩ := List.mem_flatMap.mp mem
      rw [classChain_of_parent_eq_none knownAbove root onChain] at mem
      exact .link linked found mem

/-! ## (4) The relation between snapshots -/

/-- The snapshot of a name is that of an entry which is known under its own name, too. -/
theorem exists_entry_of_snapshot? (keyed : ∀ table ∈ layers, table.Keyed) {c : Snapshot}
    (known : snapshot? layers name = some c) :
    ∃ e, findIn layers e.name = some e ∧ e.name.key = name.key ∧ c = e.snapshot layers := by
  obtain ⟨e, found, rfl⟩ := Option.map_eq_some_iff.mp known
  have same := key_of_findIn keyed found
  exact ⟨e, (findIn_congr layers same).trans found, same, rfl⟩

/-- Letter case does not matter in what a class-like is an instance of. -/
theorem Snapshot.isInstanceOf_congr (c : Snapshot) (same : name.key = other.key) :
    c.isInstanceOf name = c.isInstanceOf other := by
  have both (a : ClassName) : a.same name = a.same other := by
    rw [Bool.eq_iff_iff, ClassName.same_iff, ClassName.same_iff, same]
  rw [isInstanceOf, isInstanceOf, both]
  simp only [both]

/-- What an instance of a known class-like is an instance of, in tables that list entries by their names. -/
theorem Snapshot.isInstanceOf_trans_of_keyed (keyed : ∀ table ∈ layers, table.Keyed)
    (rooted : RootedInterfaces layers) {a b : ClassName} {c d : Snapshot}
    (knownA : snapshot? layers a = some c) (below : c.isInstanceOf b = true)
    (knownB : snapshot? layers b = some d) (above : d.isInstanceOf other = true) :
    c.isInstanceOf other = true := by
  obtain ⟨e, known, -, rfl⟩ := exists_entry_of_snapshot? keyed knownA
  obtain ⟨f, knownAbove, same, rfl⟩ := exists_entry_of_snapshot? keyed knownB
  rw [← isInstanceOf_congr _ same] at below
  exact isInstanceOf_of_isInstanceOf rooted known knownAbove below above

/-- **Being an instance is transitive.** The tables are made of any entries, so links may lead in circles;
but what is named as an interface has no superclass. If a class-like is an instance of a second one, and this
one is known and an instance of a third one, then the first is an instance of the third, in any letter
case. -/
theorem isInstanceOf_trans (files : List (List ClassEntry))
    (rooted : RootedInterfaces (files.map .ofEntries)) (a b other : ClassName) (c d : Snapshot)
    (knownA : snapshot? (files.map .ofEntries) a = some c) (below : c.isInstanceOf b = true)
    (knownB : snapshot? (files.map .ofEntries) b = some d) (above : d.isInstanceOf other = true) :
    c.isInstanceOf other = true := by
  refine Snapshot.isInstanceOf_trans_of_keyed (fun table mem => ?_) rooted knownA below knownB above
  obtain ⟨entries, -, rfl⟩ := List.mem_map.mp mem
  exact ClassTable.keyed_ofEntries entries

/-- Two classes that extend each other, and two interfaces that extend each other. -/
def circularInstances : Text :=
  ("<?php class A extends B implements I \x7b\x7d class B extends a \x7b\x7d " ++
    "interface I extends J \x7b\x7d interface J extends i, K \x7b\x7d").toList

/-- An interface of the superclass of a class, and what this interface extends. -/
theorem isInstanceOf_trans_circularInstances :
    ∃ c d, RootedInterfaces ([ClassEntry.allOfText circularInstances].map .ofEntries) ∧
      snapshot? ([ClassEntry.allOfText circularInstances].map .ofEntries) ⟨['b']⟩ = some c ∧
      c.isInstanceOf ⟨['i']⟩ = true ∧
      snapshot? ([ClassEntry.allOfText circularInstances].map .ofEntries) ⟨['I']⟩ = some d ∧
      d.isInstanceOf ⟨['k']⟩ = true ∧ c.isInstanceOf ⟨['k']⟩ = true := by
  have rooted : RootedInterfaces ([ClassEntry.allOfText circularInstances].map .ofEntries) :=
    rootedInterfaces_of_entries (by decide +kernel)
  have below : (snapshot? ([ClassEntry.allOfText circularInstances].map .ofEntries) ⟨['b']⟩).any
      (·.isInstanceOf ⟨['i']⟩) = true := by decide +kernel
  have above : (snapshot? ([ClassEntry.allOfText circularInstances].map .ofEntries) ⟨['I']⟩).any
      (·.isInstanceOf ⟨['k']⟩) = true := by decide +kernel
  obtain ⟨c, knownA, below⟩ := (Option.any_eq_true _ _).mp below
  obtain ⟨d, knownB, above⟩ := (Option.any_eq_true _ _).mp above
  exact ⟨_, _, rooted, knownA, below, knownB, above,
    isInstanceOf_trans _ rooted ⟨['b']⟩ ⟨['I']⟩ ⟨['k']⟩ _ _ knownA below knownB above⟩

end PhpMembers
