import PhpMembers.Classes.Hierarchy

/-! # What a table knows of its entries

The last entry that was added under a name is found under it, in any letter case, and the snapshot of an
entry has the members that the entry declares.

* `ClassTable.find?_insert`, `ClassTable.find?_insertAll` : looking up what has been added.
* `Snapshot.hasMember_addMembers` : members that are added to a snapshot are there afterwards.
* `ClassEntry.name_snapshot`, `ClassEntry.hasMember_snapshot` : the snapshot of an entry. -/

namespace PhpMembers

/-! ## (1) Entries by name -/

/-- Names are the same in any letter case if they have one key. -/
theorem ClassName.same_iff {a b : ClassName} : a.same b = true ↔ a.key = b.key := beq_iff_eq

namespace ClassTable

/-- Looking up a key in a list of entries. -/
theorem lookup_cons (key other : Text) (entry : ClassEntry) (entries : List (Text × ClassEntry)) :
    ((key, entry) :: entries).lookup other = if other = key then some entry else entries.lookup other := by
  rw [List.lookup_cons]
  by_cases same : other = key
  · simp [same]
  · have differ : (other == key) = false := beq_eq_false_iff_ne.mpr same
    rw [differ, if_neg same]

/-- An entry that is put under a key is found there, and under other keys what was there before. -/
theorem lookup_insertEntry (key other : Text) (entry : ClassEntry) (entries : List (Text × ClassEntry)) :
    (insertEntry key entry entries).lookup other =
      if other = key then some entry else entries.lookup other := by
  induction entries with
  | nil => exact lookup_cons key other entry []
  | cons first rest ih =>
      obtain ⟨k, old⟩ := first
      rw [insertEntry, lookup_cons]
      split
      · rename_i same
        rw [lookup_cons, same]
        split <;> rfl
      · rename_i differ
        rw [lookup_cons, ih]
        split
        · rename_i isK
          rw [if_neg (isK ▸ differ)]
        · rfl

/-- **An entry that is added is found under its name**, and under other names what was found before. -/
theorem find?_insert (table : ClassTable) (entry : ClassEntry) (name : ClassName) :
    (table.insert entry).find? name =
      if name.key = entry.name.key then some entry else table.find? name :=
  lookup_insertEntry entry.name.key name.key entry table.entries

/-- Entries with other names do not matter. -/
theorem find?_insertAll_of_ne {entries : List ClassEntry} {name : ClassName}
    (others : ∀ entry ∈ entries, name.key ≠ entry.name.key) (table : ClassTable) :
    (table.insertAll entries).find? name = table.find? name := by
  induction entries generalizing table with
  | nil => rfl
  | cons entry rest ih =>
      obtain ⟨ne, others⟩ := List.forall_mem_cons.mp others
      rw [insertAll, List.foldl_cons, ← insertAll, ih others, find?_insert, if_neg ne]

/-- **Entries with different names that are added together are all found**, whatever was there before. -/
theorem find?_insertAll {entries : List ClassEntry}
    (distinct : entries.Pairwise fun a b => a.name.same b.name = false) {entry : ClassEntry}
    (mem : entry ∈ entries) (table : ClassTable) :
    (table.insertAll entries).find? entry.name = some entry := by
  induction entries generalizing table with
  | nil => cases mem
  | cons first rest ih =>
      obtain ⟨fromFirst, distinct⟩ := List.pairwise_cons.mp distinct
      rw [insertAll, List.foldl_cons, ← insertAll]
      rcases List.mem_cons.mp mem with rfl | mem
      · rw [find?_insertAll_of_ne fun other inRest same => ?_, find?_insert, if_pos rfl]
        exact Bool.eq_false_iff.mp (fromFirst other inRest) (ClassName.same_iff.mpr same)
      · exact ih distinct mem _

end ClassTable

/-- What is known from one table. -/
theorem findIn_singleton (table : ClassTable) (name : ClassName) :
    findIn [table] name = table.find? name := by
  rw [findIn, List.findSome?_singleton]

/-! ## (2) Members of snapshots -/

namespace Snapshot

/-- Adding a superclass keeps the name. -/
@[simp] theorem name_addAncestor (c : Snapshot) (name : ClassName) : (c.addAncestor name).name = c.name := by
  rw [addAncestor]
  split <;> rfl

/-- Adding an interface keeps the name. -/
@[simp] theorem name_addInterface (c : Snapshot) (name : ClassName) :
    (c.addInterface name).name = c.name := by
  rw [addInterface, name_addAncestor]
  split <;> rfl

/-- Adding a superclass keeps the members. -/
@[simp] theorem members_addAncestor (c : Snapshot) (name : ClassName) :
    (c.addAncestor name).members = c.members := by
  rw [addAncestor]
  split <;> rfl

/-- Adding an interface keeps the members. -/
@[simp] theorem members_addInterface (c : Snapshot) (name : ClassName) :
    (c.addInterface name).members = c.members := by
  rw [addInterface, members_addAncestor]
  split <;> rfl

/-- Adding a member keeps the name. -/
@[simp] theorem name_addMember (c : Snapshot) (m : KnownMember) : (c.addMember m).name = c.name := by
  rw [addMember]
  split <;> rfl

/-- Several additions keep a part of the snapshot if each does. -/
theorem foldl_keeps {α β : Type} (part : Snapshot → β) {add : Snapshot → α → Snapshot}
    (keeps : ∀ c a, part (add c a) = part c) (c : Snapshot) (additions : List α) :
    part (additions.foldl add c) = part c := by
  induction additions generalizing c with
  | nil => rfl
  | cons a rest ih => rw [List.foldl_cons, ih, keeps]

/-- A member that is there stays when others are added. -/
theorem hasMember_addMember {c : Snapshot} {kind : Option MemberKind} {name : Text}
    (has : c.hasMember kind name = true) (m : KnownMember) : (c.addMember m).hasMember kind name = true := by
  rw [addMember]
  split
  · exact has
  · rw [hasMember, member?, List.find?_isSome] at has ⊢
    obtain ⟨found, mem, fits⟩ := has
    exact ⟨found, List.mem_append_left _ mem, fits⟩

/-- A member that is added is there: it, or one of the same kind and name. -/
theorem hasMember_addMember_self (c : Snapshot) {m : KnownMember}
    (plain : dropLeading '$' m.name.text = m.name.text) :
    (c.addMember m).hasMember (some m.kind) m.name.text = true := by
  rw [addMember]
  split
  · assumption
  · rw [hasMember, member?, List.find?_isSome]
    refine ⟨m, List.mem_append_right _ (List.mem_singleton_self m), ?_⟩
    have same : m.kind.namesMatch m.name.text m.name.text = true := by
      cases m.kind with
      | method => exact beq_self_eq_true _
      | property => exact beq_self_eq_true _
      | constant => exact beq_self_eq_true _
    simp [plain, same]

/-- **Members that are added to a snapshot are there afterwards.** -/
theorem hasMember_addMembers {members : List KnownMember} {m : KnownMember} (mem : m ∈ members)
    (plain : dropLeading '$' m.name.text = m.name.text) (c : Snapshot) :
    (members.foldl addMember c).hasMember (some m.kind) m.name.text = true := by
  have stays (rest : List KnownMember) {c : Snapshot}
      (has : c.hasMember (some m.kind) m.name.text = true) :
      (rest.foldl addMember c).hasMember (some m.kind) m.name.text = true := by
    induction rest generalizing c with
    | nil => exact has
    | cons other rest ih => exact ih (hasMember_addMember has other)
  obtain ⟨before, after, rfl⟩ := List.append_of_mem mem
  rw [List.foldl_append, List.foldl_cons]
  exact stays after (hasMember_addMember_self _ plain)

/-- A class-like is an instance of itself. -/
theorem isInstanceOf_name (c : Snapshot) : c.isInstanceOf c.name = true := by
  rw [isInstanceOf, ClassName.same_iff.mpr rfl, Bool.true_or]

end Snapshot

/-! ## (3) The snapshot of an entry -/

namespace ClassEntry

/-- A snapshot has the name of its entry. -/
@[simp] theorem name_snapshot (layers : List ClassTable) (entry : ClassEntry) :
    (entry.snapshot layers).name = entry.name := by
  rw [snapshot, Snapshot.foldl_keeps Snapshot.name Snapshot.name_addMember,
    Snapshot.foldl_keeps Snapshot.name Snapshot.name_addInterface,
    Snapshot.foldl_keeps Snapshot.name Snapshot.name_addAncestor]
  rfl

/-- **A snapshot has the members that its entry declares.** -/
theorem hasMember_snapshot (layers : List ClassTable) {entry : ClassEntry} {m : MemberEntry}
    (mem : m ∈ entry.members) (plain : dropLeading '$' m.name.text = m.name.text) :
    (entry.snapshot layers).hasMember (some m.kind) m.name.text = true := by
  have known : m.known entry.name ∈ memberCandidates layers entry := by
    have own : m.known entry.name ∈ entry.knownMembers := List.mem_map_of_mem mem
    rw [memberCandidates, classChain, List.flatMap_cons]
    simp [own]
  exact Snapshot.hasMember_addMembers known plain _

end ClassEntry

end PhpMembers
