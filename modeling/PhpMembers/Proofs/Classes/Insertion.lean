import PhpMembers.Proofs.Classes.Exploration

/-! # Tables by what has been inserted

A table lists each key once. The keys stand in the order in which they came up first, and under each of them
stands the entry that was inserted last.

* `ClassTable.Lists` : how a table follows from the inserted entries.
* `ClassTable.Lists.insert`, `ClassTable.Lists.insertAll` : one insertion, and any number of them. -/

namespace PhpMembers

namespace ClassTable

/-! ## (1) One insertion -/

section

variable {key : Text} {entry : ClassEntry} {entries : List (Text × ClassEntry)}

/-- A key that is not listed yet comes last. -/
theorem keys_insertEntry (key : Text) (entry : ClassEntry) (entries : List (Text × ClassEntry)) :
    (insertEntry key entry entries).map (·.1) =
      if key ∈ entries.map (·.1) then entries.map (·.1) else entries.map (·.1) ++ [key] := by
  induction entries with
  | nil => rfl
  | cons first rest ih =>
      obtain ⟨other, old⟩ := first
      rw [insertEntry]
      by_cases same : other = key
      · simp [same]
      · rw [if_neg same, List.map_cons, ih]
        by_cases listed : key ∈ rest.map (·.1)
        · rw [if_pos listed, if_pos (by rw [List.map_cons]; exact List.mem_cons_of_mem _ listed),
            List.map_cons]
        · have new : key ∉ ((other, old) :: rest).map (·.1) := by
            rw [List.map_cons, List.mem_cons, not_or]
            exact ⟨fun equal => same equal.symm, listed⟩
          rw [if_neg listed, if_neg new, List.map_cons, List.cons_append]

/-- Only the entry of the key is replaced. -/
theorem mem_insertEntry (nodup : (entries.map (·.1)).Nodup) {listed : Text × ClassEntry} :
    listed ∈ insertEntry key entry entries ↔ listed = (key, entry) ∨ listed ∈ entries ∧ listed.1 ≠ key := by
  induction entries with
  | nil => simp [insertEntry]
  | cons first rest ih =>
      obtain ⟨other, old⟩ := first
      obtain ⟨once, nodup⟩ := List.nodup_cons.mp nodup
      rw [insertEntry]
      by_cases same : other = key
      · subst same
        -- The key is not listed behind its entry.
        have apart (mem : listed ∈ rest) : listed.1 ≠ other := by
          rintro rfl
          exact once (List.mem_map.mpr ⟨listed, mem, rfl⟩)
        rw [if_pos rfl, List.mem_cons, List.mem_cons]
        constructor
        · rintro (isNew | inRest)
          · exact .inl isNew
          · exact .inr ⟨.inr inRest, apart inRest⟩
        · rintro (isNew | ⟨rfl | inRest, ne⟩)
          · exact .inl isNew
          · exact absurd rfl ne
          · exact .inr inRest
      · rw [if_neg same, List.mem_cons, List.mem_cons, ih nodup]
        constructor
        · rintro (rfl | isNew | ⟨inRest, ne⟩)
          · exact .inr ⟨.inl rfl, same⟩
          · exact .inl isNew
          · exact .inr ⟨.inr inRest, ne⟩
        · rintro (isNew | ⟨isFirst | inRest, ne⟩)
          · exact .inr (.inl isNew)
          · exact .inl isFirst
          · exact .inr (.inr ⟨inRest, ne⟩)

end

/-- What is in a list already does not come up for the first time. -/
theorem eraseDups_concat (keys : List Text) (key : Text) :
    (keys ++ [key]).eraseDups = if key ∈ keys then keys.eraseDups else keys.eraseDups ++ [key] := by
  rw [List.eraseDups_append]
  by_cases old : key ∈ keys
  · simp [List.removeAll, old]
  · simp [List.removeAll, old, List.eraseDups_cons]

/-! ## (2) All insertions -/

/-- `table.Lists inserted`: how the table follows from the entries that were inserted one by one. -/
structure Lists (table : ClassTable) (inserted : List ClassEntry) : Prop where
  /-- No key is listed twice. -/
  nodup : (table.entries.map (·.1)).Nodup
  /-- The key of an entry is its name in lower case. -/
  keyed : ∀ listed ∈ table.entries, listed.1 = lowerCase listed.2.name.text
  /-- The names are listed in the order in which their keys came up first. -/
  order : table.names.map (fun name => lowerCase name.text) =
    (inserted.map fun entry => lowerCase entry.name.text).eraseDups
  /-- The entry of a key is the one that was inserted last. -/
  latest : ∀ listed ∈ table.entries,
    (inserted.filter fun entry => lowerCase entry.name.text == listed.1).getLast? = some listed.2

/-- Nothing is listed at first. -/
theorem lists_empty : Lists .empty [] where
  nodup := List.nodup_nil
  keyed := List.forall_mem_nil _
  order := rfl
  latest := List.forall_mem_nil _

/-- The keys of a table that lists its entries by name. -/
theorem keys_eq_of_keyed {table : ClassTable} (keyed : table.Keyed) :
    table.names.map (fun name => lowerCase name.text) = table.entries.map (·.1) := by
  rw [names, List.map_map]
  exact List.map_congr_left fun listed mem => (keyed listed mem).symm

/-- **An insertion is the latest one under its key, and no other entry changes.** -/
theorem Lists.insert {table : ClassTable} {inserted : List ClassEntry} (lists : table.Lists inserted)
    (entry : ClassEntry) : (table.insert entry).Lists (inserted ++ [entry]) := by
  have keyed : (table.insert entry).Keyed := Keyed.insert lists.keyed entry
  have before : table.entries.map (·.1) =
      (inserted.map fun entry => lowerCase entry.name.text).eraseDups :=
    (keys_eq_of_keyed lists.keyed).symm.trans lists.order
  have keys : (table.insert entry).entries.map (·.1) =
      ((inserted ++ [entry]).map fun entry => lowerCase entry.name.text).eraseDups := by
    rw [ClassTable.insert, keys_insertEntry, before, List.map_append, List.map_singleton, eraseDups_concat]
    simp only [List.mem_eraseDups]
    rfl
  refine ⟨?_, keyed, (keys_eq_of_keyed keyed).trans keys, fun listed mem => ?_⟩
  · rw [ClassTable.insert, keys_insertEntry]
    split
    · exact lists.nodup
    · rename_i new
      refine List.nodup_append.mpr ⟨lists.nodup, List.pairwise_singleton _ _, ?_⟩
      rintro key mem _ isNew rfl
      exact new (List.mem_singleton.mp isNew ▸ mem)
  · -- Under the key of the entry this is the latest insertion, and under any other key there is no new one.
    rw [List.filter_append, List.getLast?_append]
    rcases (mem_insertEntry lists.nodup).mp mem with rfl | ⟨inTable, ne⟩
    · simp [ClassName.key]
    · have other : (lowerCase entry.name.text == listed.1) = false :=
        beq_eq_false_iff_ne.mpr fun same => ne same.symm
      rw [List.filter_cons_of_neg (by rw [other]; exact Bool.false_ne_true), List.filter_nil,
        List.getLast?_nil, Option.none_or]
      exact lists.latest listed inTable

/-- **Insertions one after the other.** -/
theorem Lists.insertAll {table : ClassTable} {inserted : List ClassEntry} (lists : table.Lists inserted)
    (entries : List ClassEntry) : (table.insertAll entries).Lists (inserted ++ entries) := by
  induction entries generalizing table inserted with
  | nil =>
      rw [List.append_nil]
      exact lists
  | cons entry rest ih =>
      have next := ih (lists.insert entry)
      rw [List.append_assoc, List.singleton_append] at next
      exact next

end ClassTable

end PhpMembers
