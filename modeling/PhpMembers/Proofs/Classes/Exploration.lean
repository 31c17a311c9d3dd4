import Mathlib.Data.List.Flatten
import PhpMembers.Proofs.Classes.Known

/-! # Following links between entries

A snapshot follows links between entries in three ways: from a class to its superclass, from interfaces to
those above them, and from traits to the traits that they use. Each time names are taken from a queue, and
names that have been seen before are passed over, so links may lead in circles.

* `Explored` : such a loop, without a bound on its rounds.
* `explored_exploreEntries` : the bound on the rounds is never reached, so every loop ends by itself.
* `Linked` : the names to which links lead.
* `Explored.mem_keys_iff` : a loop meets the names to which links lead, apart from those seen before.
* `Explored.exists_eq_append` : a loop first meets what was first in the queue. -/

namespace PhpMembers

variable {layers : List ClassTable} {links : ClassEntry → List ClassName} {name other : ClassName}
  {seen : List Text} {queue reached : List ClassName}

/-! ## (1) Entries of several tables -/

/-- The entries of several tables, one table after the other. -/
def entriesOf (layers : List ClassTable) : List (Text × ClassEntry) := layers.flatMap (·.entries)

/-- The first table with a name has the first entry with its key. -/
theorem findIn_eq_lookup (layers : List ClassTable) (name : ClassName) :
    findIn layers name = (entriesOf layers).lookup name.key := by
  rw [findIn, entriesOf]
  induction layers with
  | nil => rfl
  | cons table rest ih =>
      rw [List.findSome?_cons, List.flatMap_cons, List.lookup_append, ← ih, ClassTable.find?]
      cases table.entries.lookup name.key with
      | none => rfl
      | some entry => rfl

/-- Letter case does not matter to what is known of a name. -/
theorem findIn_congr (layers : List ClassTable) (same : name.key = other.key) :
    findIn layers name = findIn layers other := by
  rw [findIn_eq_lookup, findIn_eq_lookup, same]

/-- Every entry is listed under the key of its name. -/
def ClassTable.Keyed (table : ClassTable) : Prop := ∀ e ∈ table.entries, e.1 = e.2.name.key

/-- A table to which an entry is added lists it under the key of its name. -/
theorem ClassTable.Keyed.insert {table : ClassTable} (keyed : table.Keyed) (entry : ClassEntry) :
    (table.insert entry).Keyed := by
  have added (entries : List (Text × ClassEntry)) (keyed : ∀ e ∈ entries, e.1 = e.2.name.key) :
      ∀ e ∈ insertEntry entry.name.key entry entries, e.1 = e.2.name.key := by
    induction entries with
    | nil => simp [insertEntry]
    | cons first rest ih =>
        obtain ⟨here, there⟩ := List.forall_mem_cons.mp keyed
        rw [insertEntry]
        split
        · exact List.forall_mem_cons.mpr ⟨rfl, there⟩
        · exact List.forall_mem_cons.mpr ⟨here, ih there⟩
  exact added table.entries keyed

/-- A table that is made of entries lists each of them under the key of its name. -/
theorem ClassTable.keyed_ofEntries (entries : List ClassEntry) : (ofEntries entries).Keyed := by
  have added (table : ClassTable) (keyed : table.Keyed) : (table.insertAll entries).Keyed := by
    induction entries generalizing table with
    | nil => exact keyed
    | cons entry rest ih => exact ih _ (keyed.insert entry)
  refine added .empty fun e mem => ?_
  cases mem

/-- What is known of a name is one of the entries. -/
theorem mem_entriesOf_of_findIn {entry : ClassEntry} (found : findIn layers name = some entry) :
    (name.key, entry) ∈ entriesOf layers := by
  rw [findIn_eq_lookup] at found
  obtain ⟨before, after, all, -⟩ := List.lookup_eq_some_iff.mp found
  rw [all]
  exact List.mem_append_right _ List.mem_cons_self

/-- What is known of a name has this name, in some letter case. -/
theorem key_of_findIn {entry : ClassEntry} (keyed : ∀ table ∈ layers, table.Keyed)
    (found : findIn layers name = some entry) : entry.name.key = name.key := by
  obtain ⟨table, inLayers, inTable⟩ := List.mem_flatMap.mp (mem_entriesOf_of_findIn found)
  exact (keyed table inLayers _ inTable).symm

/-! ## (2) Loops that end by themselves -/

/-- The names to which the entry of a name links. A name without an entry has no links. -/
def linksOf (layers : List ClassTable) (links : ClassEntry → List ClassName) (name : ClassName) :
    List ClassName :=
  ((findIn layers name).map links).getD []

/-- A link of a name is a link of its entry. -/
theorem mem_linksOf :
    other ∈ linksOf layers links name ↔ ∃ entry, findIn layers name = some entry ∧ other ∈ links entry := by
  rw [linksOf]
  cases findIn layers name with
  | none => simp
  | some entry => simp

/-- `Explored next seen queue reached`: a loop that takes names from the queue until it is empty meets the
names `reached`. It passes over a name that it has seen, and puts the links of any other name at the end of
the queue. -/
inductive Explored (next : ClassName → List ClassName) :
    List Text → List ClassName → List ClassName → Prop
  /-- The queue is empty. -/
  | done {seen : List Text} : Explored next seen [] []
  /-- The next name has been seen. -/
  | skip {seen : List Text} {name : ClassName} {queue reached : List ClassName} (old : name.key ∈ seen)
      (rest : Explored next seen queue reached) : Explored next seen (name :: queue) reached
  /-- The next name is new. -/
  | visit {seen : List Text} {name : ClassName} {queue reached : List ClassName} (new : name.key ∉ seen)
      (rest : Explored next (name.key :: seen) (queue ++ next name) reached) :
      Explored next seen (name :: queue) (name :: reached)

/-- How many links there are in entries whose keys have not been seen. -/
def linksLeft (links : ClassEntry → List ClassName) (seen : List Text)
    (entries : List (Text × ClassEntry)) : Nat :=
  ((entries.filter fun e => !seen.contains e.1).flatMap fun e => links e.2).length

/-- Links of one more entry. -/
theorem linksLeft_cons (links : ClassEntry → List ClassName) (seen : List Text) (key : Text)
    (entry : ClassEntry) (entries : List (Text × ClassEntry)) :
    linksLeft links seen ((key, entry) :: entries) =
      (if key ∈ seen then 0 else (links entry).length) + linksLeft links seen entries := by
  unfold linksLeft
  by_cases old : key ∈ seen
  · simp [old]
  · simp [old]

/-- Seeing one more key leaves no more links than before. -/
theorem linksLeft_cons_le (links : ClassEntry → List ClassName) (seen : List Text) (key : Text)
    (entries : List (Text × ClassEntry)) :
    linksLeft links (key :: seen) entries ≤ linksLeft links seen entries := by
  induction entries with
  | nil => exact Nat.le_refl _
  | cons first rest ih =>
      rw [linksLeft_cons, linksLeft_cons]
      by_cases old : first.1 ∈ seen
      · simp [old, ih]
      · rw [if_neg old]
        split
        · omega
        · omega

/-- **A new name uses up its links.** -/
theorem length_add_linksLeft_le {key : Text} {entry : ClassEntry} {entries : List (Text × ClassEntry)}
    (found : entries.lookup key = some entry) (new : key ∉ seen) :
    (links entry).length + linksLeft links (key :: seen) entries ≤ linksLeft links seen entries := by
  induction entries with
  | nil => cases found
  | cons first rest ih =>
      obtain ⟨k, e⟩ := first
      rw [ClassTable.lookup_cons] at found
      rw [linksLeft_cons, linksLeft_cons]
      by_cases same : key = k
      · -- This is the entry that was found: its links are no longer left.
        subst same
        rw [if_pos rfl] at found
        cases found
        have others := linksLeft_cons_le links seen key rest
        rw [if_pos List.mem_cons_self, if_neg new]
        omega
      · rw [if_neg same] at found
        have others := ih found
        by_cases old : k ∈ seen
        · rw [if_pos old, if_pos (List.mem_cons_of_mem _ old)]
          omega
        · have stays : k ∉ key :: seen := by simp [old, Ne.symm same]
          rw [if_neg old, if_neg stays]
          omega

/-- A loop whose rounds are enough for the queue and for the links that may come into it ends by itself. -/
theorem explored_explore {rounds : Nat}
    (enough : queue.length + linksLeft links seen (entriesOf layers) ≤ rounds) :
    Explored (linksOf layers links) seen queue (explore (linksOf layers links) rounds seen queue) := by
  -- A class that is visited for the first time uses up its links, so the sum goes down with every round.
  induction rounds generalizing seen queue with
  | zero =>
      have empty : queue = [] := List.length_eq_zero_iff.mp (by omega)
      rw [empty, explore]
      exact .done
  | succ rounds ih =>
      cases queue with
      | nil => exact .done
      | cons name queue =>
          rw [List.length_cons] at enough
          rw [explore]
          by_cases old : name.key ∈ seen
          · rw [if_pos (List.contains_iff_mem.mpr old)]
            exact .skip old (ih (by omega))
          · rw [if_neg (mt List.contains_iff_mem.mp old)]
            refine .visit old (ih ?_)
            rw [List.length_append, linksOf]
            cases found : findIn layers name with
            | none =>
                have fewer := linksLeft_cons_le links seen name.key (entriesOf layers)
                simp only [Option.map_none, Option.getD_none, List.length_nil]
                omega
            | some entry =>
                rw [findIn_eq_lookup] at found
                have used := @length_add_linksLeft_le links _ _ _ _ found old
                simp only [Option.map_some, Option.getD_some]
                omega

/-- **Every loop over entries ends by itself**, whatever the links are: the bound on its rounds is not
reached. -/
theorem explored_exploreEntries (layers : List ClassTable) (links : ClassEntry → List ClassName)
    (seen : List Text) (queue : List ClassName) :
    Explored (linksOf layers links) seen queue (exploreEntries layers links seen queue) := by
  refine explored_explore ?_
  have most : linksLeft links seen (entriesOf layers) ≤
      (layers.flatMap fun table => table.entries.flatMap fun e => links e.2).length := by
    rw [linksLeft, entriesOf, ← List.flatMap_assoc]
    exact (List.filter_sublist.flatMap _).length_le
  rw [explorationBound]
  omega

/-! ## (3) What a loop meets -/

/-- `Linked layers links start name`: the least set of names that contains the given ones and, with each
name that has an entry, those to which the entry links. -/
inductive Linked (layers : List ClassTable) (links : ClassEntry → List ClassName)
    (start : List ClassName) : ClassName → Prop
  /-- A given name. -/
  | start {name : ClassName} (mem : name ∈ start) : Linked layers links start name
  /-- A name to which an entry links. -/
  | link {name other : ClassName} {entry : ClassEntry} (linked : Linked layers links start name)
      (known : findIn layers name = some entry) (mem : other ∈ links entry) :
      Linked layers links start other

/-- What is linked to linked names is linked. -/
theorem Linked.trans {start middle : List ClassName} (linked : Linked layers links middle name)
    (all : ∀ m ∈ middle, Linked layers links start m) : Linked layers links start name := by
  induction linked with
  | start mem => exact all _ mem
  | link _ known mem ih => exact .link ih known mem

namespace Explored

variable {next : ClassName → List ClassName}

/-- No name that was seen before is met. -/
theorem key_notMem (explored : Explored next seen queue reached) : ∀ name ∈ reached, name.key ∉ seen := by
  induction explored with
  | done => simp
  | skip _ _ ih => exact ih
  | visit new _ ih =>
      refine List.forall_mem_cons.mpr ⟨new, fun name mem old => ?_⟩
      exact ih name mem (List.mem_cons_of_mem _ old)

/-- No name is met twice, in whatever letter case. -/
theorem nodup_keys (explored : Explored next seen queue reached) :
    (reached.map ClassName.key).Nodup := by
  induction explored with
  | done => exact List.nodup_nil
  | skip _ _ ih => exact ih
  | @visit seen name queue reached _ rest ih =>
      rw [List.map_cons, List.nodup_cons]
      refine ⟨fun again => ?_, ih⟩
      obtain ⟨other, mem, same⟩ := List.mem_map.mp again
      exact rest.key_notMem other mem (same ▸ List.mem_cons_self)

/-- Whatever is met was in the queue or is a link of something that was met. -/
theorem linked (explored : Explored (linksOf layers links) seen queue reached) :
    ∀ name ∈ reached, Linked layers links queue name := by
  induction explored with
  | done => simp
  | @skip seen first queue reached _ _ ih =>
      intro name mem
      exact (ih name mem).trans fun m inQueue => .start (List.mem_cons_of_mem _ inQueue)
  | @visit seen first queue reached _ _ ih =>
      have here : Linked layers links (first :: queue) first := .start List.mem_cons_self
      refine List.forall_mem_cons.mpr ⟨here, fun name mem => (ih name mem).trans fun m later => ?_⟩
      rcases List.mem_append.mp later with inQueue | isLink
      · exact .start (List.mem_cons_of_mem _ inQueue)
      · obtain ⟨entry, known, mem⟩ := mem_linksOf.mp isLink
        exact .link here known mem

/-- Every name of the queue is met unless it was seen before. -/
theorem key_mem_of_mem_queue (explored : Explored next seen queue reached) :
    ∀ name ∈ queue, name.key ∈ seen ∨ name.key ∈ reached.map ClassName.key := by
  induction explored with
  | done => simp
  | skip old _ ih => exact List.forall_mem_cons.mpr ⟨.inl old, ih⟩
  | @visit seen first queue reached _ _ ih =>
      refine List.forall_mem_cons.mpr ⟨.inr List.mem_cons_self, fun name mem => ?_⟩
      rcases ih name (List.mem_append_left _ mem) with old | met
      · rcases List.mem_cons.mp old with same | old
        · exact .inr (same ▸ List.mem_cons_self)
        · exact .inl old
      · exact .inr (List.mem_cons_of_mem _ met)

/-- Every link of a name that is met is met itself unless it was seen before. -/
theorem key_mem_of_mem_next (explored : Explored next seen queue reached) :
    ∀ name ∈ reached, ∀ m ∈ next name, m.key ∈ seen ∨ m.key ∈ reached.map ClassName.key := by
  induction explored with
  | done => simp
  | skip _ _ ih => exact ih
  | @visit seen first queue reached _ rest ih =>
      have weaken {m : ClassName}
          (found : m.key ∈ first.key :: seen ∨ m.key ∈ reached.map ClassName.key) :
          m.key ∈ seen ∨ m.key ∈ (first :: reached).map ClassName.key := by
        rcases found with old | met
        · rcases List.mem_cons.mp old with same | old
          · exact .inr (same ▸ List.mem_cons_self)
          · exact .inl old
        · exact .inr (List.mem_cons_of_mem _ met)
      refine List.forall_mem_cons.mpr ⟨fun m mem => weaken ?_, fun name mem m link => weaken ?_⟩
      · exact rest.key_mem_of_mem_queue m (List.mem_append_right _ mem)
      · exact ih name mem m link

/-- **A loop meets the names to which links lead, apart from those seen before.** Nothing is cut off if
whatever is linked to a name seen before has been seen or is in the queue. -/
theorem mem_keys_iff (explored : Explored (linksOf layers links) seen queue reached)
    (covered : ∀ name, name.key ∈ seen → ∀ m ∈ linksOf layers links name,
      m.key ∈ seen ∨ ∃ q ∈ queue, q.key = m.key) (key : Text) :
    key ∈ reached.map ClassName.key ↔ key ∉ seen ∧ ∃ name, Linked layers links queue name ∧ name.key = key := by
  constructor
  · intro met
    obtain ⟨name, mem, rfl⟩ := List.mem_map.mp met
    exact ⟨explored.key_notMem name mem, name, explored.linked name mem, rfl⟩
  · rintro ⟨new, name, linked, rfl⟩
    -- Along the links, every name has been seen before or is met.
    have all : name.key ∈ seen ∨ name.key ∈ reached.map ClassName.key := by
      clear new
      induction linked with
      | start mem => exact explored.key_mem_of_mem_queue _ mem
      | @link name other entry _ known mem ih =>
          have isLink : other ∈ linksOf layers links name := mem_linksOf.mpr ⟨entry, known, mem⟩
          rcases ih with old | met
          · rcases covered name old other isLink with old | ⟨q, inQueue, same⟩
            · exact .inl old
            · exact same ▸ explored.key_mem_of_mem_queue q inQueue
          · obtain ⟨met, mem, same⟩ := List.mem_map.mp met
            refine explored.key_mem_of_mem_next met mem other ?_
            rwa [linksOf, findIn_congr layers same]
    exact all.resolve_left new

end Explored

/-- The names of a list that have not been seen, each where it comes up first. -/
def newNames (seen : List Text) (names : List ClassName) : List ClassName :=
  (names.filter fun name => !seen.contains name.key).eraseDupsBy ClassName.same

/-- A name that has been seen is not new. -/
theorem newNames_of_mem (old : name.key ∈ seen) (names : List ClassName) :
    newNames seen (name :: names) = newNames seen names := by
  rw [newNames, List.filter_cons_of_neg (by simpa using old), newNames]

/-- A new name is seen from then on. -/
theorem newNames_of_notMem (new : name.key ∉ seen) (names : List ClassName) :
    newNames seen (name :: names) = name :: newNames (name.key :: seen) names := by
  rw [newNames, List.filter_cons_of_pos (by simpa using new), List.eraseDupsBy_cons, newNames,
    List.filter_filter]
  congr 3
  funext other
  simp [ClassName.same, sameIgnoringCase, ClassName.key]

/-- **What was first in the queue is met first**, and in order. -/
theorem Explored.exists_eq_append {next : ClassName → List ClassName} {front back : List ClassName}
    (explored : Explored next seen (front ++ back) reached) :
    ∃ others, reached = newNames seen front ++ others := by
  induction front generalizing seen back reached with
  | nil => exact ⟨reached, rfl⟩
  | cons name front ih =>
      cases explored with
      | skip old rest =>
          rw [newNames_of_mem old]
          exact ih rest
      | @visit _ _ _ met new rest =>
          have rest : Explored next (name.key :: seen) (front ++ (back ++ next name)) met := by
            rw [← List.append_assoc]
            exact rest
          obtain ⟨others, rfl⟩ := ih rest
          exact ⟨others, by rw [newNames_of_notMem new, List.cons_append]⟩

end PhpMembers
