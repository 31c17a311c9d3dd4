import Mathlib.Data.List.Sort
import PhpMembers.Search.Site

/-! # The order in which sites are listed

Sites are put in order by insertion. Sites that are left out do not influence the order of the others, so a
search lists the sites of its file and passes over those that its query is not about.

* `Site.sortByPosition_eq` : the order comes from an insertion sort.
* `Site.filter_sortByPosition` : sites may be left out before or after sorting.
* `Cursor.sites`, `Query.sites_eq` : all sites of a file, and those that a query may be about. -/

namespace PhpMembers

namespace Site

/-! ## (1) Sorting by position -/

/-- Whether a site may be listed in front of another one. -/
def Precedes (a b : Site) : Prop := a.position ≤ b.position

instance : DecidableRel Precedes := fun a b => inferInstanceAs (Decidable (a.position ≤ b.position))

instance : Std.Total Precedes := ⟨fun a b => Nat.le_total a.position b.position⟩

instance : IsTrans Site Precedes := ⟨fun _ _ _ => Nat.le_trans⟩

/-- A site is put where an insertion sort puts it. -/
theorem insertByPosition_eq (s : Site) (sites : List Site) :
    insertByPosition s sites = sites.orderedInsert Precedes s := by
  induction sites with
  | nil => rfl
  | cons other rest ih =>
      rw [insertByPosition, List.orderedInsert_cons, ih]
      rfl

/-- **Sites are sorted by insertion.** -/
theorem sortByPosition_eq (sites : List Site) :
    sortByPosition sites = sites.insertionSort Precedes := by
  induction sites with
  | nil => rfl
  | cons s rest ih =>
      rw [List.insertionSort_cons, ← ih, ← insertByPosition_eq]
      rfl

/-- Sorting loses no site and adds none. -/
theorem sortByPosition_perm (sites : List Site) : (sortByPosition sites).Perm sites := by
  rw [sortByPosition_eq]
  exact List.perm_insertionSort Precedes sites

/-- Sorted sites are in order. -/
theorem sortByPosition_pairwise (sites : List Site) : (sortByPosition sites).Pairwise Precedes := by
  rw [sortByPosition_eq]
  exact List.pairwise_insertionSort Precedes sites

/-! ## (2) Leaving sites out -/

/-- A site in front of all others stays in front. -/
theorem insertByPosition_of_forall {s : Site} {sites : List Site}
    (first : ∀ other ∈ sites, s.Precedes other) : insertByPosition s sites = s :: sites := by
  cases sites with
  | nil => rfl
  | cons other rest => exact if_pos (first other List.mem_cons_self)

/-- A site that is kept may be inserted before or after the others are chosen. -/
theorem filter_insertByPosition {keep : Site → Bool} {s : Site} (kept : keep s = true)
    {sites : List Site} (sorted : sites.Pairwise Precedes) :
    (insertByPosition s sites).filter keep = insertByPosition s (sites.filter keep) := by
  induction sites with
  | nil => exact List.filter_cons_of_pos kept
  | cons other rest ih =>
      obtain ⟨before, sortedRest⟩ := List.pairwise_cons.mp sorted
      by_cases le : s.position ≤ other.position
      · -- Whatever is left of the others stands behind `s`.
        have first : ∀ b ∈ (other :: rest).filter keep, s.Precedes b := by
          intro b mem
          rcases List.mem_cons.mp (List.mem_of_mem_filter mem) with rfl | mem
          · exact le
          · exact Nat.le_trans le (before b mem)
        rw [insertByPosition, if_pos le, List.filter_cons_of_pos kept,
          insertByPosition_of_forall first]
      · rw [insertByPosition, if_neg le]
        by_cases keepOther : keep other = true
        · rw [List.filter_cons_of_pos keepOther, List.filter_cons_of_pos keepOther,
            insertByPosition, if_neg le, ih sortedRest]
        · rw [List.filter_cons_of_neg keepOther, List.filter_cons_of_neg keepOther, ih sortedRest]

/-- A site that is not kept leaves the others alone. -/
theorem filter_insertByPosition_of_neg {keep : Site → Bool} {s : Site} (dropped : ¬ keep s = true)
    (sites : List Site) : (insertByPosition s sites).filter keep = sites.filter keep := by
  induction sites with
  | nil => exact List.filter_cons_of_neg dropped
  | cons other rest ih =>
      rw [insertByPosition]
      split
      · rw [List.filter_cons_of_neg dropped]
      · rw [List.filter_cons, List.filter_cons, ih]

/-- **Sites may be left out before or after sorting.** -/
theorem filter_sortByPosition (keep : Site → Bool) (sites : List Site) :
    (sortByPosition sites).filter keep = sortByPosition (sites.filter keep) := by
  induction sites with
  | nil => rfl
  | cons s rest ih =>
      have unfolded : sortByPosition (s :: rest) = insertByPosition s (sortByPosition rest) := rfl
      rw [unfolded]
      by_cases kept : keep s = true
      · rw [filter_insertByPosition kept (sortByPosition_pairwise rest), ih,
          List.filter_cons_of_pos kept]
        rfl
      · rw [filter_insertByPosition_of_neg kept, ih, List.filter_cons_of_neg kept]

end Site

/-! ## (3) The sites of a file -/

namespace Cursor

/-- A site belongs to the node at which it was found. -/
theorem node_of_site? {c : Cursor} {s : Site} (found : c.site? = some s) : s.node = c := by
  unfold site? at found
  repeat' split at found
  all_goals cases found
  all_goals rfl

/-- All sites below a cursor, by position. -/
def sites (file : Cursor) : List Site := Site.sortByPosition (file.descendants.filterMap site?)

/-- A site of a file is the site at one of its nodes. -/
theorem mem_sites {file : Cursor} {s : Site} :
    s ∈ file.sites ↔ s.node ∈ file.descendants ∧ s.node.site? = some s := by
  rw [sites, (Site.sortByPosition_perm _).mem_iff, List.mem_filterMap]
  constructor
  · rintro ⟨c, mem, found⟩
    rw [node_of_site? found]
    exact ⟨mem, found⟩
  · rintro ⟨mem, found⟩
    exact ⟨s.node, mem, found⟩

end Cursor

/-- The sites that a query may be about are among all sites of the file, in the same order. -/
theorem Query.sites_eq (q : Query) (includeDeclarations : Bool) (file : Cursor) :
    q.sites includeDeclarations file = file.sites.filter (q.acceptsSite includeDeclarations) :=
  (Site.filter_sortByPosition _ _).symm

end PhpMembers
