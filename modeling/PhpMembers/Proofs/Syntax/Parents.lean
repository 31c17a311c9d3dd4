import Mathlib.Data.List.Perm.Basic
import PhpMembers.Proofs.Syntax.Placement

/-! # Nodes by the nodes that they are parts of

Each node below a place is a part of exactly one other. So a walk over all nodes of a kind meets the same
nodes as a walk over all nodes that visits the parts of that kind, in another order.

* `Cursor.descendants_perm`, `Cursor.flatMap_ofKind_perm` : the two walks.
* `Cursor.nodesOf_eq_nil`, `Cursor.nodesOf_eq_toList` : the parts for which there is little room. -/

namespace PhpMembers

open scoped List

namespace Cursor

/-! ## (1) The two walks -/

/-- A walk may pass over what it finds nothing at. -/
theorem flatMap_filter_eq {α β : Type} {l : List α} (keep : α → Bool) {f : α → List β}
    (nothing : ∀ a ∈ l, keep a = false → f a = []) : (l.filter keep).flatMap f = l.flatMap f := by
  induction l with
  | nil => rfl
  | cons a rest ih =>
      obtain ⟨here, there⟩ := List.forall_mem_cons.mp nothing
      cases kept : keep a with
      | true =>
          rw [List.filter_cons_of_pos kept, List.flatMap_cons, List.flatMap_cons, ih there]
      | false =>
          rw [List.filter_cons_of_neg (by simp [kept]), List.flatMap_cons, here kept, List.nil_append,
            ih there]

/-- Each element is the cursor itself or a part of an element. -/
theorem elements_perm (c : Cursor) : c.elements ~ c :: c.elements.flatMap children := by
  induction c using inductionOn with
  | step c ih =>
      have split := List.flatMap_append_perm c.children (fun d => [d])
        fun d => d.elements.flatMap children
      rw [List.flatMap_singleton'] at split
      have below : c.children.flatMap elements ~ c.elements.flatMap children := by
        calc c.children.flatMap elements
            ~ c.children.flatMap fun d => [d] ++ d.elements.flatMap children :=
              List.Perm.flatMap_left _ ih
          _ ~ c.children ++ c.children.flatMap fun d => d.elements.flatMap children := split.symm
          _ = c.elements.flatMap children := by
              rw [elements_eq, List.flatMap_cons, List.flatMap_assoc]
      have first : c.elements = c :: c.children.flatMap elements := elements_eq c
      rw [first]
      exact (below.trans (by rw [first])).cons c

/-- Each node is the cursor itself or a part of a node. -/
theorem descendants_perm {c : Cursor} (node : c.isLeaf = false) :
    c.descendants ~ c :: c.descendants.flatMap nodes := by
  have parts : (c.elements.flatMap children).filter (fun d => !d.isLeaf) = c.descendants.flatMap nodes := by
    rw [List.filter_flatMap, descendants, flatMap_filter_eq _ fun d _ leaf => ?_]
    · rfl
    · rw [nodes, children_of_isLeaf (by simpa using leaf), List.filter_nil]
  have all := c.elements_perm.filter fun d => !d.isLeaf
  rwa [List.filter_cons_of_pos (by simp [node]), parts] at all

/-- The nodes of a kind below the cursor. -/
def ofKind (c : Cursor) (kind : Kind) : List Cursor := c.descendants.filter (·.kind == kind)

/-- **A walk over the nodes of a kind meets the parts of that kind of all nodes.** -/
theorem flatMap_ofKind_perm {β : Type} {c : Cursor} (node : c.isLeaf = false) (kind : Kind)
    (ne : c.kind ≠ kind) (f : Cursor → List β) :
    (c.ofKind kind).flatMap f ~ c.descendants.flatMap fun p => (p.nodesOf kind).flatMap f := by
  have filtered := (descendants_perm node).filter (·.kind == kind)
  rw [List.filter_cons_of_neg (by simpa using ne), List.filter_flatMap] at filtered
  have mapped := filtered.flatMap_right f
  rwa [List.flatMap_assoc] at mapped

/-! ## (2) Parts for which there is little room -/

variable {room : Kind → Kind → ℕ∞} {kinds : List Kind} {c d : Cursor} {kind : Kind}

/-- Where there is no room for parts of a kind, there is none. -/
theorem nodesOf_eq_nil (all : c.tree.Everywhere (InRoom room kinds)) (mem : d ∈ c.elements)
    (listed : kind ∈ kinds) (none : room d.kind kind = 0) : d.nodesOf kind = [] := by
  have le := length_nodesOf_le all mem listed
  rw [none] at le
  exact List.length_eq_zero_iff.mp (Nat.cast_eq_zero.mp (le_antisymm le zero_le))

/-- Where there is room for one part of a kind, there is at most the first one. -/
theorem nodesOf_eq_toList (all : c.tree.Everywhere (InRoom room kinds)) (mem : d ∈ c.elements)
    (listed : kind ∈ kinds) (one : room d.kind kind ≤ 1) : d.nodesOf kind = (d.node? kind).toList := by
  have le : (d.nodesOf kind).length ≤ 1 := by
    exact_mod_cast (length_nodesOf_le all mem listed).trans one
  have first : d.node? kind = (d.nodesOf kind).head? := by
    rw [node?, nodesOf, List.head?_filter]
  rw [first]
  cases parts : d.nodesOf kind with
  | nil => rfl
  | cons only others =>
      rw [parts, List.length_cons] at le
      have alone : others = [] := List.length_eq_zero_iff.mp (by omega)
      rw [alone]
      rfl

end Cursor

end PhpMembers
