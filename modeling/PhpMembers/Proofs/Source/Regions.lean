import Mathlib.Data.List.Pairwise
import PhpMembers.Proofs.Syntax.Parents
import PhpMembers.Source.Namespace

/-! # The regions of a file

The namespace declarations of a file, if they are statements of the file itself, lie one after the other. So
do the regions that are made from them, although neighbours share an offset: it belongs to the later one.

* `Regions.at?_eq_some_iff` : the region in effect is the last one that contains the offset.
* `Consecutive`, `Cursor.consecutive_namespaces` : where the declarations lie.
* `RegionAt` : to which namespace declaration an offset belongs, read off the declarations alone.
* `RegionAt.exists_region` : the region of a declaration is in effect at the offsets that belong to it. -/

namespace PhpMembers

/-! ## (1) The region in effect -/

namespace Regions

variable {regions : Regions} {offset position : Nat}

/-- No region is in effect where none contains the offset. -/
theorem indexFrom?_eq_none_iff :
    indexFrom? offset position regions = none ↔ ∀ r ∈ regions, r.contains offset = false := by
  induction regions generalizing position with
  | nil => simp [indexFrom?]
  | cons r rest ih =>
      rw [indexFrom?, List.forall_mem_cons, ← @ih (position + 1)]
      cases later : indexFrom? offset (position + 1) rest with
      | none => simp
      | some found =>
          simp only [reduceCtorEq, and_false, iff_false]
          split
          · exact Option.some_ne_none _
          · exact Option.some_ne_none _

/-- The region in effect is the one at its position. -/
theorem getElem?_of_indexFrom? {j : Nat} {r : Region}
    (found : indexFrom? offset position regions = some (j, r)) :
    ∃ i, j = position + i ∧ regions[i]? = some r := by
  induction regions generalizing position with
  | nil => cases found
  | cons first rest ih =>
      rw [indexFrom?] at found
      -- The region in front wins only over one that starts before it.
      cases later : indexFrom? offset (position + 1) rest with
      | none =>
          rw [later] at found
          obtain ⟨-, same⟩ := Option.ite_none_right_eq_some.mp found
          cases same
          exact ⟨0, rfl, rfl⟩
      | some other =>
          rw [later] at found
          by_cases wins : (first.contains offset && decide (other.2.start < first.start)) = true
          · simp only [wins, if_true] at found
            cases found
            exact ⟨0, rfl, rfl⟩
          · simp only [wins] at found
            cases found
            obtain ⟨i, position_eq, at_i⟩ := ih later
            exact ⟨i + 1, by omega, at_i⟩

/-- A region that starts no later than the others is in effect only where they are not. -/
theorem indexFrom?_cons {first : Region} (ahead : ∀ s ∈ regions, first.start ≤ s.start) :
    indexFrom? offset position (first :: regions) =
      (indexFrom? offset (position + 1) regions).or
        (if first.contains offset then some (position, first) else none) := by
  rw [indexFrom?]
  cases later : indexFrom? offset (position + 1) regions with
  | none => rw [Option.none_or]
  | some found =>
      obtain ⟨i, -, at_i⟩ := getElem?_of_indexFrom? later
      have le := ahead found.2 (List.mem_of_getElem? at_i)
      have loses : (first.contains offset && decide (found.2.start < first.start)) = false := by
        simp [Nat.not_lt.mpr le]
      simp only [loses, Option.some_or]
      rfl

/-- Among regions in the order of their starts the last one that contains the offset is in effect. -/
theorem indexFrom?_eq_some_iff (sorted : regions.Pairwise fun r s => r.start ≤ s.start) {i : Nat}
    {r : Region} : indexFrom? offset position regions = some (i, r) ↔
      ∃ before after, regions = before ++ r :: after ∧ position + before.length = i ∧
        r.contains offset = true ∧ ∀ s ∈ after, s.contains offset = false := by
  induction regions generalizing position with
  | nil => simp [indexFrom?]
  | cons first rest ih =>
      obtain ⟨ahead, sorted⟩ := List.pairwise_cons.mp sorted
      rw [indexFrom?_cons ahead, Option.or_eq_some_iff, ih sorted, indexFrom?_eq_none_iff,
        Option.ite_none_right_eq_some]
      constructor
      · rintro (⟨before, after, rfl, rfl, contains, silent⟩ | ⟨silent, contains, same⟩)
        · exact ⟨first :: before, after, rfl, by rw [List.length_cons]; omega, contains, silent⟩
        · cases same
          exact ⟨[], rest, rfl, rfl, contains, silent⟩
      · rintro ⟨before, after, split, rfl, contains, silent⟩
        cases before with
        | nil =>
            obtain ⟨rfl, rfl⟩ := List.cons.inj split
            exact .inr ⟨silent, contains, rfl⟩
        | cons b before =>
            obtain ⟨rfl, rfl⟩ := List.cons.inj split
            exact .inl ⟨before, after, rfl, by rw [List.length_cons]; omega, contains, silent⟩

/-- The region in effect is the one at its position. -/
theorem getElem?_of_at? {i : Nat} {r : Region} (found : regions.at? offset = some (i, r)) :
    regions[i]? = some r := by
  obtain ⟨j, rfl, at_j⟩ := getElem?_of_indexFrom? found
  rw [Nat.zero_add]
  exact at_j

/-- **The region in effect is the last one that contains the offset.** -/
theorem at?_eq_some_iff (sorted : regions.Pairwise fun r s => r.start ≤ s.start) {i : Nat} {r : Region} :
    regions.at? offset = some (i, r) ↔
      ∃ before after, regions = before ++ r :: after ∧ before.length = i ∧
        r.contains offset = true ∧ ∀ s ∈ after, s.contains offset = false := by
  rw [at?, indexFrom?_eq_some_iff sorted]
  simp only [Nat.zero_add]

end Regions

/-! ## (2) Where the declarations lie -/

/-- `Consecutive stop start declarations`: between the two offsets the declarations lie one after the
other. -/
inductive Consecutive (stop : Nat) : Nat → List Cursor → Prop
  | nil {start : Nat} : start ≤ stop → Consecutive stop start []
  | cons {start : Nat} {n : Cursor} {rest : List Cursor} :
      start ≤ n.start → n.start ≤ n.stop → Consecutive stop n.stop rest →
      Consecutive stop start (n :: rest)

namespace Consecutive

variable {start stop : Nat} {n : Cursor} {declarations earlier later : List Cursor}

/-- They lie between the offsets, so the offsets are in order. -/
theorem start_le_stop (lie : Consecutive stop start declarations) : start ≤ stop := by
  induction lie with
  | nil le => exact le
  | cons begins nonneg _ ih => omega

/-- None starts too early. -/
theorem start_le (lie : Consecutive stop start declarations) : ∀ m ∈ declarations, start ≤ m.start := by
  induction lie with
  | nil _ => exact List.forall_mem_nil _
  | cons begins nonneg _ ih =>
      refine List.forall_mem_cons.mpr ⟨begins, fun m mem => ?_⟩
      have := ih m mem
      omega

/-- The later ones lie behind each of them. -/
theorem split (lie : Consecutive stop start (earlier ++ n :: later)) :
    n.start ≤ n.stop ∧ Consecutive stop n.stop later := by
  induction earlier generalizing start with
  | nil =>
      cases lie with
      | cons _ nonneg rest => exact ⟨nonneg, rest⟩
  | cons first earlier ih =>
      cases lie with
      | cons _ _ rest => exact ih rest

/-- They start one after the other. -/
theorem pairwise (lie : Consecutive stop start declarations) :
    declarations.Pairwise fun a b => a.start ≤ b.start := by
  induction lie with
  | nil _ => exact List.Pairwise.nil
  | cons _ nonneg rest ih =>
      exact List.pairwise_cons.mpr ⟨fun m mem => nonneg.trans (rest.start_le m mem), ih⟩

/-- Declarations that lie apart from each other do so in their order. -/
theorem of_pairwise (apart : declarations.Pairwise fun a b => a.stop ≤ b.start)
    (inside : ∀ m ∈ declarations, start ≤ m.start ∧ m.start ≤ m.stop ∧ m.stop ≤ stop)
    (le : start ≤ stop) : Consecutive stop start declarations := by
  induction declarations generalizing start with
  | nil => exact .nil le
  | cons first rest ih =>
      obtain ⟨behind, apart⟩ := List.pairwise_cons.mp apart
      obtain ⟨⟨begins, nonneg, ends⟩, inside⟩ := List.forall_mem_cons.mp inside
      exact .cons begins nonneg
        (ih apart (fun m mem => ⟨behind m mem, (inside m mem).2⟩) ends)

end Consecutive

namespace Cursor

/-- The namespace declarations of a file. -/
def namespaces (file : Cursor) : List Cursor := file.ofKind .namespaceDef

/-- They are elements of the file, in the same order. -/
theorem namespaces_sublist (file : Cursor) : file.namespaces.Sublist file.elements :=
  List.filter_sublist.trans List.filter_sublist

/-- Parts of a kind are among the nodes of this kind, in the same order. -/
theorem nodesOf_sublist_ofKind (c : Cursor) (kind : Kind) : (c.nodesOf kind).Sublist (c.ofKind kind) := by
  have parts : ∀ cs : List Cursor, cs.Sublist (cs.flatMap elements) := by
    intro cs
    induction cs with
    | nil => exact List.Sublist.refl _
    | cons first rest ih =>
        rw [List.flatMap_cons, elements_eq, List.cons_append]
        exact (ih.trans (List.sublist_append_right _ _)).cons_cons first
  have below : c.children.Sublist c.elements := by
    rw [elements_eq]
    exact (parts c.children).cons c
  exact (below.filter _).filter _

/-- It is enough to count the statements of the file itself that are namespace declarations. -/
theorem topLevel_of_length {file : Cursor}
    (all : file.namespaces.length ≤ (file.nodesOf .namespaceDef).length) :
    ∀ n ∈ file.namespaces, n ∈ file.children := by
  intro n mem
  have same := (file.nodesOf_sublist_ofKind .namespaceDef).eq_of_length_le all
  rw [namespaces, ← same] at mem
  exact List.mem_of_mem_filter (List.mem_of_mem_filter mem)

/-- **Declarations that are statements of the file itself lie one after the other.** -/
theorem consecutive_namespaces {file : Cursor} (placed : file.stop = file.start + utf8Length file.tree.text)
    (topLevel : ∀ n ∈ file.namespaces, n ∈ file.children) :
    Consecutive file.stop file.start file.namespaces := by
  have apart := (file.elements_pairwise.and file.nodup_elements).sublist file.namespaces_sublist
  refine .of_pairwise (apart.imp_of_mem ?_) (fun n mem => ?_) (by omega)
  · rintro a b inA inB ⟨inside | behind, ne⟩
    · -- No statement of the file lies inside another one.
      have : Std.Symm fun a b : Cursor => a.elements.Disjoint b.elements := ⟨fun _ _ h c inB inA => h inA inB⟩
      have disjoint : a.elements.Disjoint b.elements :=
        (childrenFrom_pairwise_disjoint file [] _ _).forall (topLevel a inA) (topLevel b inB) ne
      exact absurd b.self_mem_elements (disjoint inside)
    · exact behind
  · exact within_of_mem_elements placed (file.namespaces_sublist.subset mem)

end Cursor

/-! ## (3) The regions of declarations -/

/-- Where the next declaration starts, or the end of the file. -/
def nextStart (fileStop : Nat) : List Cursor → Nat
  | [] => fileStop
  | next :: _ => next.start

/-- The name written in a declaration, without a leading separator. -/
def Cursor.plainName? (n : Cursor) : Option Text := n.name?.map fun name => dropLeading '\\' name.nameText

/-- The region of a declaration with others behind it. -/
def namespaceRegion (fileStop : Nat) (n : Cursor) (later : List Cursor) : Region :=
  ⟨n.start, if n.block?.isSome then n.stop else nextStart fileStop later, n.plainName?, []⟩

theorem namespaceRegions_cons (fileStop : Nat) (n : Cursor) (later : List Cursor) :
    namespaceRegions fileStop (n :: later) =
      namespaceRegion fileStop n later :: namespaceRegions fileStop later := by
  cases later <;> rfl

/-- The regions of several declarations, seen from one of them. -/
theorem namespaceRegions_append_cons (fileStop : Nat) (earlier : List Cursor) (n : Cursor)
    (later : List Cursor) :
    namespaceRegions fileStop (earlier ++ n :: later) =
      namespaceRegions n.start earlier ++
        namespaceRegion fileStop n later :: namespaceRegions fileStop later := by
  induction earlier with
  | nil => exact namespaceRegions_cons fileStop n later
  | cons first earlier ih =>
      rw [List.cons_append, namespaceRegions_cons, ih, namespaceRegions_cons, List.cons_append]
      cases earlier <;> rfl

/-- Regions start where their declarations do. -/
theorem map_start_namespaceRegions (fileStop : Nat) (declarations : List Cursor) :
    (namespaceRegions fileStop declarations).map Region.start = declarations.map Cursor.start := by
  induction declarations with
  | nil => rfl
  | cons n later ih =>
      rw [namespaceRegions_cons, List.map_cons, ih]
      rfl

/-- Each region starts where some declaration does. -/
theorem exists_start_of_mem {fileStop : Nat} {declarations : List Cursor} {r : Region}
    (mem : r ∈ namespaceRegions fileStop declarations) : ∃ m ∈ declarations, m.start = r.start := by
  have inStarts : r.start ∈ (namespaceRegions fileStop declarations).map Region.start :=
    List.mem_map_of_mem mem
  rw [map_start_namespaceRegions] at inStarts
  exact List.mem_map.mp inStarts

section

variable {fileStop start offset : Nat} {later : List Cursor}

/-- What lies in order up to the end of the file starts in front of it. -/
theorem Consecutive.le_nextStart (lie : Consecutive fileStop start later) :
    start ≤ nextStart fileStop later := by
  cases lie with
  | nil le => exact le
  | cons begins _ _ => exact begins

/-- The next declaration starts inside the file. -/
theorem Consecutive.nextStart_le (lie : Consecutive fileStop start later) :
    nextStart fileStop later ≤ fileStop := by
  cases lie with
  | nil _ => exact Nat.le_refl _
  | cons _ nonneg behind => exact nonneg.trans behind.start_le_stop

/-- What lies in front of all declarations lies in front of the next one. -/
theorem le_nextStart (ends : offset ≤ fileStop) (early : ∀ m ∈ later, offset < m.start) :
    offset ≤ nextStart fileStop later := by
  cases later with
  | nil => exact ends
  | cons next rest => exact Nat.le_of_lt (early next List.mem_cons_self)

/-- A region stops no earlier than it starts, and no later than where the next declaration starts. -/
theorem stop_namespaceRegion {n : Cursor} (nonneg : n.start ≤ n.stop)
    (lie : Consecutive fileStop n.stop later) :
    n.start ≤ (namespaceRegion fileStop n later).stop ∧
      (namespaceRegion fileStop n later).stop ≤ nextStart fileStop later := by
  have le := lie.le_nextStart
  rw [namespaceRegion]
  by_cases braced : n.block?.isSome = true
  · simp only [braced, if_true]
    exact ⟨nonneg, le⟩
  · simp only [braced]
    exact ⟨nonneg.trans le, Nat.le_refl _⟩

/-- Regions of later declarations do not contain what lies in front of these declarations. -/
theorem silent_iff (lie : Consecutive fileStop start later) (le : offset ≤ nextStart fileStop later) :
    (∀ s ∈ namespaceRegions fileStop later, s.contains offset = false) ↔
      ∀ m ∈ later, offset < m.start := by
  constructor
  · intro silent
    cases lie with
    | nil _ => exact List.forall_mem_nil _
    | @cons _ next rest begins nonneg behind =>
        -- The next region contains its start, so the offset lies in front of it.
        have mute := silent (namespaceRegion fileStop next rest)
          (namespaceRegions_cons fileStop next rest ▸ List.mem_cons_self)
        have lasts := (stop_namespaceRegion nonneg behind).1
        have inFront : offset < next.start := by
          by_contra reached
          have here : offset = next.start := Nat.le_antisymm le (Nat.not_lt.mp reached)
          rw [Region.contains, here, decide_eq_true lasts, Bool.and_true] at mute
          exact absurd (Nat.le_refl _) (of_decide_eq_false mute)
        refine List.forall_mem_cons.mpr ⟨inFront, fun m mem => ?_⟩
        have := behind.start_le m mem
        omega
  · intro early s mem
    obtain ⟨m, inLater, same⟩ := exists_start_of_mem mem
    have before := early m inLater
    rw [Region.contains, ← same, decide_eq_false (Nat.not_le.mpr before), Bool.false_and]

end

/-- The region in front of the first declaration, if there is room for it. -/
def leadingRegions (file : Cursor) : List Cursor → Regions
  | [] => [⟨file.start, file.stop, none, []⟩]
  | first :: _ => if file.start < first.start then [⟨file.start, first.start, none, []⟩] else []

/-- It starts with the file. -/
theorem start_of_mem_leadingRegions {file : Cursor} {declarations : List Cursor} {r : Region}
    (mem : r ∈ leadingRegions file declarations) : r.start = file.start := by
  cases declarations with
  | nil => rw [List.mem_singleton.mp mem]
  | cons first rest =>
      rw [leadingRegions] at mem
      split at mem
      · rw [List.mem_singleton.mp mem]
      · cases mem

/-- There is room for it in front of what lies in front of all declarations. -/
theorem leadingRegions_of_early {file : Cursor} {declarations : List Cursor} {offset : Nat}
    (begins : file.start ≤ offset) (early : ∀ m ∈ declarations, offset < m.start) :
    leadingRegions file declarations = [⟨file.start, nextStart file.stop declarations, none, []⟩] := by
  cases declarations with
  | nil => rfl
  | cons first rest =>
      have room : file.start < first.start := begins.trans_lt (early first List.mem_cons_self)
      rw [leadingRegions, if_pos room, nextStart]

namespace Regions

/-- The regions of a file are the one in front and then those of its declarations. -/
theorem withoutImports_eq (file : Cursor) :
    withoutImports file =
      leadingRegions file file.namespaces ++ namespaceRegions file.stop file.namespaces := by
  have listed : file.descendants.filter (·.kind == .namespaceDef) = file.namespaces := rfl
  rw [withoutImports, listed]
  cases file.namespaces with
  | nil => rfl
  | cons first rest =>
      simp only [leadingRegions]
      split
      · rfl
      · rfl

/-- They are in the order of their starts. -/
theorem withoutImports_sorted {file : Cursor}
    (lie : Consecutive file.stop file.start file.namespaces) :
    (withoutImports file).Pairwise fun r s => r.start ≤ s.start := by
  rw [withoutImports_eq]
  refine List.pairwise_append.mpr ⟨?_, ?_, fun r inFront s mem => ?_⟩
  · cases file.namespaces with
    | nil => exact List.pairwise_singleton _ _
    | cons first rest =>
        rw [leadingRegions]
        split
        · exact List.pairwise_singleton _ _
        · exact List.Pairwise.nil
  · rw [← List.pairwise_map (R := (· ≤ ·)), map_start_namespaceRegions, List.pairwise_map]
    exact lie.pairwise
  · obtain ⟨m, inFile, same⟩ := exists_start_of_mem mem
    rw [start_of_mem_leadingRegions inFront, ← same]
    exact lie.start_le m inFile

/-- **A region is in effect from its start to its stop, as far as no later declaration has begun.** -/
theorem at?_append_iff {file : Cursor} (lie : Consecutive file.stop file.start file.namespaces)
    {before : Regions} {r : Region} {later : List Cursor} {start offset : Nat}
    (all : withoutImports file = before ++ r :: namespaceRegions file.stop later)
    (behind : Consecutive file.stop start later) (stops : r.stop ≤ nextStart file.stop later) :
    (withoutImports file).at? offset = some (before.length, r) ↔
      r.start ≤ offset ∧ offset ≤ r.stop ∧ ∀ m ∈ later, offset < m.start := by
  rw [at?_eq_some_iff (withoutImports_sorted lie)]
  constructor
  · rintro ⟨before', after, split, length, contains, silent⟩
    obtain ⟨-, same⟩ := List.append_inj (all.symm.trans split) length.symm
    obtain rfl := (List.cons.inj same).2
    rw [Region.contains, Bool.and_eq_true, decide_eq_true_iff, decide_eq_true_iff] at contains
    exact ⟨contains.1, contains.2, (silent_iff behind (contains.2.trans stops)).mp silent⟩
  · rintro ⟨begins, ends, early⟩
    refine ⟨before, _, all, rfl, ?_, (silent_iff behind (ends.trans stops)).mpr early⟩
    rw [Region.contains, decide_eq_true begins, decide_eq_true ends, Bool.and_true]

end Regions

/-! ## (4) Offsets by declarations -/

/-- `RegionAt file declaration? offset`: the offset belongs to the namespace declaration, or it stands in
front of all of them. -/
inductive RegionAt (file : Cursor) : Option Cursor → Nat → Prop
  /-- No declaration has begun. -/
  | leading {offset : Nat} :
      file.start ≤ offset → offset ≤ file.stop → (∀ m ∈ file.namespaces, offset < m.start) →
      RegionAt file none offset
  /-- A declaration without braces lasts until the next one begins, or until the end of the file. -/
  | unbraced {offset : Nat} {n : Cursor} {earlier later : List Cursor} :
      file.namespaces = earlier ++ n :: later → n.block? = none → n.start ≤ offset →
      offset ≤ file.stop → (∀ m ∈ later, offset < m.start) → RegionAt file (some n) offset
  /-- A declaration with braces lasts until its end. -/
  | braced {offset : Nat} {n : Cursor} :
      n ∈ file.namespaces → n.block?.isSome = true → n.start ≤ offset → offset < n.stop →
      RegionAt file (some n) offset
  /-- If the closing brace is missing, the end belongs to the declaration, too. -/
  | unclosed {offset : Nat} {n block : Cursor} {earlier later : List Cursor} :
      file.namespaces = earlier ++ n :: later → n.block? = some block →
      block.hasToken .rBrace = false → n.stop = offset → (∀ m ∈ later, offset < m.start) →
      RegionAt file (some n) offset

/-- Two places in one list: they are the same, or one of them comes later. -/
theorem split_cases {α : Type} {earlier later earlier' later' : List α} {a b : α}
    (same : earlier ++ a :: later = earlier' ++ b :: later') :
    (a = b ∧ earlier = earlier' ∧ later = later') ∨ b ∈ later ∨ a ∈ later' := by
  rcases List.append_eq_append_iff.mp same with ⟨between, rfl, rest⟩ | ⟨between, rfl, rest⟩
  · cases between with
    | nil =>
        obtain ⟨rfl, rfl⟩ := List.cons.inj rest
        exact .inl ⟨rfl, (List.append_nil _).symm, rfl⟩
    | cons c between =>
        obtain ⟨rfl, rfl⟩ := List.cons.inj rest
        exact .inr (.inl (List.mem_append_right _ List.mem_cons_self))
  · cases between with
    | nil =>
        obtain ⟨rfl, rfl⟩ := List.cons.inj rest
        exact .inl ⟨rfl, List.append_nil _, rfl⟩
    | cons c between =>
        obtain ⟨rfl, rfl⟩ := List.cons.inj rest
        exact .inr (.inr (List.mem_append_right _ List.mem_cons_self))

namespace RegionAt

variable {file n : Cursor} {declaration? : Option Cursor} {offset : Nat}

/-- What belongs to a declaration with both braces stands in front of its end. -/
theorem lt_stop (here : RegionAt file (some n) offset) {block : Cursor} (braced : n.block? = some block)
    (closed : block.hasToken .rBrace = true) : offset < n.stop := by
  cases here with
  | unbraced _ bare _ _ _ =>
      rw [braced] at bare
      cases bare
  | braced _ _ _ ends => exact ends
  | unclosed _ found isOpen _ _ =>
      rw [braced] at found
      cases found
      rw [closed] at isOpen
      cases isOpen

/-- What belongs to a declaration lies in its region, and no later declaration has begun there. -/
theorem exists_split (lie : Consecutive file.stop file.start file.namespaces)
    (here : RegionAt file (some n) offset) : ∃ earlier later, file.namespaces = earlier ++ n :: later ∧
      n.start ≤ offset ∧ offset ≤ (namespaceRegion file.stop n later).stop ∧
      ∀ m ∈ later, offset < m.start := by
  cases here with
  | @unbraced _ _ earlier later split bare begins ends early =>
      refine ⟨earlier, later, split, begins, ?_, early⟩
      simp only [namespaceRegion, bare, Option.isSome_none]
      exact le_nextStart ends early
  | braced mem braced begins ends =>
      obtain ⟨earlier, later, split⟩ := List.append_of_mem mem
      have behind := (split ▸ lie).split.2
      refine ⟨earlier, later, split, begins, ?_, fun m inLater => ?_⟩
      · simp only [namespaceRegion, braced, if_true]
        exact Nat.le_of_lt ends
      · have := behind.start_le m inLater
        omega
  | @unclosed _ _ block earlier later split found isOpen ends early =>
      subst ends
      refine ⟨earlier, later, split, (split ▸ lie).split.1, ?_, early⟩
      simp [namespaceRegion, found]

/-- Conversely, such an offset belongs to the declaration, unless it is the end of a declaration with
braces. -/
theorem of_split (lie : Consecutive file.stop file.start file.namespaces) {earlier later : List Cursor}
    (split : file.namespaces = earlier ++ n :: later) (begins : n.start ≤ offset)
    (ends : offset ≤ (namespaceRegion file.stop n later).stop) (early : ∀ m ∈ later, offset < m.start)
    (inside : n.block?.isSome = true → offset ≠ n.stop) : RegionAt file (some n) offset := by
  by_cases braced : n.block?.isSome = true
  · simp only [namespaceRegion, braced, if_true] at ends
    have apart := inside braced
    exact .braced (split ▸ List.mem_append_right _ List.mem_cons_self) braced begins (by omega)
  · have behind := (split ▸ lie).split
    have le := (stop_namespaceRegion behind.1 behind.2).2
    exact .unbraced split (Option.not_isSome_iff_eq_none.mp braced) begins
      (ends.trans (le.trans behind.2.nextStart_le)) early

/-- **An offset belongs to one declaration at most.** -/
theorem unique (lie : Consecutive file.stop file.start file.namespaces)
    {other? : Option Cursor} (here : RegionAt file declaration? offset)
    (there : RegionAt file other? offset) : other? = declaration? := by
  -- In front of all declarations none has begun.
  have notBoth {m : Cursor} (front : RegionAt file none offset) (at' : RegionAt file (some m) offset) :
      False := by
    obtain ⟨earlier, later, split, begins, -, -⟩ := at'.exists_split lie
    cases front with
    | leading _ _ early =>
        have := early m (split ▸ List.mem_append_right _ List.mem_cons_self)
        omega
  cases declaration? with
  | none =>
      cases other? with
      | none => rfl
      | some m => exact (notBoth here there).elim
  | some n =>
      cases other? with
      | none => exact (notBoth there here).elim
      | some m =>
          obtain ⟨_, _, split, begins, -, early⟩ := here.exists_split lie
          obtain ⟨_, _, split', begins', -, early'⟩ := there.exists_split lie
          rcases split_cases (split.symm.trans split') with ⟨rfl, -⟩ | inLater | inLater
          · rfl
          · have := early m inLater
            omega
          · have := early' n inLater
            omega

/-- **The region of a declaration is in effect where the offsets belong to it.** At the end of a declaration
with braces it still is. -/
theorem exists_region (lie : Consecutive file.stop file.start file.namespaces)
    (here : RegionAt file declaration? offset) :
    ∃ i r, r.name = declaration?.bind Cursor.plainName? ∧ r.imports = [] ∧
      (∀ o, RegionAt file declaration? o → (Regions.withoutImports file).at? o = some (i, r)) ∧
      ∀ o, (∀ m ∈ file.namespaces, m.block?.isSome = true → o ≠ m.stop) →
        (Regions.withoutImports file).at? o = some (i, r) → RegionAt file declaration? o := by
  -- The first region begins with the file; every other one begins with its declaration.
  cases declaration? with
  | none =>
      have room : leadingRegions file file.namespaces =
          [⟨file.start, nextStart file.stop file.namespaces, none, []⟩] := by
        cases here with
        | leading begins _ early => exact leadingRegions_of_early begins early
      have all := Regions.withoutImports_eq file
      rw [room] at all
      have inEffect (o : Nat) := @Regions.at?_append_iff file lie [] _ _ _ o all lie (Nat.le_refl _)
      refine ⟨0, _, rfl, rfl, fun o there => (inEffect o).mpr ?_, fun o _ found => ?_⟩
      · cases there with
        | leading begins ends early => exact ⟨begins, le_nextStart ends early, early⟩
      · obtain ⟨begins, ends, early⟩ := (inEffect o).mp found
        exact .leading begins (ends.trans lie.nextStart_le) early
  | some n =>
      obtain ⟨earlier, later, split, begins, -, early⟩ := here.exists_split lie
      have behind := (split ▸ lie).split
      have all : Regions.withoutImports file =
          (leadingRegions file file.namespaces ++ namespaceRegions n.start earlier) ++
            namespaceRegion file.stop n later :: namespaceRegions file.stop later := by
        rw [Regions.withoutImports_eq, List.append_assoc, ← namespaceRegions_append_cons, ← split]
      have inEffect (o : Nat) := @Regions.at?_append_iff file lie _ _ _ _ o all behind.2
        (stop_namespaceRegion behind.1 behind.2).2
      refine ⟨_, _, rfl, rfl, fun o there => (inEffect o).mpr ?_, fun o inside found => ?_⟩
      · obtain ⟨_, _, split', begins', ends', early'⟩ := there.exists_split lie
        rcases split_cases (split.symm.trans split') with ⟨-, -, rfl⟩ | inLater | inLater
        · exact ⟨begins', ends', early'⟩
        · have := early n inLater
          omega
        · have := early' n inLater
          omega
      · obtain ⟨begins', ends', early'⟩ := (inEffect o).mp found
        exact .of_split lie split begins' ends' early'
          (inside n (split ▸ List.mem_append_right _ List.mem_cons_self))

end RegionAt

end PhpMembers
