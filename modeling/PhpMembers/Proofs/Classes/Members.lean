import Mathlib.Data.List.DropRight
import Mathlib.Data.List.Forall2
import PhpMembers.Proofs.Classes.Ancestry

/-! # The members of a class-like

A class-like has its own members, those of its traits, and the members of what is above it. Where two of them
have one kind and one name, the first of them hides the other.

* `BreadthFirst` : names by their distance from the first ones, each name once.
* `Explored.breadthFirst` : a loop that takes names from a queue meets them by distance.
* `visible` : the members of a sequence that no earlier one hides.
* `Snapshot.members_addMembers`, `find?_visible` : what is added to a snapshot, and what is found in it.
* `MembersInTurn` : the order in which members are offered to a class-like.
* `snapshot_members_in_turn` : the members of a snapshot. -/

namespace PhpMembers

variable {layers : List ClassTable} {entry : ClassEntry} {seen : List Text} {names reached : List ClassName}
  {next : ClassName → List ClassName}

/-! ## (1) Names by distance -/

/-- `BreadthFirst next seen names reached`: of the given names those that have not been seen come first, then
the new ones among the names next to these, and so on until nothing new comes up. -/
inductive BreadthFirst (next : ClassName → List ClassName) :
    List Text → List ClassName → List ClassName → Prop
  /-- No name is new. -/
  | done {seen : List Text} {names : List ClassName} (old : newNames seen names = []) :
      BreadthFirst next seen names []
  /-- The new names, and what lies behind them. -/
  | level {seen : List Text} {names reached : List ClassName} (new : newNames seen names ≠ [])
      (behind : BreadthFirst next (((newNames seen names).map ClassName.key).reverse ++ seen)
        ((newNames seen names).flatMap next) reached) :
      BreadthFirst next seen names (newNames seen names ++ reached)

/-- There is one such order. -/
theorem BreadthFirst.unique {reached' : List ClassName} (first : BreadthFirst next seen names reached)
    (second : BreadthFirst next seen names reached') : reached = reached' := by
  induction first generalizing reached' with
  | done old =>
      cases second with
      | done _ => rfl
      | level new _ => exact absurd old new
  | level new _ ih =>
      cases second with
      | done old => exact absurd old new
      | level _ behind => rw [ih behind]

/-- What is in front in the queue is met first. After that the loop goes on with what was behind it, followed
by the links of what has been met. -/
theorem Explored.exists_behind {front back : List ClassName}
    (explored : Explored next seen (front ++ back) reached) :
    ∃ later, reached = newNames seen front ++ later ∧
      Explored next (((newNames seen front).map ClassName.key).reverse ++ seen)
        (back ++ (newNames seen front).flatMap next) later := by
  induction front generalizing seen back reached with
  | nil =>
      refine ⟨reached, rfl, ?_⟩
      have none : newNames seen [] = [] := rfl
      rw [none, List.flatMap_nil, List.append_nil]
      exact explored
  | cons name front ih =>
      cases explored with
      | skip old rest =>
          rw [newNames_of_mem old]
          exact ih rest
      | @visit _ _ _ met new rest =>
          rw [List.append_eq, List.append_assoc] at rest
          obtain ⟨later, rfl, behind⟩ := ih rest
          rw [newNames_of_notMem new]
          refine ⟨later, rfl, ?_⟩
          rwa [List.map_cons, List.reverse_cons, List.append_assoc, List.singleton_append, List.flatMap_cons,
            ← List.append_assoc back]

/-- **A loop meets names by distance.** -/
theorem Explored.breadthFirst (explored : Explored next seen names reached) :
    BreadthFirst next seen names reached := by
  -- The induction is on the number of names that are met: behind a level there are fewer.
  induction met : reached.length using Nat.strongRecOn generalizing seen names reached with
  | ind n ih =>
      rw [← List.append_nil names] at explored
      obtain ⟨later, rfl, behind⟩ := explored.exists_behind
      rw [List.nil_append] at behind
      by_cases old : newNames seen names = []
      · rw [old] at behind ⊢
        cases behind
        exact .done old
      · refine .level old (ih later.length ?_ behind rfl)
        have some := List.length_pos_iff.mpr old
        rw [List.length_append] at met
        omega

/-! ## (2) Members that hide others -/

/-- Whether a member hides another one that comes later: the kind is the same, and the names denote the same
member. -/
def KnownMember.hides (first second : KnownMember) : Bool :=
  first.kind == second.kind && first.kind.namesMatch first.name.text second.name.text

/-- The members of a sequence that no earlier one hides, be it one that is hidden itself. -/
def visible (earlier : List KnownMember) : List KnownMember → List KnownMember
  | [] => []
  | m :: rest =>
    if earlier.any (·.hides m) then visible (m :: earlier) rest else m :: visible (m :: earlier) rest

/-- The kind of a member with its name, in lower case where letter case does not matter. -/
def KnownMember.slot (m : KnownMember) : MemberKind × Text :=
  (m.kind, if m.kind = .method then lowerCase m.name.text else m.name.text)

/-- Names denote the same member if they are equal, apart from letter case for a method. -/
theorem MemberKind.namesMatch_iff (kind : MemberKind) (a b : Text) :
    kind.namesMatch a b = true ↔
      (if kind = .method then lowerCase a else a) = if kind = .method then lowerCase b else b := by
  cases kind with
  | method => exact beq_iff_eq
  | property => exact beq_iff_eq
  | constant => exact beq_iff_eq

/-- Members hide each other that have one slot. -/
theorem KnownMember.hides_iff {first second : KnownMember} :
    first.hides second = true ↔ first.slot = second.slot := by
  rw [hides, Bool.and_eq_true, beq_iff_eq, MemberKind.namesMatch_iff, slot, slot, Prod.mk.injEq]
  constructor
  · rintro ⟨kind, name⟩
    rw [kind] at name
    exact ⟨kind, by rw [kind, name]⟩
  · rintro ⟨kind, name⟩
    rw [kind] at name
    exact ⟨kind, by rw [kind, name]⟩

/-- What is hidden by an earlier member depends on its slot. -/
theorem any_hides_iff {earlier : List KnownMember} {m : KnownMember} :
    earlier.any (·.hides m) = true ↔ m.slot ∈ earlier.map KnownMember.slot := by
  simp only [List.any_eq_true, KnownMember.hides_iff, List.mem_map]

/-- **A search finds the first member of the whole sequence**, if its condition is one on slots. -/
theorem find?_visible {test : KnownMember → Bool}
    (onSlots : ∀ a b : KnownMember, a.slot = b.slot → test a = test b) {earlier : List KnownMember}
    (failed : ∀ m ∈ earlier, test m = false) (members : List KnownMember) :
    (visible earlier members).find? test = members.find? test := by
  induction members generalizing earlier with
  | nil => rfl
  | cons m rest ih =>
      rw [visible]
      by_cases hit : test m = true
      · -- A hidden member fails as the one does that hides it.
        have shown : ¬earlier.any (·.hides m) = true := by
          rw [any_hides_iff, List.mem_map]
          rintro ⟨other, mem, same⟩
          rw [onSlots m other same.symm, failed other mem] at hit
          cases hit
        rw [if_neg shown, List.find?_cons_of_pos hit, List.find?_cons_of_pos hit]
      · have later : ∀ other ∈ m :: earlier, test other = false :=
          List.forall_mem_cons.mpr ⟨Bool.eq_false_iff.mpr hit, failed⟩
        rw [List.find?_cons_of_neg hit]
        split
        · exact ih later
        · rw [List.find?_cons_of_neg hit]
          exact ih later

/-! ## (3) Members of snapshots -/

/-- Every member name of the entry is without a leading `$`. -/
def ClassEntry.PlainNames (entry : ClassEntry) : Prop :=
  ∀ m ∈ entry.members, dropLeading '$' m.name.text = m.name.text

/-- Names from the syntax have no leading `$`. -/
theorem MemberName.dropLeading_ofSyntax (text : Text) :
    dropLeading '$' (ofSyntax text).text = (ofSyntax text).text :=
  List.dropWhile_idempotent _ _

/-- **The entries of a source have plain member names.** -/
theorem ClassEntry.plainNames_of_mem_allOfText {source : Text} (mem : entry ∈ allOfText source) :
    entry.PlainNames := by
  obtain ⟨declaration, -, isEntry⟩ := List.mem_filterMap.mp mem
  obtain ⟨owner, -, rfl⟩ := Option.map_eq_some_iff.mp isEntry
  intro m inMembers
  simp only [List.mem_append, List.mem_flatMap, List.mem_filterMap] at inMembers
  rcases inMembers with ((⟨method, -, mem⟩ | ⟨property, -, mem⟩) | ⟨constant, -, mem⟩) | ⟨enumCase, -, mem⟩
  · rw [methodMembers] at mem
    split at mem
    · cases mem
    · rcases List.mem_cons.mp mem with rfl | promoted
      · exact MemberName.dropLeading_ofSyntax _
      · obtain ⟨param, -, isMember⟩ := List.mem_filterMap.mp promoted
        obtain ⟨token, -, rfl⟩ := Option.map_eq_some_iff.mp isMember
        exact MemberName.dropLeading_ofSyntax _
  · obtain ⟨element, -, isMember⟩ := List.mem_filterMap.mp mem
    obtain ⟨token, -, rfl⟩ := Option.map_eq_some_iff.mp isMember
    exact MemberName.dropLeading_ofSyntax _
  · obtain ⟨element, -, isMember⟩ := List.mem_filterMap.mp mem
    obtain ⟨token, -, rfl⟩ := Option.map_eq_some_iff.mp isMember
    exact MemberName.dropLeading_ofSyntax _
  · obtain ⟨token, -, rfl⟩ := Option.map_eq_some_iff.mp mem
    exact MemberName.dropLeading_ofSyntax _

/-- What holds of the entries that are listed and of those that are added holds of all listed afterwards. -/
theorem ClassTable.forall_entries_insertAll {good : ClassEntry → Prop} {entries : List ClassEntry}
    (all : ∀ entry ∈ entries, good entry) (table : ClassTable) (old : ∀ e ∈ table.entries, good e.2) :
    ∀ e ∈ (table.insertAll entries).entries, good e.2 := by
  have added {entry : ClassEntry} (fits : good entry) (listed : List (Text × ClassEntry))
      (old : ∀ e ∈ listed, good e.2) : ∀ e ∈ insertEntry entry.name.key entry listed, good e.2 := by
    induction listed with
    | nil => simpa [insertEntry] using fits
    | cons first rest ih =>
        obtain ⟨here, there⟩ := List.forall_mem_cons.mp old
        rw [insertEntry]
        split
        · exact List.forall_mem_cons.mpr ⟨fits, there⟩
        · exact List.forall_mem_cons.mpr ⟨here, ih there⟩
  induction entries generalizing table with
  | nil => exact old
  | cons entry rest ih =>
      obtain ⟨here, there⟩ := List.forall_mem_cons.mp all
      exact ih there _ (added here table.entries old)

/-- Whatever is found in tables that are made of entries is as good as these. -/
theorem good_of_findIn {good : ClassEntry → Prop} {files : List (List ClassEntry)}
    (all : ∀ entries ∈ files, ∀ entry ∈ entries, good entry) {name : ClassName}
    (found : findIn (files.map .ofEntries) name = some entry) : good entry := by
  obtain ⟨table, isTable, mem⟩ := List.mem_flatMap.mp (mem_entriesOf_of_findIn found)
  obtain ⟨entries, inFiles, rfl⟩ := List.mem_map.mp isTable
  refine ClassTable.forall_entries_insertAll (all entries inFiles) .empty (fun e mem => ?_) _ mem
  cases mem

namespace Snapshot

/-- A member is there if one with its slot is listed. -/
theorem hasMember_iff_slot (c : Snapshot) {m : KnownMember}
    (plain : dropLeading '$' m.name.text = m.name.text) :
    c.hasMember (some m.kind) m.name.text = true ↔ m.slot ∈ c.members.map KnownMember.slot := by
  rw [← any_hides_iff, hasMember, member?, List.find?_isSome, List.any_eq_true, plain]
  refine exists_congr fun other => and_congr_right fun _ => ?_
  rw [KnownMember.hides, Option.isNone_some, Bool.false_or, Bool.and_eq_true, Bool.and_eq_true, beq_iff_eq,
    beq_iff_eq, Option.some.injEq, eq_comm]

/-- **Of the members that are added, those are listed that no earlier one hides.** The members listed before
stand for the slots of all earlier ones. -/
theorem members_addMembers {members earlier : List KnownMember} {c : Snapshot}
    (listed : ∀ slot, slot ∈ c.members.map KnownMember.slot ↔ slot ∈ earlier.map KnownMember.slot)
    (plain : ∀ m ∈ members, dropLeading '$' m.name.text = m.name.text) :
    (members.foldl addMember c).members = c.members ++ visible earlier members := by
  induction members generalizing c earlier with
  | nil => rw [List.foldl_nil, visible, List.append_nil]
  | cons m rest ih =>
      obtain ⟨here, there⟩ := List.forall_mem_cons.mp plain
      have hidden := (c.hasMember_iff_slot here).trans ((listed m.slot).trans any_hides_iff.symm)
      rw [List.foldl_cons, addMember, visible]
      by_cases old : earlier.any (·.hides m) = true
      · rw [if_pos old, if_pos (hidden.mpr old)]
        refine ih (fun slot => ?_) there
        rw [listed, List.map_cons, List.mem_cons]
        exact ⟨.inr, fun mem => mem.elim (fun same => same ▸ any_hides_iff.mp old) id⟩
      · rw [if_neg old, if_neg (mt hidden.mp old), ih (fun slot => ?_) there, List.append_assoc,
          List.singleton_append]
        rw [List.map_append, List.mem_append, listed, List.map_singleton, List.mem_singleton, List.map_cons,
          List.mem_cons, or_comm]

end Snapshot

/-! ## (4) The order of members -/

/-- `OwnThenTraits layers entry members`: the members of the entry, then those of its traits, the nearest
traits first. -/
def OwnThenTraits (layers : List ClassTable) (entry : ClassEntry) (members : List KnownMember) : Prop :=
  ∃ traits, BreadthFirst (linksOf layers (·.traits)) [] entry.traits traits ∧
    members = entry.knownMembers ++ (traits.filterMap (findIn layers)).flatMap (·.knownMembers)

/-- `MembersInTurn layers entry interfaces members`: the members of the entry and its traits, the same for
each class on the parent chain and, for an interface, the members of the given interfaces above it. -/
inductive MembersInTurn (layers : List ClassTable) (entry : ClassEntry) (interfaces : List ClassName) :
    List KnownMember → Prop
  /-- The members of each class on the chain, with the chain itself. -/
  | mk {chain : List ClassName} {parts : List (List KnownMember)}
      (up : ParentChain layers [entry.name.key] entry.parent chain)
      (each : List.Forall₂ (OwnThenTraits layers) (entry :: chain.filterMap (findIn layers)) parts) :
      MembersInTurn layers entry interfaces (parts.flatten ++
        if entry.kind = .interface then (interfaces.filterMap (findIn layers)).flatMap (·.knownMembers)
        else [])

/-- There is one order of the members of an entry and its traits. -/
theorem OwnThenTraits.unique {members members' : List KnownMember} (first : OwnThenTraits layers entry members)
    (second : OwnThenTraits layers entry members') : members = members' := by
  obtain ⟨traits, order, rfl⟩ := first
  obtain ⟨traits', order', rfl⟩ := second
  rw [order.unique order']

/-- There is one order of all members. -/
theorem MembersInTurn.unique {interfaces : List ClassName} {members members' : List KnownMember}
    (first : MembersInTurn layers entry interfaces members)
    (second : MembersInTurn layers entry interfaces members') : members = members' := by
  obtain @⟨chain, parts, up, each⟩ := first
  obtain @⟨chain', parts', up', each'⟩ := second
  have single : Relator.RightUnique (OwnThenTraits layers) := fun _ _ _ => OwnThenTraits.unique
  rw [up.unique up'] at each
  rw [List.right_unique_forall₂' single each each']

/-- **The members that a class-like can have come in this order.** -/
theorem membersInTurn_memberCandidates (layers : List ClassTable) (entry : ClassEntry) :
    MembersInTurn layers entry (entry.snapshot layers).interfaces (memberCandidates layers entry) := by
  have each (e : ClassEntry) : OwnThenTraits layers e
      (e.knownMembers ++ ((reachedTraits layers e).filterMap (findIn layers)).flatMap (·.knownMembers)) :=
    ⟨_, (explored_exploreEntries layers (·.traits) [] e.traits).breadthFirst, rfl⟩
  rw [memberCandidates, (entry.ancestors_interfaces_snapshot layers).2, List.flatMap_def]
  refine .mk (parentChain_superclasses layers entry) ?_
  rw [classChain, List.forall₂_map_right_iff]
  exact List.forall₂_same.mpr fun e _ => each e

/-- Only entries that are known offer members. -/
theorem exists_entry_of_mem_memberCandidates {m : KnownMember} (mem : m ∈ memberCandidates layers entry) :
    ∃ e, (e = entry ∨ ∃ name, findIn layers name = some e) ∧ m ∈ e.knownMembers := by
  have ofNames {names : List ClassName}
      (mem : m ∈ (names.filterMap (findIn layers)).flatMap (·.knownMembers)) :
      ∃ e, (e = entry ∨ ∃ name, findIn layers name = some e) ∧ m ∈ e.knownMembers := by
    obtain ⟨e, isEntry, own⟩ := List.mem_flatMap.mp mem
    obtain ⟨name, -, found⟩ := List.mem_filterMap.mp isEntry
    exact ⟨e, .inr ⟨name, found⟩, own⟩
  rw [memberCandidates] at mem
  rcases List.mem_append.mp mem with ofChain | ofInterface
  · obtain ⟨e, inChain, own | ofTrait⟩ := by simpa only [List.mem_flatMap, List.mem_append] using ofChain
    · refine ⟨e, (mem_classChain.mp inChain).imp_right ?_, own⟩
      rintro ⟨name, -, found⟩
      exact ⟨name, found⟩
    · exact ofNames (List.mem_flatMap.mpr ofTrait)
  · split at ofInterface
    · exact ofNames ofInterface
    · cases ofInterface

/-- **The members of a snapshot are those that no earlier one hides**, whatever the tables contain. They are
made of any entries, so parents and traits may lead in circles or to names without an entry; there is one
order of members all the same. A member of a given kind and name is the first in this order, with the class-like
that declares it, and there is none if no member of the order has this kind and name. -/
theorem snapshot_members_in_turn (files : List (List ClassEntry)) (name : ClassName) (entry : ClassEntry)
    (plain : ∀ entries ∈ files, ∀ e ∈ entries, e.PlainNames)
    (found : findIn (files.map .ofEntries) name = some entry) :
    ∃ c members, snapshot? (files.map .ofEntries) name = some c ∧
      MembersInTurn (files.map .ofEntries) entry c.interfaces members ∧
      (∀ others, MembersInTurn (files.map .ofEntries) entry c.interfaces others → others = members) ∧
      c.members = visible [] members ∧
      ∀ kind wanted, c.member? (some kind) wanted = members.find? fun m =>
        m.kind == kind && kind.namesMatch m.name.text (dropLeading '$' wanted) := by
  have order := membersInTurn_memberCandidates (files.map .ofEntries) entry
  have members : (entry.snapshot (files.map .ofEntries)).members =
      visible [] (memberCandidates (files.map .ofEntries) entry) := by
    have bare : ((reachedInterfaces (files.map .ofEntries) entry).foldl Snapshot.addInterface
        ((superclasses (files.map .ofEntries) entry).foldl Snapshot.addAncestor
          (.empty entry.name entry.kind))).members = [] := by
      rw [Snapshot.foldl_keeps Snapshot.members Snapshot.members_addInterface,
        Snapshot.foldl_keeps Snapshot.members Snapshot.members_addAncestor]
      rfl
    rw [ClassEntry.snapshot, @Snapshot.members_addMembers _ [] _ (fun slot => by rw [bare]) fun m mem => ?_,
      bare, List.nil_append]
    obtain ⟨e, known, own⟩ := exists_entry_of_mem_memberCandidates mem
    obtain ⟨declared, inEntry, rfl⟩ := List.mem_map.mp own
    have plainEntry : e.PlainNames := by
      rcases known with rfl | ⟨other, found⟩
      · exact good_of_findIn plain found
      · exact good_of_findIn plain found
    exact plainEntry declared inEntry
  refine ⟨entry.snapshot _, _, by rw [snapshot?, found, Option.map_some], order,
    fun others same => same.unique order, members, fun kind wanted => ?_⟩
  have test : (fun m : KnownMember => (Option.isNone (some kind) || some kind == some m.kind) &&
      m.kind.namesMatch m.name.text (dropLeading '$' wanted)) = fun m =>
        m.kind == kind && kind.namesMatch m.name.text (dropLeading '$' wanted) := by
    funext m
    by_cases same : m.kind = kind
    · simp [same]
    · rw [beq_eq_false_iff_ne.mpr same, Option.isNone_some, Bool.false_or, Bool.false_and,
        beq_eq_false_iff_ne.mpr fun equal => same (Option.some.inj equal).symm, Bool.false_and]
  rw [Snapshot.member?, members, test]
  refine find?_visible (fun a b same => ?_) (by simp) _
  obtain ⟨kinds, texts⟩ := Prod.mk.inj same
  by_cases wrong : a.kind = kind
  · subst wrong
    rw [← kinds] at texts
    rw [← kinds, beq_self_eq_true, Bool.true_and, Bool.true_and, Bool.eq_iff_iff, MemberKind.namesMatch_iff,
      MemberKind.namesMatch_iff, texts]
  · rw [← kinds, beq_eq_false_iff_ne.mpr wrong, Bool.false_and, Bool.false_and]

/-- A member of which only kind and name are declared. -/
def MemberEntry.bare (kind : MemberKind) (name : Text) : MemberEntry := ⟨kind, ⟨name⟩, false, .unknown⟩

/-- Two classes that extend each other, with three traits that use each other. -/
def circularTraits : List ClassEntry :=
  [⟨⟨['A']⟩, .plain, some ⟨['B']⟩, [], [⟨['T']⟩, ⟨['u']⟩], [.bare .method ['f'], .bare .constant ['F']]⟩,
    ⟨⟨['B']⟩, .plain, some ⟨['a']⟩, [], [⟨['V']⟩],
      [.bare .method ['F'], .bare .method ['g'], .bare .method ['h']]⟩,
    ⟨⟨['T']⟩, .trait, none, [], [⟨['V']⟩], [.bare .method ['G'], .bare .property ['p']]⟩,
    ⟨⟨['U']⟩, .trait, none, [], [⟨['t']⟩, ⟨['V']⟩], [.bare .property ['q']]⟩,
    ⟨⟨['V']⟩, .trait, none, [], [⟨['U']⟩, ⟨['W']⟩], [.bare .property ['p'], .bare .property ['P']]⟩]

/-- The first of these classes. Method names match in any letter case, other names do not. -/
theorem snapshot_members_in_turn_circularTraits :
    ((snapshot? ([circularTraits].map .ofEntries) ⟨['a']⟩).map fun c =>
        c.members.map fun m => (m.kind, m.name.text, m.declaringClass.text)) =
      some [(.method, ['f'], ['A']), (.constant, ['F'], ['A']), (.method, ['G'], ['T']),
        (.property, ['p'], ['T']), (.property, ['q'], ['U']), (.property, ['P'], ['V']),
        (.method, ['h'], ['B'])] ∧
    ∃ entry, findIn ([circularTraits].map .ofEntries) ⟨['a']⟩ = some entry ∧
      ∃ c members, snapshot? ([circularTraits].map .ofEntries) ⟨['a']⟩ = some c ∧
        MembersInTurn ([circularTraits].map .ofEntries) entry c.interfaces members ∧
        (∀ others, MembersInTurn ([circularTraits].map .ofEntries) entry c.interfaces others →
          others = members) ∧
        c.members = visible [] members ∧
        ∀ kind wanted, c.member? (some kind) wanted = members.find? fun m =>
          m.kind == kind && kind.namesMatch m.name.text (dropLeading '$' wanted) := by
  have known : (findIn ([circularTraits].map .ofEntries) ⟨['a']⟩).isSome = true := by decide
  obtain ⟨entry, found⟩ := Option.isSome_iff_exists.mp known
  have plain : ∀ entries ∈ [circularTraits], ∀ e ∈ entries, ∀ m ∈ e.members,
      dropLeading '$' m.name.text = m.name.text := by decide
  exact ⟨by decide, entry, found, snapshot_members_in_turn _ _ entry plain found⟩

end PhpMembers
