import PhpMembers.Proofs.Classes.Instances
import PhpMembers.Proofs.Search.OwnIndex

/-! # An interface in the place of the searched class

If the searched class has the member only from an interface, declarations are compared with the interface
that declares it. Nothing is lost thereby: the searched class and all classes below it are instances of this
interface.

* `PlainInterfaces` : what is named as an interface is one.
* `ClassEntry.isInstanceOf_declaringClass` : an interface is an instance of those from which it has members.
* `isInstanceOf_aim` : what is an instance of the searched class is one of the class compared with.
* `retargeting_widens` : a search finds all declarations that belong to the searched class. -/

namespace PhpMembers

variable {layers : List ClassTable} {entry : ClassEntry} {m : KnownMember}

/-! ## (1) Members of interfaces -/

/-- `PlainInterfaces layers`: whatever a known class-like names as an interface is an interface without a
superclass and without traits, as far as it is known. -/
def PlainInterfaces (layers : List ClassTable) : Prop :=
  ∀ name entry, findIn layers name = some entry → ∀ i ∈ entry.interfaces,
    ∀ e, findIn layers i = some e → e.kind = .interface ∧ e.parent = none ∧ e.traits = []

/-- Such interfaces have no superclass. -/
theorem PlainInterfaces.rooted (plain : PlainInterfaces layers) : RootedInterfaces layers :=
  fun name entry found i mem e known => (plain name entry found i mem e known).2.1

/-- It is enough to look at all entries. -/
theorem plainInterfaces_of_entries
    (plain : ∀ e ∈ entriesOf layers, ∀ i ∈ e.2.interfaces, ∀ d ∈ findIn layers i,
      d.kind = .interface ∧ d.parent = none ∧ d.traits = []) : PlainInterfaces layers :=
  fun _ _ found i mem e known => plain _ (mem_entriesOf_of_findIn found) i mem e known

namespace Snapshot

/-- Whatever is added to a snapshot was there or is among what is added. -/
theorem mem_addMembers {members : List KnownMember} {c : Snapshot}
    (mem : m ∈ (members.foldl addMember c).members) : m ∈ c.members ∨ m ∈ members := by
  induction members generalizing c with
  | nil => exact .inl mem
  | cons first rest ih =>
      rcases ih mem with here | later
      · rw [addMember] at here
        split at here
        · exact .inl here
        · rcases List.mem_append.mp here with old | new
          · exact .inl old
          · exact .inr (List.mem_singleton.mp new ▸ List.mem_cons_self)
      · exact .inr (List.mem_cons_of_mem _ later)

end Snapshot

namespace ClassEntry

/-- The members of a snapshot are among those that the class-like can have. -/
theorem mem_memberCandidates (mem : m ∈ (entry.snapshot layers).members) :
    m ∈ memberCandidates layers entry := by
  refine (Snapshot.mem_addMembers mem).resolve_left fun early => ?_
  -- Names come first, so there are no members yet.
  rw [Snapshot.foldl_keeps Snapshot.members Snapshot.members_addInterface,
    Snapshot.foldl_keeps Snapshot.members Snapshot.members_addAncestor] at early
  cases early

/-- A member of an entry is declared by it. -/
theorem declaringClass_of_mem (mem : m ∈ entry.knownMembers) : m.declaringClass = entry.name := by
  obtain ⟨own, -, rfl⟩ := List.mem_map.mp mem
  rfl

/-- **An interface is an instance of those from which it has its members**: itself, or one that it extends. -/
theorem isInstanceOf_declaringClass (keyed : ∀ table ∈ layers, table.Keyed)
    (known : findIn layers entry.name = some entry) (rooted : entry.parent = none)
    (bare : entry.traits = []) (mem : m ∈ (entry.snapshot layers).members) :
    (entry.snapshot layers).isInstanceOf m.declaringClass = true := by
  rw [isInstanceOf_snapshot_iff known]
  have candidate := mem_memberCandidates mem
  rw [memberCandidates] at candidate
  -- Without a parent and without traits, a member is its own or comes from an interface above.
  rcases List.mem_append.mp candidate with inChain | inherited
  · obtain ⟨e, onChain, isMember⟩ := List.mem_flatMap.mp inChain
    have self := classChain_of_parent_eq_none known rooted onChain
    subst self
    rcases List.mem_append.mp isMember with own | ofTraits
    · exact .inl (by rw [declaringClass_of_mem own])
    · obtain ⟨e', used, -⟩ := List.mem_flatMap.mp ofTraits
      obtain ⟨name, reached, -⟩ := List.mem_filterMap.mp used
      have linked := (explored_exploreEntries layers (·.traits) [] e.traits).linked name reached
      rw [bare] at linked
      exact absurd linked not_linked_nil
  · split at inherited
    · obtain ⟨e, above, mem⟩ := List.mem_flatMap.mp inherited
      obtain ⟨i, reached, found⟩ := List.mem_filterMap.mp above
      refine .inr (.inr ⟨i, (explored_reachedInterfaces layers entry).linked i reached, ?_⟩)
      rw [declaringClass_of_mem mem, key_of_findIn keyed found]
    · cases inherited

end ClassEntry

/-! ## (2) The class with which declarations are compared -/

/-- A class-like is an instance of each interface that it lists, and these are named as interfaces. -/
theorem isInstanceOf_of_mem_interfaces (known : findIn layers entry.name = some entry) {i : ClassName}
    (mem : i ∈ (entry.snapshot layers).interfaces) :
    (entry.snapshot layers).isInstanceOf i = true ∧
      ∃ n e, findIn layers n = some e ∧ i ∈ e.interfaces := by
  rw [(entry.ancestors_interfaces_snapshot layers).2] at mem
  have linked := (explored_reachedInterfaces layers entry).linked i mem
  exact ⟨(isInstanceOf_snapshot_iff known).mpr (.inr (.inr ⟨i, linked, rfl⟩)),
    exists_entry_of_linked known linked⟩

/-- **Whatever is an instance of the searched class is one of the class with which declarations are
compared.** -/
theorem isInstanceOf_aim (keyed : ∀ table ∈ layers, table.Keyed) (plain : PlainInterfaces layers)
    {analysis : Analysis} (asks : analysis.snapshot? = snapshot? layers) {q : Query} {target : ClassName}
    (owner : q.owner = some target) {wanted : ClassName} (aim : Aim analysis q wanted) {name : ClassName}
    {c : Snapshot} (known : snapshot? layers name = some c) (below : c.isInstanceOf target = true) :
    c.isInstanceOf wanted = true := by
  have same {other : ClassName} (owner' : q.owner = some other) : c.isInstanceOf other = true := by
    rw [owner] at owner'
    cases owner'
    exact below
  cases aim with
  | allMembers owner' _ => exact same owner'
  | unknown owner' _ => exact same owner'
  | own owner' _ _ _ => exact same owner'
  | noInterface owner' _ _ _ => exact same owner'
  | @interface other i member t d m before after owner' _ knownT _ interfaces _ seen found =>
      rw [owner] at owner'
      cases owner'
      rw [asks] at knownT seen
      -- From the class to the searched class, to its interface, and to the one that declares the member.
      obtain ⟨e, knownE, -, rfl⟩ := exists_entry_of_snapshot? keyed knownT
      obtain ⟨f, knownF, sameKey, rfl⟩ := exists_entry_of_snapshot? keyed seen
      have listed : i ∈ (e.snapshot layers).interfaces := by
        rw [interfaces]
        exact List.mem_append_right _ List.mem_cons_self
      obtain ⟨ofInterface, n, g, foundBelow, mem⟩ := isInstanceOf_of_mem_interfaces knownE listed
      obtain ⟨-, rooted, bare⟩ := plain n g foundBelow i mem f ((findIn_congr layers sameKey).symm.trans knownF)
      have ofDeclaring := f.isInstanceOf_declaringClass keyed knownF rooted bare
        (List.mem_of_find?_eq_some found)
      have ofI := Snapshot.isInstanceOf_trans_of_keyed keyed plain.rooted known below knownT ofInterface
      exact Snapshot.isInstanceOf_trans_of_keyed keyed plain.rooted known ofI seen ofDeclaring

/-! ## (3) Declarations that are found -/

/-- **Which declarations are accepted for a class**: those whose name is spelled out in the body of a
class-like that can be looked up and is a trait or an instance of the class. -/
theorem Search.declaration_accepted_iff {s : Search} {target : ClassName} {site : Site}
    (declares : site.isDeclaration = true) {o : Occurrence} :
    (s.verdict (some target) site).occurrence = some o ↔
      ∃ token owner c, site.name = .literal token ∧ s.regions.enclosingClass? site.node = some owner ∧
        s.analysis.snapshot? owner = some c ∧ (c.kind = .trait ∨ c.isInstanceOf target = true) ∧
        o = site.occurrence token (some owner) := by
  have shape : site.shape = .declaration := beq_iff_eq.mp declares
  constructor
  · intro accepted
    cases name : site.name with
    | literal token =>
        rw [verdict, name, shape] at accepted
        cases enclosing : s.regions.enclosingClass? site.node with
        | none =>
            rw [enclosing] at accepted
            cases accepted
        | some owner =>
            rw [enclosing] at accepted
            cases known : s.analysis.snapshot? owner with
            | none =>
                simp only [declarationVerdict, known] at accepted
                cases accepted
            | some c =>
                simp only [declarationVerdict, known] at accepted
                by_cases allowed : c.kind = .trait ∨ c.isInstanceOf target = true
                · rw [if_pos allowed] at accepted
                  cases accepted
                  exact ⟨token, owner, c, rfl, rfl, known, allowed,
                    (site.occurrence_of_declaration shape token (some owner)).symm⟩
                · rw [if_neg allowed] at accepted
                  cases accepted
    | computed part =>
        rw [verdict, name] at accepted
        cases accepted
    | missing =>
        rw [verdict, name, declares] at accepted
        cases accepted
  · rintro ⟨token, owner, c, name, enclosing, known, allowed, rfl⟩
    unfold verdict
    simp only [name, shape, enclosing, declarationVerdict, known, if_pos allowed]
    rw [site.occurrence_of_declaration shape]
    rfl

/-- **An interface in the place of the searched class only adds declarations.** A session has collected any
entries; whatever they name as an interface is an interface without a superclass and without traits. Then a
search for a member of a class finds each declaration that would be accepted if declarations were compared
with the searched class itself, with the same range and owner; and whatever is an instance of the searched
class is one of the class with which declarations are compared instead. -/
theorem retargeting_widens (hash : Text → UInt64) (entries : List ClassEntry) (cache : Cache)
    (plain : PlainInterfaces [.ofEntries entries]) (source : Text) (target : ClassName)
    (member : MemberName) (kind : Option MemberKind) :
    (∃ report, ((Session.mk (.ofEntries entries) cache).findMembers hash source
      ⟨some target, some member, kind⟩ ⟨true, false⟩).1 = .ok report) ∧
    (∀ strict report, ((Session.mk (.ofEntries entries) cache).findMembers hash source
        ⟨some target, some member, kind⟩ ⟨true, strict⟩).1 = .ok report →
      ∀ site ∈ Query.sites ⟨some target, some member, kind⟩ true (.ofText source),
        site.isDeclaration = true → ∀ o,
        ((Search.ofText (.ofSession ⟨.ofEntries entries, cache⟩ hash) source
          ⟨some target, some member, kind⟩).verdict (some target) site).occurrence = some o →
        o ∈ report.occurrences) ∧
    ∀ wanted, (declarationTarget (.ofSession ⟨.ofEntries entries, cache⟩ hash)
        ⟨some target, some member, kind⟩).owner = some wanted →
      ∀ name c, (Session.mk (.ofEntries entries) cache).snapshot? name = some c →
        c.isInstanceOf target = true → c.isInstanceOf wanted = true := by
  let s : Session := ⟨.ofEntries entries, cache⟩
  let q : Query := ⟨some target, some member, kind⟩
  have keyed : ∀ table ∈ [ClassTable.ofEntries entries], table.Keyed :=
    List.forall_mem_singleton.mpr (ClassTable.keyed_ofEntries entries)
  have wider {analysis : Analysis} (asks : analysis.snapshot? = s.snapshot?) {wanted : ClassName}
      (aim : (declarationTarget analysis q).owner = some wanted) (name : ClassName) (c : Snapshot)
      (known : s.snapshot? name = some c) (below : c.isInstanceOf target = true) :
      c.isInstanceOf wanted = true :=
    isInstanceOf_aim keyed plain asks rfl (aim_iff.mpr aim) known below
  obtain ⟨analysis, search_eq, asks⟩ := s.exists_analysis hash source
  refine ⟨⟨_, (search_eq q _).trans (findMembers_lenient analysis source q true)⟩, ?_,
    fun wanted aim => wider rfl aim⟩
  intro strict report ok site mem declares o accepted
  rw [search_eq] at ok
  obtain ⟨wanted, aim⟩ := exists_aim analysis (q := q) rfl
  rw [Query.sites_eq] at mem
  obtain ⟨inFile, chosen⟩ := List.mem_filter.mp mem
  rw [findMembers_occurrences ok]
  refine List.mem_filterMap.mpr ⟨site, inFile, ?_⟩
  have answer : (Search.ofText analysis source q).answer? true site =
      ((Search.ofText analysis source q).verdict (declarationTarget analysis q).owner site).occurrence :=
    if_pos chosen
  rw [answer, aim]
  obtain ⟨token, owner, c, named, enclosing, known, allowed, rfl⟩ :=
    (Search.declaration_accepted_iff declares).mp accepted
  have snapshot : analysis.snapshot? owner = some c := by
    rw [asks]
    exact known
  exact (Search.declaration_accepted_iff declares).mpr ⟨token, owner, c, named, enclosing, snapshot,
    allowed.imp_right (wider asks aim owner c known), rfl⟩

/-- An interface that extends the one with the method, a class-like that implements it without the method, and
a class below with the method. -/
def methodBelow : Text :=
  ("<?php interface I \x7b function f(); \x7d interface J extends I \x7b\x7d " ++
    "abstract class T implements J \x7b\x7d class U extends T \x7b function f() \x7b\x7d \x7d").toList

/-- The search for the method of the class in the middle compares with `I` and finds the method below. -/
theorem retargeting_widens_methodBelow :
    PlainInterfaces [.ofEntries (ClassEntry.allOfText methodBelow)] ∧
    (declarationTarget (.ofSession ⟨.ofEntries (ClassEntry.allOfText methodBelow), .empty⟩ textHash)
        ⟨some ⟨['T']⟩, some ⟨['f']⟩, none⟩).owner = some ⟨['I']⟩ ∧
    ∃ report, ((Session.mk (.ofEntries (ClassEntry.allOfText methodBelow)) .empty).findMembers textHash
        methodBelow ⟨some ⟨['T']⟩, some ⟨['f']⟩, none⟩ ⟨true, false⟩).1 = .ok report ∧
      ∃ o ∈ report.occurrences, o.owner = some ⟨['U']⟩ := by
  have plain : PlainInterfaces [.ofEntries (ClassEntry.allOfText methodBelow)] :=
    plainInterfaces_of_entries (by decide +kernel)
  obtain ⟨⟨report, ok⟩, finds, -⟩ :=
    retargeting_widens textHash _ .empty plain methodBelow ⟨['T']⟩ ⟨['f']⟩ none
  have compared : (declarationTarget
      (.ofSession ⟨.ofEntries (ClassEntry.allOfText methodBelow), .empty⟩ textHash)
      ⟨some ⟨['T']⟩, some ⟨['f']⟩, none⟩).owner = some ⟨['I']⟩ := by decide +kernel
  have below : ((Query.sites ⟨some ⟨['T']⟩, some ⟨['f']⟩, none⟩ true (.ofText methodBelow)).any fun site =>
      site.isDeclaration && ((Search.ofText
        (.ofSession ⟨.ofEntries (ClassEntry.allOfText methodBelow), .empty⟩ textHash) methodBelow
        ⟨some ⟨['T']⟩, some ⟨['f']⟩, none⟩).verdict (some ⟨['T']⟩) site).occurrence.any
          (·.owner == some ⟨['U']⟩)) = true := by
    decide +kernel
  obtain ⟨site, mem, fits⟩ := List.any_eq_true.mp below
  obtain ⟨declares, accepted⟩ := Bool.and_eq_true_iff.mp fits
  obtain ⟨o, accepted, owner⟩ := (Option.any_eq_true _ _).mp accepted
  exact ⟨plain, compared, report, ok, o, finds false report ok site mem declares o accepted,
    beq_iff_eq.mp owner⟩

end PhpMembers
