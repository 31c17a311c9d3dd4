import PhpMembers.Proofs.Classes.Members

/-! # Snapshots that are built by hand

A snapshot can be built without any table: it begins with a name and a kind, and superclasses, interfaces and
members are added in any order. An addition whose name is there already changes nothing. So what was added first
stays what is found, however many additions of the same name follow and whatever stands between them.

* `Supplement`, `Snapshot.built` : what can be added, and the snapshot after a sequence of additions.
* `FirstOfEach` : a list of names in which the first one of each spelling is kept.
* `Snapshot.firstOfEach_ancestors`, `Snapshot.firstOfEach_interfaces`, `Snapshot.members_built` : what is listed after
  a sequence of additions.
* `Snapshot.built_first_wins` : what a snapshot that is built by hand answers. -/

namespace PhpMembers

variable {listed given : List ClassName} {name other : ClassName}

/-! ## (1) Additions -/

/-- Something that is added to a snapshot. -/
inductive Supplement
  /-- A superclass. -/
  | ancestor (name : ClassName)
  /-- An interface. -/
  | interface (name : ClassName)
  /-- A member that the class-like declares itself, of which only kind and name are known. -/
  | ownMember (kind : MemberKind) (name : MemberName)
  /-- A member of which everything is known. -/
  | member (m : KnownMember)

namespace Supplement

/-- Add it to a snapshot. -/
def addTo (c : Snapshot) : Supplement → Snapshot
  | ancestor name => c.addAncestor name
  | interface name => c.addInterface name
  | ownMember kind name => c.addOwnMember kind name
  | member m => c.addMember m

/-- The name that is put above the class-like. -/
def above? : Supplement → Option ClassName
  | ancestor name => some name
  | interface name => some name
  | _ => none

/-- The interface that is put above the class-like. -/
def interface? : Supplement → Option ClassName
  | interface name => some name
  | _ => none

/-- The member that is offered to a class-like with the given name. -/
def member? (owner : ClassName) : Supplement → Option KnownMember
  | ownMember kind name => some ⟨kind, name, owner, false, .unknown, false⟩
  | member m => some m
  | _ => none

end Supplement

/-- The snapshot after a sequence of additions. -/
def Snapshot.built (name : ClassName) (kind : ClassKind) (additions : List Supplement) : Snapshot :=
  additions.foldl Supplement.addTo (.empty name kind)

/-- One more addition comes last. -/
theorem Snapshot.built_concat (name : ClassName) (kind : ClassKind) (additions : List Supplement) (a : Supplement) :
    built name kind (additions ++ [a]) = a.addTo (built name kind additions) :=
  List.foldl_concat _ _ _ _

/-! ## (2) The first name of each spelling -/

/-- `FirstOfEach listed given`: of the given names the first one of each spelling is listed, letter case aside. -/
structure FirstOfEach (listed given : List ClassName) : Prop where
  /-- The names come in the order in which they were given. -/
  order : listed.Sublist given
  /-- No two of them are the same. -/
  apart : listed.Pairwise fun a b => a.same b = false
  /-- Every given name is listed. -/
  all : ∀ name ∈ given, ∃ first ∈ listed, first.same name = true
  /-- No other spelling of a listed name was given before it. -/
  first : ∀ name ∈ listed, given.find? (·.same name) = some name

namespace FirstOfEach

/-- A name that is there already is not listed again. -/
theorem addOld (names : FirstOfEach listed given) (old : listed.any (·.same name) = true) :
    FirstOfEach listed (given ++ [name]) where
  order := names.order.trans (List.sublist_append_left given [name])
  apart := names.apart
  all := by
    intro n mem
    rcases List.mem_append.mp mem with before | last
    · exact names.all n before
    · rw [List.mem_singleton.mp last]
      exact List.any_eq_true.mp old
  first := by
    intro n mem
    rw [List.find?_append, names.first n mem, Option.some_or]

/-- A new name is listed last. -/
theorem addNew (names : FirstOfEach listed given) (new : ¬listed.any (·.same name) = true) :
    FirstOfEach (listed ++ [name]) (given ++ [name]) := by
  have differ : ∀ n ∈ listed, n.same name = false := by simpa using new
  -- No other spelling was given: it would be the same as a listed name.
  have unseen : given.find? (·.same name) = none := by
    rw [List.find?_eq_none]
    intro n mem same
    obtain ⟨first, inList, isFirst⟩ := names.all n mem
    have clash : first.same name = true := ClassName.same_iff.mpr
      ((ClassName.same_iff.mp isFirst).trans (ClassName.same_iff.mp same))
    simp [differ first inList] at clash
  refine ⟨names.order.append (List.Sublist.refl _), ?_, ?_, ?_⟩
  · rw [List.pairwise_append]
    refine ⟨names.apart, List.pairwise_singleton _ _, fun n mem last isLast => ?_⟩
    rw [List.mem_singleton.mp isLast]
    exact differ n mem
  · intro n mem
    rcases List.mem_append.mp mem with before | last
    · obtain ⟨first, inList, same⟩ := names.all n before
      exact ⟨first, List.mem_append_left _ inList, same⟩
    · exact ⟨name, by simp, by rw [List.mem_singleton.mp last]; exact ClassName.same_iff.mpr rfl⟩
  · intro n mem
    rcases List.mem_append.mp mem with before | last
    · rw [List.find?_append, names.first n before, Option.some_or]
    · rw [List.mem_singleton.mp last, List.find?_append, unseen, Option.none_or]
      exact List.find?_cons_of_pos (ClassName.same_iff.mpr rfl)

/-- **A name is added to a list unless it is there already.** -/
theorem add (names : FirstOfEach listed given) (name : ClassName) :
    FirstOfEach (if listed.any (·.same name) then listed else listed ++ [name]) (given ++ [name]) := by
  split
  · exact names.addOld ‹_›
  · exact names.addNew ‹_›

end FirstOfEach

/-! ## (3) What is listed after the additions -/

namespace Snapshot

variable {kind : ClassKind} {additions : List Supplement}

/-- What is above a class-like to which a superclass is added. -/
theorem ancestors_addAncestor (c : Snapshot) (name : ClassName) : (c.addAncestor name).ancestors =
    if c.ancestors.any (·.same name) then c.ancestors else c.ancestors ++ [name] := by
  rw [addAncestor]
  split <;> rfl

/-- An interface is put above the class-like as a superclass is. -/
theorem ancestors_addInterface (c : Snapshot) (name : ClassName) :
    (c.addInterface name).ancestors = (c.addAncestor name).ancestors := by
  rw [addInterface, ancestors_addAncestor, ancestors_addAncestor]
  split <;> rfl

/-- A superclass is no interface. -/
theorem interfaces_addAncestor (c : Snapshot) (name : ClassName) :
    (c.addAncestor name).interfaces = c.interfaces := by
  rw [addAncestor]
  split <;> rfl

/-- The interfaces of a class-like to which one is added. -/
theorem interfaces_addInterface (c : Snapshot) (name : ClassName) : (c.addInterface name).interfaces =
    if c.interfaces.any (·.same name) then c.interfaces else c.interfaces ++ [name] := by
  rw [addInterface, interfaces_addAncestor]
  split <;> rfl

/-- A member is nothing above the class-like. -/
theorem ancestors_addMember (c : Snapshot) (m : KnownMember) : (c.addMember m).ancestors = c.ancestors :=
  (foldl_addMember c [m]).1

/-- A member is no interface. -/
theorem interfaces_addMember (c : Snapshot) (m : KnownMember) : (c.addMember m).interfaces = c.interfaces :=
  (foldl_addMember c [m]).2

/-- The name of a class-like is that with which it was begun. -/
theorem name_built (name : ClassName) (kind : ClassKind) (additions : List Supplement) :
    (built name kind additions).name = name := by
  refine foldl_keeps Snapshot.name (fun c a => ?_) (.empty name kind) additions
  cases a <;> simp [Supplement.addTo, addOwnMember]

/-- **What is above a class-like is the first of each name** that was added as a superclass or an interface. -/
theorem firstOfEach_ancestors (name : ClassName) (kind : ClassKind) (additions : List Supplement) :
    FirstOfEach (built name kind additions).ancestors (additions.filterMap Supplement.above?) := by
  -- The induction is on the additions from the last one on: each finds what the earlier ones have left.
  induction additions using List.reverseRecOn with
  | nil => exact ⟨List.Sublist.refl _, .nil, by simp, by simp [built, empty]⟩
  | append_singleton additions a ih =>
      rw [built_concat, List.filterMap_append]
      cases a with
      | ancestor n =>
          rw [Supplement.addTo, ancestors_addAncestor]
          exact ih.add n
      | interface n =>
          rw [Supplement.addTo, ancestors_addInterface, ancestors_addAncestor]
          exact ih.add n
      | ownMember k n =>
          show FirstOfEach _ (additions.filterMap Supplement.above? ++ [])
          rw [List.append_nil, Supplement.addTo, addOwnMember, ancestors_addMember]
          exact ih
      | member m =>
          show FirstOfEach _ (additions.filterMap Supplement.above? ++ [])
          rw [List.append_nil, Supplement.addTo, ancestors_addMember]
          exact ih

/-- **The interfaces of a class-like are the first of each name** that was added as an interface. -/
theorem firstOfEach_interfaces (name : ClassName) (kind : ClassKind) (additions : List Supplement) :
    FirstOfEach (built name kind additions).interfaces (additions.filterMap Supplement.interface?) := by
  -- Supplements are added at the end, and only those of interfaces change the interfaces.
  induction additions using List.reverseRecOn with
  | nil => exact ⟨List.Sublist.refl _, .nil, by simp, by simp [built, empty]⟩
  | append_singleton additions a ih =>
      rw [built_concat, List.filterMap_append]
      cases a with
      | ancestor n =>
          show FirstOfEach _ (additions.filterMap Supplement.interface? ++ [])
          rw [List.append_nil, Supplement.addTo, interfaces_addAncestor]
          exact ih
      | interface n =>
          rw [Supplement.addTo, interfaces_addInterface]
          exact ih.add n
      | ownMember k n =>
          show FirstOfEach _ (additions.filterMap Supplement.interface? ++ [])
          rw [List.append_nil, Supplement.addTo, addOwnMember, interfaces_addMember]
          exact ih
      | member m =>
          show FirstOfEach _ (additions.filterMap Supplement.interface? ++ [])
          rw [List.append_nil, Supplement.addTo, interfaces_addMember]
          exact ih

/-- The members after an addition depend on the members before it. -/
theorem members_addMember_congr {c d : Snapshot} (same : c.members = d.members) (m : KnownMember) :
    (c.addMember m).members = (d.addMember m).members := by
  rw [addMember, addMember, hasMember, hasMember, member?, member?, same]
  split
  · exact same
  · rfl

/-- The members of a snapshot are those that were offered, whatever was added in between. -/
theorem members_built_eq (name : ClassName) (kind : ClassKind) (additions : List Supplement) :
    (built name kind additions).members =
      ((additions.filterMap (Supplement.member? name)).foldl addMember (.empty name kind)).members := by
  induction additions using List.reverseRecOn with
  | nil => rfl
  | append_singleton additions a ih =>
      rw [built_concat, List.filterMap_append, List.foldl_append]
      cases a with
      | ancestor n => rw [Supplement.addTo, members_addAncestor]; exact ih
      | interface n => rw [Supplement.addTo, members_addInterface]; exact ih
      | ownMember k n =>
          rw [Supplement.addTo, addOwnMember, name_built]
          exact members_addMember_congr ih _
      | member m => exact members_addMember_congr ih m

end Snapshot

/-! ## (4) Names of members -/

/-- Whether a member name was read from a user's text or from the syntax: there is no other way to one. -/
def MemberName.IsRead (name : MemberName) : Prop :=
  (∃ text, parse text = .ok name) ∨ ∃ text, name = ofSyntax text

/-- Names that are read have no leading `$`. -/
theorem MemberName.IsRead.plain {name : MemberName} (isRead : name.IsRead) :
    dropLeading '$' name.text = name.text := by
  rcases isRead with ⟨text, read⟩ | ⟨text, rfl⟩
  · rw [parse] at read
    split at read
    · cases read
    · split at read
      · cases read
        exact List.dropWhile_idempotent _ _
      · cases read
  · exact dropLeading_ofSyntax text

/-- `m.Answers kind wanted`: the member is of the wanted kind, if one is given, and the rule for names of its own kind
accepts the wanted name without a leading `$`. -/
def KnownMember.Answers (m : KnownMember) (kind : Option MemberKind) (wanted : Text) : Prop :=
  (∀ k ∈ kind, m.kind = k) ∧ m.kind.namesMatch m.name.text (dropLeading '$' wanted) = true

/-- The condition of a search is that a member answers it. -/
theorem KnownMember.answers_iff (m : KnownMember) (kind : Option MemberKind) (wanted : Text) :
    ((kind.isNone || kind == some m.kind) && m.kind.namesMatch m.name.text (dropLeading '$' wanted)) = true ↔
      m.Answers kind wanted := by
  rw [Answers, Bool.and_eq_true]
  refine and_congr_left fun _ => ?_
  cases kind with
  | none => simp
  | some k => simpa using eq_comm

/-- No two visible members have one slot, and none has that of an earlier one. -/
theorem pairwise_visible (earlier members : List KnownMember) :
    (∀ m ∈ visible earlier members, m.slot ∉ earlier.map KnownMember.slot) ∧
      (visible earlier members).Pairwise fun a b => a.slot ≠ b.slot := by
  induction members generalizing earlier with
  | nil => exact ⟨by simp [visible], .nil⟩
  | cons m rest ih =>
      obtain ⟨new, apart⟩ := ih (m :: earlier)
      -- What comes later has neither the slot of `m` nor one of those before it.
      have later : ∀ other ∈ visible (m :: earlier) rest,
          other.slot ≠ m.slot ∧ other.slot ∉ earlier.map KnownMember.slot := by
        intro other mem
        simpa using new other mem
      rw [visible]
      split
      · exact ⟨fun other mem => (later other mem).2, apart⟩
      · rename_i shown
        refine ⟨List.forall_mem_cons.mpr ⟨mt any_hides_iff.mpr shown, fun other mem => (later other mem).2⟩, ?_⟩
        exact List.pairwise_cons.mpr ⟨fun other mem => (later other mem).1.symm, apart⟩

namespace Snapshot

/-- **The members of a class-like are those of the offered ones that no earlier one hides.** -/
theorem members_built {name : ClassName} {kind : ClassKind} {additions : List Supplement}
    (isRead : ∀ m ∈ additions.filterMap (Supplement.member? name), m.name.IsRead) :
    (built name kind additions).members = visible [] (additions.filterMap (Supplement.member? name)) := by
  rw [members_built_eq, @members_addMembers _ [] _ (fun slot => Iff.rfl) fun m mem => (isRead m mem).plain]
  rfl

/-- A search finds the first of all members that were offered and answer it. -/
theorem member?_built {name : ClassName} {kind : ClassKind} {additions : List Supplement}
    (isRead : ∀ m ∈ additions.filterMap (Supplement.member? name), m.name.IsRead) (wantedKind : Option MemberKind)
    (wanted : Text) : (built name kind additions).member? wantedKind wanted =
      (additions.filterMap (Supplement.member? name)).find? fun m =>
        (wantedKind.isNone || wantedKind == some m.kind) &&
          m.kind.namesMatch m.name.text (dropLeading '$' wanted) := by
  rw [member?, members_built isRead]
  refine find?_visible (fun a b same => ?_) (by simp) _
  -- Members with one slot are of one kind, and the rule of this kind does not tell their names apart.
  obtain ⟨kinds, names⟩ := Prod.mk.inj same
  rw [← kinds] at names
  rw [← kinds]
  congr 1
  rw [Bool.eq_iff_iff, MemberKind.namesMatch_iff, MemberKind.namesMatch_iff, names]

/-- **A snapshot that is built by hand answers by what was added first.** In whatever order superclasses, interfaces
and members are added, no two of the names above the class-like are the same, nor two of its interfaces, and each
interface is above it. No two of its members have one kind and names that match. It is an instance of what has its own
name or one that was added. A question for a member is answered with the first member that was ever offered and has
the kind, if one is given, and the name, also where members of several kinds share a name; there is no answer if no
such member was offered. -/
theorem built_first_wins (name : ClassName) (kind : ClassKind) (additions : List Supplement)
    (isRead : ∀ m ∈ additions.filterMap (Supplement.member? name), m.name.IsRead) :
    ((built name kind additions).ancestors.Pairwise fun a b => a.same b = false) ∧
      ((built name kind additions).interfaces.Pairwise fun a b => a.same b = false) ∧
      (∀ i ∈ (built name kind additions).interfaces,
        ∃ a ∈ (built name kind additions).ancestors, a.same i = true) ∧
      ((built name kind additions).members.Pairwise fun a b =>
        ¬(a.kind = b.kind ∧ a.kind.namesMatch a.name.text b.name.text = true)) ∧
      (∀ other, (built name kind additions).isInstanceOf other = true ↔
        name.same other = true ∨ ∃ above ∈ additions.filterMap Supplement.above?, above.same other = true) ∧
      ∀ wantedKind wanted,
        (∀ m, (built name kind additions).member? wantedKind wanted = some m ↔
          m.Answers wantedKind wanted ∧ ∃ before after,
            additions.filterMap (Supplement.member? name) = before ++ m :: after ∧
              ∀ earlier ∈ before, ¬earlier.Answers wantedKind wanted) ∧
        ((built name kind additions).member? wantedKind wanted = none ↔
          ∀ m ∈ additions.filterMap (Supplement.member? name), ¬m.Answers wantedKind wanted) := by
  have above := firstOfEach_ancestors name kind additions
  have interfaces := firstOfEach_interfaces name kind additions
  refine ⟨above.apart, interfaces.apart, ?_, ?_, ?_, fun wantedKind wanted => ⟨fun m => ?_, ?_⟩⟩
  · intro i mem
    -- An interface was added as one, and so put above the class-like.
    obtain ⟨a, added, isInterface⟩ := List.mem_filterMap.mp (interfaces.order.subset mem)
    refine above.all i (List.mem_filterMap.mpr ⟨a, added, ?_⟩)
    cases a <;> simp_all [Supplement.interface?, Supplement.above?]
  · rw [members_built isRead]
    refine (pairwise_visible [] _).2.imp fun differ same => differ (KnownMember.hides_iff.mp ?_)
    rw [KnownMember.hides, Bool.and_eq_true, beq_iff_eq]
    exact same
  · intro other
    rw [isInstanceOf, name_built, Bool.or_eq_true, List.any_eq_true]
    refine or_congr_right ⟨?_, ?_⟩
    · rintro ⟨a, mem, same⟩
      exact ⟨a, above.order.subset mem, same⟩
    · rintro ⟨a, mem, same⟩
      obtain ⟨first, inList, isFirst⟩ := above.all a mem
      exact ⟨first, inList, ClassName.same_iff.mpr
        ((ClassName.same_iff.mp isFirst).trans (ClassName.same_iff.mp same))⟩
  · rw [member?_built isRead, List.find?_eq_some_iff_append]
    simp only [Bool.not_eq_true', ← Bool.not_eq_true, KnownMember.answers_iff]
  · rw [member?_built isRead, List.find?_eq_none]
    simp only [KnownMember.answers_iff]

/-- An interface and a superclass in two spellings each, and a name that members of all kinds share. -/
def rivalAdditions : List Supplement :=
  [.interface ⟨['I']⟩, .ancestor ⟨['a']⟩, .ancestor ⟨['i']⟩, .ownMember .property ⟨['r', 'u', 'n']⟩,
    .ownMember .method ⟨['R', 'u', 'n']⟩, .member ⟨.method, ⟨['r', 'u', 'n']⟩, ⟨['B']⟩, true, .unknown, false⟩,
    .interface ⟨['A']⟩, .ownMember .constant ⟨['R', 'U', 'N']⟩]

/-- The method hides the later one and is found before the constant; the property does not match. -/
theorem built_first_wins_rivalAdditions :
    (∀ m ∈ rivalAdditions.filterMap (Supplement.member? ⟨['C']⟩), m.name.IsRead) ∧
      (built ⟨['C']⟩ .plain rivalAdditions).ancestors = [⟨['I']⟩, ⟨['a']⟩] ∧
      (built ⟨['C']⟩ .plain rivalAdditions).isInstanceOf ⟨['A']⟩ = true ∧
      (built ⟨['C']⟩ .plain rivalAdditions).member? none ['$', 'R', 'U', 'N'] =
        some ⟨.method, ⟨['R', 'u', 'n']⟩, ⟨['C']⟩, false, .unknown, false⟩ := by
  have isRead : ∀ m ∈ rivalAdditions.filterMap (Supplement.member? ⟨['C']⟩), m.name.IsRead := by
    have plain : ∀ m ∈ rivalAdditions.filterMap (Supplement.member? ⟨['C']⟩), m.name = .ofSyntax m.name.text := by
      decide
    exact fun m mem => .inr ⟨_, plain m mem⟩
  obtain ⟨-, -, -, -, instances, answers⟩ := built_first_wins ⟨['C']⟩ .plain rivalAdditions isRead
  refine ⟨isRead, by decide, (instances ⟨['A']⟩).mpr (.inr ⟨⟨['a']⟩, by decide, by decide⟩), ?_⟩
  refine ((answers none ['$', 'R', 'U', 'N']).1 _).mpr ⟨⟨by simp, by decide⟩, [_], [_, _], rfl, ?_⟩
  simp [KnownMember.Answers, MemberKind.namesMatch, dropLeading]

end Snapshot

end PhpMembers
