import PhpMembers.Proofs.Search.Rewriting

/-! # Queries and options are filters

What a narrower search finds can be told from what a wider one finds: without declarations the declarations
are missing, with a class some occurrences are missing, and without a class the kind and the name choose from
what the search for everything finds.

* `Query.anyOwner`, `Query.keeps` : a query without its class, and the choice that is left.
* `Search.answer?_undeclared`, `Search.answer?_anyOwner`, `Search.answer?_keeps` : the laws at one site.
* `mergeByStart`, `mergeByStart_filter` : two choices from a list, put together in its order.
* `findMembers_filters` : the laws for whole searches. -/

namespace PhpMembers

/-! ## (1) Laws at one site -/

namespace Query

/-- The search for everything. -/
def everything : Query := ⟨none, none, none⟩

/-- The same query for the members of all classes. -/
def anyOwner (q : Query) : Query := { q with owner := none }

/-- Whether an occurrence is chosen by kind and name. With a name, occurrences in unknown classes are not
chosen. -/
def keeps (q : Query) (o : Occurrence) : Bool :=
  q.kind.all (· == o.kind) && q.member.all fun member => member == o.name && o.owner.isSome

/-- What is chosen by kind and name. -/
theorem keeps_iff {q : Query} {o : Occurrence} :
    q.keeps o = true ↔ (∀ kind, q.kind = some kind → kind = o.kind) ∧
      ∀ member, q.member = some member → member = o.name ∧ o.owner.isSome = true := by
  rw [keeps, Bool.and_eq_true, Option.all_eq_true, Option.all_eq_true]
  simp only [Bool.and_eq_true, beq_iff_eq]

end Query

namespace Search

variable {analysis : Analysis} {source : Text} {q : Query} {includeDeclarations : Bool} {site : Site}

/-- A site that is credited in a search for a class is credited in the search for all classes. -/
theorem Credits.anyOwner {owner : Option ClassName}
    (credits : (ofText analysis source q).Credits site owner) :
    (ofText analysis source q.anyOwner).Credits site owner := by
  cases credits with
  | staticAccess shape first written resolved _ =>
      exact .staticAccess shape first written resolved nofun
  | unknownReceiver shape first type nameless => exact .unknownReceiver shape first type nameless
  | knownReceiver shape first type _ =>
      exact .knownReceiver shape first type nofun
  | declaration shape enclosing _ =>
      exact .declaration shape enclosing fun _ aim => absurd rfl aim.owner

/-- Without a class, a site is credited as in the search for everything, but not to an unknown class if
there is a name. -/
theorem credits_iff_everything {owner : Option ClassName} :
    (ofText analysis source q.anyOwner).Credits site owner ↔
      (ofText analysis source .everything).Credits site owner ∧
        ∀ member, q.member = some member → owner.isSome = true := by
  constructor
  · intro credits
    cases credits with
    | staticAccess shape first written resolved _ =>
        exact ⟨.staticAccess shape first written resolved nofun,
          fun _ _ => rfl⟩
    | unknownReceiver shape first type nameless =>
        -- The only rule that depends on the name.
        refine ⟨.unknownReceiver shape first type rfl, fun member named => ?_⟩
        cases named.symm.trans nameless
    | knownReceiver shape first type _ =>
        exact ⟨.knownReceiver shape first type nofun, fun _ _ => rfl⟩
    | declaration shape enclosing _ =>
        exact ⟨.declaration shape enclosing fun _ aim => absurd rfl aim.owner, fun _ _ => rfl⟩
  · rintro ⟨credits, known⟩
    cases credits with
    | staticAccess shape first written resolved _ =>
        exact .staticAccess shape first written resolved nofun
    | unknownReceiver shape first type _ =>
        refine .unknownReceiver shape first type ?_
        cases nameless : q.member with
        | none => exact nameless
        | some member => cases known member nameless
    | knownReceiver shape first type _ =>
        exact .knownReceiver shape first type nofun
    | declaration shape enclosing _ =>
        exact .declaration shape enclosing fun _ aim => absurd rfl aim.owner

/-- Without declarations, a site is answered as with them if it is none. -/
theorem answer?_undeclared (s : Search) (mem : site ∈ (Cursor.ofText source).sites) :
    s.answer? false site = (s.answer? true site).filter fun o => !o.isDeclaration := by
  refine Option.ext fun o => ?_
  rw [Option.filter_eq_some_iff, answer?_iff mem, answer?_iff mem]
  constructor
  · rintro ⟨token, owner, named, asks, credits, rfl⟩
    have undeclared : site.isDeclaration = false := by
      cases declared : site.isDeclaration with
      | false => rfl
      | true => cases asks.included declared
    refine ⟨⟨token, owner, named, ⟨fun _ => rfl, asks.kind, asks.member⟩, credits, rfl⟩, ?_⟩
    show (!site.isDeclaration) = true
    rw [undeclared]
    rfl
  · rintro ⟨⟨token, owner, named, asks, credits, rfl⟩, undeclared⟩
    have undeclared : (!site.isDeclaration) = true := undeclared
    refine ⟨token, owner, named, ⟨fun declared => ?_, asks.kind, asks.member⟩, credits, rfl⟩
    rw [declared] at undeclared
    cases undeclared

/-- An answer for a class is the answer for all classes. -/
theorem answer?_anyOwner (mem : site ∈ (Cursor.ofText source).sites) {o : Occurrence}
    (answered : (ofText analysis source q).answer? includeDeclarations site = some o) :
    (ofText analysis source q.anyOwner).answer? includeDeclarations site = some o := by
  rw [answer?_iff mem] at answered ⊢
  obtain ⟨token, owner, named, asks, credits, o_eq⟩ := answered
  exact ⟨token, owner, named, ⟨asks.included, asks.kind, asks.member⟩, credits.anyOwner, o_eq⟩

/-- Without a class, an answer is chosen from those of the search for everything. -/
theorem answer?_keeps (mem : site ∈ (Cursor.ofText source).sites) :
    (ofText analysis source q.anyOwner).answer? includeDeclarations site =
      ((ofText analysis source .everything).answer? includeDeclarations site).filter q.keeps := by
  refine Option.ext fun o => ?_
  rw [Option.filter_eq_some_iff, answer?_iff mem, answer?_iff mem, Query.keeps_iff]
  constructor
  · rintro ⟨token, owner, named, asks, credits, rfl⟩
    obtain ⟨credits, known⟩ := credits_iff_everything.mp credits
    have asksAll : Query.everything.Asks includeDeclarations site token :=
      ⟨asks.included, nofun, nofun⟩
    refine ⟨⟨token, owner, named, asksAll, credits, rfl⟩, asks.kind, fun member searched => ?_⟩
    exact ⟨asks.member member searched, known member searched⟩
  · rintro ⟨⟨token, owner, named, asks, credits, rfl⟩, kind, member⟩
    have asksMember : q.anyOwner.Asks includeDeclarations site token :=
      ⟨asks.included, kind, fun name searched => (member name searched).1⟩
    refine ⟨token, owner, named, asksMember, ?_, rfl⟩
    exact credits_iff_everything.mpr ⟨credits, fun name searched => (member name searched).2⟩

/-! ## (2) Laws for whole searches -/

/-- Without declarations, a search finds what it finds with them, apart from them. -/
theorem found_undeclared (s : Search) (source : Text) :
    s.found false (.ofText source) =
      (s.found true (.ofText source)).filter fun o => !o.isDeclaration := by
  rw [found, found, List.filter_filterMap]
  exact List.filterMap_congr fun site mem => answer?_undeclared s mem

/-- A search for a class finds nothing that the search for all classes does not find. -/
theorem found_anyOwner (analysis : Analysis) (source : Text) (q : Query) (includeDeclarations : Bool) :
    ((ofText analysis source q).found includeDeclarations (.ofText source)).Sublist
      ((ofText analysis source q.anyOwner).found includeDeclarations (.ofText source)) := by
  -- The search for a class passes over some sites and answers at the others as the wider search does.
  have chosen : (ofText analysis source q).found includeDeclarations (.ofText source) =
      ((Cursor.ofText source).sites.filter fun site =>
        ((ofText analysis source q).answer? includeDeclarations site).isSome).filterMap
          ((ofText analysis source q.anyOwner).answer? includeDeclarations) := by
    rw [found, List.filterMap_filter]
    refine List.filterMap_congr fun site mem => ?_
    cases answered : (ofText analysis source q).answer? includeDeclarations site with
    | none => rfl
    | some o => exact (answer?_anyOwner mem answered).symm
  rw [chosen]
  exact List.filter_sublist.filterMap _

/-- Without a class, a search chooses from what the search for everything finds. -/
theorem found_keeps (analysis : Analysis) (source : Text) (q : Query) (includeDeclarations : Bool) :
    (ofText analysis source q.anyOwner).found includeDeclarations (.ofText source) =
      ((ofText analysis source .everything).found includeDeclarations (.ofText source)).filter q.keeps := by
  rw [found, found, List.filter_filterMap]
  exact List.filterMap_congr fun site mem => answer?_keeps mem

end Search

/-! ## (3) Kinds -/

/-- Two lists of occurrences, put together in the order of the text. -/
def mergeByStart (a b : List Occurrence) : List Occurrence :=
  a.merge b fun o p => decide (o.span.start ≤ p.span.start)

/-- What stands in front of both lists comes first. -/
theorem mergeByStart_cons_left {o : Occurrence} {a b : List Occurrence}
    (first : ∀ p ∈ b, o.span.start < p.span.start) :
    mergeByStart (o :: a) b = o :: mergeByStart a b := by
  cases b with
  | nil => rw [mergeByStart, mergeByStart, List.merge_right, List.merge_right]
  | cons p b =>
      have le : o.span.start ≤ p.span.start := Nat.le_of_lt (first p List.mem_cons_self)
      rw [mergeByStart, List.cons_merge_cons_pos _ _ _ (decide_eq_true le)]
      rfl

/-- What stands in front of both lists comes first. -/
theorem mergeByStart_cons_right {o : Occurrence} {a b : List Occurrence}
    (first : ∀ p ∈ a, o.span.start < p.span.start) :
    mergeByStart a (o :: b) = o :: mergeByStart a b := by
  cases a with
  | nil => rw [mergeByStart, mergeByStart, List.nil_merge, List.nil_merge]
  | cons p a =>
      have gt : ¬ p.span.start ≤ o.span.start := Nat.not_le_of_lt (first p List.mem_cons_self)
      rw [mergeByStart, List.cons_merge_cons_neg _ _ _ (fun le => gt (of_decide_eq_true le))]
      rfl

/-- **Two choices from a list, put together, are the choice of both.** -/
theorem mergeByStart_filter {f g : Occurrence → Bool} (apart : ∀ o, f o = true → g o = false)
    {found : List Occurrence} (ascending : found.Pairwise fun o p => o.span.start < p.span.start) :
    mergeByStart (found.filter f) (found.filter g) = found.filter fun o => f o || g o := by
  induction found with
  | nil => exact List.nil_merge []
  | cons o rest ih =>
      obtain ⟨before, ascending⟩ := List.pairwise_cons.mp ascending
      have first (h : Occurrence → Bool) : ∀ p ∈ rest.filter h, o.span.start < p.span.start :=
        fun p mem => before p (List.mem_of_mem_filter mem)
      -- `o` stands in front of all others, whichever list it goes to.
      rw [List.filter_cons, List.filter_cons, List.filter_cons, ← ih ascending]
      cases inF : f o with
      | true =>
          rw [apart o inF]
          exact mergeByStart_cons_left (first g)
      | false =>
          cases g o with
          | true => exact mergeByStart_cons_right (first f)
          | false => rfl

/-- Different kinds, put together, are the choice of all of them. -/
theorem mergeByStart_kinds {kinds : List MemberKind} (nodup : kinds.Nodup) {found : List Occurrence}
    (ascending : found.Pairwise fun o p => o.span.start < p.span.start) :
    (kinds.map fun kind => found.filter (kind == ·.kind)).foldr mergeByStart [] =
      found.filter fun o => kinds.any (· == o.kind) := by
  induction kinds with
  | nil => exact (List.filter_eq_nil_iff.mpr fun _ _ => Bool.false_ne_true).symm
  | cons kind kinds ih =>
      obtain ⟨new, nodup⟩ := List.nodup_cons.mp nodup
      rw [List.map_cons, List.foldr_cons, ih nodup]
      refine mergeByStart_filter (fun o same => ?_) ascending
      rw [← beq_iff_eq.mp same, List.any_eq_false]
      intro other mem same
      rw [beq_iff_eq.mp same] at mem
      exact new mem

namespace Search

/-- Without a class, the search for a kind chooses that kind from the search for all of them. -/
theorem found_kind (analysis : Analysis) (source : Text) (member : Option MemberName)
    (kind : MemberKind) (includeDeclarations : Bool) :
    (ofText analysis source ⟨none, member, some kind⟩).found includeDeclarations (.ofText source) =
      ((ofText analysis source ⟨none, member, none⟩).found includeDeclarations (.ofText source)).filter
        (kind == ·.kind) := by
  have ofKind := found_keeps analysis source ⟨none, member, some kind⟩ includeDeclarations
  have ofAll := found_keeps analysis source ⟨none, member, none⟩ includeDeclarations
  rw [Query.anyOwner] at ofKind ofAll
  rw [ofKind, ofAll, List.filter_filter]
  rfl

end Search

/-- **Queries and options are filters.** Where clean syntax is not asked for, every search goes through, and
what it finds can be told from what others find.
* Without declarations, it finds what it finds with them, apart from them.
* For a class, it finds a part of what it finds for all classes, in the same order.
* For all classes, it finds what the search for everything finds, as far as kind and name are the searched
  ones and, if there is a name, the class is known.
* For all classes and kinds, it finds what the searches for the three kinds find, each occurrence in one of
  them, put together in the order of the text. -/
theorem findMembers_filters (analysis : Analysis) (source : Text) :
    ∃ found : Query → Bool → List Occurrence,
      (∀ q includeDeclarations, ∃ report,
        findMembers analysis source q ⟨includeDeclarations, false⟩ = .ok report ∧
          report.occurrences = found q includeDeclarations) ∧
      (∀ q, found q false = (found q true).filter fun o => !o.isDeclaration) ∧
      (∀ (q : Query) includeDeclarations,
        (found q includeDeclarations).Sublist (found q.anyOwner includeDeclarations)) ∧
      (∀ member kind includeDeclarations, found ⟨none, member, kind⟩ includeDeclarations =
        (found .everything includeDeclarations).filter (Query.keeps ⟨none, member, kind⟩)) ∧
      ∀ member includeDeclarations,
        let ofKinds := MemberKind.all.map fun kind => found ⟨none, member, some kind⟩ includeDeclarations
        found ⟨none, member, none⟩ includeDeclarations = ofKinds.foldr mergeByStart [] ∧
          ofKinds.Pairwise List.Disjoint := by
  refine ⟨fun q includeDeclarations =>
    (Search.ofText analysis source q).found includeDeclarations (.ofText source), ?_, ?_, ?_, ?_, ?_⟩
  · intro q includeDeclarations
    have ok := findMembers_lenient analysis source q includeDeclarations
    exact ⟨_, ok, findMembers_occurrences ok⟩
  · exact fun q => (Search.ofText analysis source q).found_undeclared source
  · exact fun q => Search.found_anyOwner analysis source q
  · exact fun member kind => Search.found_keeps analysis source ⟨none, member, kind⟩
  · intro member includeDeclarations
    let s := Search.ofText analysis source ⟨none, member, none⟩
    have ascending := (s.found_rewritable includeDeclarations source).ascending
    have nodup : MemberKind.all.Nodup := by decide
    simp only [Search.found_kind]
    constructor
    · rw [mergeByStart_kinds nodup ascending]
      refine (List.filter_eq_self.mpr fun o _ => ?_).symm
      cases o.kind <;> rfl
    · refine List.pairwise_map.mpr (nodup.imp fun {kind kind'} ne o inFirst inSecond => ?_)
      have first := beq_iff_eq.mp (List.mem_filter.mp inFirst).2
      have second := beq_iff_eq.mp (List.mem_filter.mp inSecond).2
      exact ne (first.trans second.symm)

end PhpMembers
