import Mathlib.Data.List.DropRight
import PhpMembers.Proofs.Classes.Declared
import PhpMembers.Proofs.Classes.Known
import PhpMembers.Proofs.Search.Policy

/-! # Searching a file that the session knows

After a file has been added to a session, a search in the file for one of the members that it declares finds
the declaration, whatever the session has collected before.

* `Session.snapshot?_add` : a session knows the class-likes of the text that was added last.
* `exists_entry_of_site` : a declaration in a file is listed in an entry of the file.
* `findMembers_of_known` : a search finds a declaration of the searched member in the searched class.
* `Note.unknownClass?`, `findMembers_unknownClass` : only a class that is not known is noted to be unknown.
* `findMembers_own_declarations` : the declarations of a file in a session that knows it. -/

namespace PhpMembers

/-! ## (1) What a session knows -/

/-- **A session knows the class-likes of the text that was added last**, if their names differ. -/
theorem Session.snapshot?_add (before : Session) {source : Text}
    (distinct : (ClassEntry.allOfText source).Pairwise fun a b => a.name.same b.name = false)
    {entry : ClassEntry} (mem : entry ∈ ClassEntry.allOfText source) :
    (before.add source).1.snapshot? entry.name =
      some (entry.snapshot [(before.add source).1.classes]) := by
  rw [Session.snapshot?, PhpMembers.snapshot?, findIn_singleton, Session.add,
    ClassTable.find?_insertAll distinct mem, Option.map_some]

/-- A search in a session asks the session, which only keeps the parsed text in the meantime. -/
theorem Session.exists_analysis (s : Session) (hash : Text → UInt64) (source : Text) :
    ∃ analysis : Analysis, (∀ q options,
      (s.findMembers hash source q options).1 = PhpMembers.findMembers analysis source q options) ∧
      analysis.snapshot? = s.snapshot? :=
  ⟨.ofSession { s with cache := (s.cache.fetch hash source).2 } hash, fun _ _ => rfl, rfl⟩

/-- A leading `$` does not belong to a spelled name. -/
theorem dropLeading_spelledName (token : Cursor) :
    dropLeading '$' (spelledName token).text = (spelledName token).text :=
  List.dropWhile_idempotent _ _

/-- **A declaration in a text without errors is listed in the entry of its class-like.** -/
theorem exists_entry_of_site {source : Text} (clean : (Parse.ofText source).errors = [])
    {site : Site} (mem : site ∈ (Cursor.ofText source).sites) (declares : site.isDeclaration = true)
    {token : Cursor} (named : site.NamedBy token) {owner : ClassName}
    (enclosing : (Regions.ofFile (.ofText source)).enclosingClass? site.node = some owner) :
    ∃ entry ∈ ClassEntry.allOfText source, entry.name = owner ∧
      ∃ m ∈ entry.members, m.kind = site.kind ∧ m.name = spelledName token := by
  have listed : (owner, site.kind, some (spelledName token)) ∈ (Cursor.ofText source).declaredBySites := by
    refine List.mem_filterMap.mpr ⟨site, List.mem_filter.mpr ⟨?_, declares⟩, ?_⟩
    · rw [Query.sites_eq]
      exact List.mem_filter.mpr ⟨mem, rfl⟩
    · rw [enclosing, (Site.namedBy_iff.mp named).2]
      rfl
  have inEntries := (CleanFile.ofText clean).declared_perm.subset listed
  obtain ⟨entry, inFile, inMembers⟩ := List.mem_flatMap.mp inEntries
  obtain ⟨m, inEntry, row⟩ := List.mem_map.mp inMembers
  simp only [MemberEntry.row, Prod.mk.injEq, Option.some.injEq] at row
  exact ⟨entry, inFile, row.1, m, inEntry, row.2.1, row.2.2⟩

/-! ## (2) What a search finds -/

/-- A text without errors is searched in any case. -/
theorem findMembers_clean {source : Text} (clean : (Parse.ofText source).errors = [])
    (analysis : Analysis) (q : Query) (options : SearchOptions) :
    findMembers analysis source q options = .ok ((Search.ofText analysis source q).report
      (q.sites options.includeDeclarations (.ofText source))) := by
  unfold findMembers
  simp only [clean]
  cases options.strictSyntax <;> rfl

/-- **A search finds a declaration of the searched member in the searched class**, if the class is known to
have the member. -/
theorem findMembers_of_known {analysis : Analysis} {source : Text} {options : SearchOptions}
    {report : SearchReport} {site : Site} {token : Cursor} {owner : ClassName} {c : Snapshot}
    (included : options.includeDeclarations = true)
    (ok : findMembers analysis source ⟨some owner, some (spelledName token), some site.kind⟩ options =
      .ok report)
    (mem : site ∈ (Cursor.ofText source).sites) (declares : site.isDeclaration = true)
    (named : site.NamedBy token)
    (enclosing : (Regions.ofFile (.ofText source)).enclosingClass? site.node = some owner)
    (known : analysis.snapshot? owner = some c) (same : c.name = owner)
    (has : c.hasMember (some site.kind) (spelledName token).text = true) :
    site.occurrence token (some owner) ∈ report.occurrences := by
  let q : Query := ⟨some owner, some (spelledName token), some site.kind⟩
  have asks : q.Asks true site token :=
    ⟨fun _ => rfl, fun _ eq => (Option.some.inj eq).symm, fun _ eq => (Option.some.inj eq).symm⟩
  have credits : (Search.ofText analysis source q).Credits site (some owner) := by
    refine .declaration (beq_iff_eq.mp declares) enclosing fun wanted aim => ⟨c, known, Or.inr ?_⟩
    -- The class has the member, so declarations are compared with the class itself.
    have self : (declarationTarget analysis q).owner = some owner :=
      declarationTarget_of_has rfl rfl known has
    obtain rfl := Option.some.inj ((aim_iff.mp aim).symm.trans self)
    rw [← same]
    exact c.isInstanceOf_name
  have answered := (Search.answer?_iff mem).mpr ⟨token, some owner, named, asks, credits, rfl⟩
  rw [findMembers_occurrences ok, included]
  exact List.mem_filterMap.mpr ⟨site, mem, answered⟩

/-! ## (3) Notes on unknown classes -/

/-- The class that a note says is not known. -/
def Note.unknownClass? : Note → Option ClassName
  | .unknownOwner owner _ _ | .unknownReceiver owner _ _ | .unknownTarget owner => some owner
  | _ => none

/-- Notes in order are that about the query and those about the sites. -/
theorem mem_notesInOrder {targetNote : Option Note} {decided : List (Bool × Verdict)} {note : Note}
    (mem : note ∈ notesInOrder targetNote decided) :
    targetNote = some note ∨ ∃ d ∈ decided, d.2.note = some note := by
  induction decided with
  | nil => cases mem
  | cons first rest ih =>
      obtain ⟨needed, v⟩ := first
      rw [notesInOrder] at mem
      split at mem
      · rcases List.mem_append.mp mem with ofTarget | ofSites
        · exact Or.inl (Option.mem_toList.mp ofTarget)
        · exact Or.inr (List.mem_filterMap.mp ofSites)
      · rcases List.mem_append.mp mem with ofFirst | ofRest
        · exact Or.inr ⟨_, List.mem_cons_self, Option.mem_toList.mp ofFirst⟩
        · rcases ih ofRest with ofTarget | ⟨d, inRest, isNote⟩
          · exact Or.inl ofTarget
          · exact Or.inr ⟨d, List.mem_cons_of_mem _ inRest, isNote⟩

section

variable {note : Note} {name : ClassName}

/-- A searched class that is noted to be unknown is not known. -/
theorem declarationTarget_unknownClass {analysis : Analysis} {q : Query}
    (noted : (declarationTarget analysis q).note = some note) (isUnknown : note.unknownClass? = some name) :
    analysis.snapshot? name = none := by
  unfold declarationTarget at noted
  repeat' split at noted
  all_goals cases noted
  all_goals cases isUnknown
  assumption

/-- A class that is noted to be unknown at a site is not known. -/
theorem Search.verdict_unknownClass {s : Search} {target : Option ClassName} {site : Site}
    (noted : (s.verdict target site).note = some note) (isUnknown : note.unknownClass? = some name) :
    s.analysis.snapshot? name = none := by
  unfold verdict staticVerdict instanceVerdict declarationVerdict at noted
  simp only at noted
  repeat' split at noted
  all_goals cases noted
  all_goals cases isUnknown
  all_goals assumption

/-- **Only a class that is not known is noted to be unknown.** -/
theorem findMembers_unknownClass {analysis : Analysis} {source : Text} {q : Query}
    {options : SearchOptions} {report : SearchReport}
    (ok : findMembers analysis source q options = .ok report) (mem : note ∈ report.notes)
    (isUnknown : note.unknownClass? = some name) : analysis.snapshot? name = none := by
  unfold findMembers at ok
  simp only at ok
  split at ok
  · cases ok
  · obtain rfl := Except.ok.inj ok
    rcases mem_notesInOrder mem with ofTarget | ⟨d, decided, ofSite⟩
    · exact declarationTarget_unknownClass ofTarget isUnknown
    · obtain ⟨site, -, rfl⟩ := List.mem_map.mp decided
      exact Search.verdict_unknownClass ofSite isUnknown

end

/-! ## (4) The declarations of a file in a session that knows it -/

/-- **No declaration is lost when a file is searched in a session that knows it.** A text without errors,
whose class-likes have different names in any letter case, has been added last, whatever the session had
collected before. For each declaration with a name in a class-like with a name, the search for the member
with its class and kind goes through and finds the declaration as one of that class; and no search in the text
notes that this class is not known. -/
theorem findMembers_own_declarations (hash : Text → UInt64) (before : Session) (source : Text)
    (clean : (Parse.ofText source).errors = [])
    (distinct : (ClassEntry.allOfText source).Pairwise fun a b => a.name.same b.name = false)
    (site : Site) (mem : site ∈ (Cursor.ofText source).sites) (declares : site.isDeclaration = true)
    (token : Cursor) (named : site.NamedBy token) (owner : ClassName)
    (enclosing : (Regions.ofFile (.ofText source)).enclosingClass? site.node = some owner) :
    (∀ strict, ∃ report,
      ((before.add source).1.findMembers hash source
        ⟨some owner, some (spelledName token), some site.kind⟩ ⟨true, strict⟩).1 = .ok report ∧
      site.occurrence token (some owner) ∈ report.occurrences) ∧
    ∀ q options report, ((before.add source).1.findMembers hash source q options).1 = .ok report →
      ∀ note ∈ report.notes, note.unknownClass? ≠ some owner := by
  obtain ⟨entry, inFile, rfl, m, inEntry, kind, name⟩ :=
    exists_entry_of_site clean mem declares named enclosing
  obtain ⟨analysis, search_eq, snapshot_eq⟩ := Session.exists_analysis (before.add source).1 hash source
  have known := before.snapshot?_add distinct inFile
  rw [← snapshot_eq] at known
  simp only [search_eq]
  constructor
  · intro strict
    have has := entry.hasMember_snapshot [(before.add source).1.classes] inEntry
      (by rw [name, dropLeading_spelledName])
    rw [kind, name] at has
    have ok := findMembers_clean clean analysis
      ⟨some entry.name, some (spelledName token), some site.kind⟩ ⟨true, strict⟩
    exact ⟨_, ok, findMembers_of_known rfl ok mem declares named enclosing known
      (entry.name_snapshot _) has⟩
  · intro q options report ok note inReport isUnknown
    rw [findMembers_unknownClass ok inReport isUnknown] at known
    cases known

/-- The promoted parameter of a class that is the only one in a session. -/
theorem findMembers_own_declarations_promotingClass :
    (Parse.ofText promotingClass).errors = [] ∧
      (ClassEntry.allOfText promotingClass).Pairwise (fun a b => a.name.same b.name = false) ∧
      ∃ site ∈ (Cursor.ofText promotingClass).sites, ∃ token,
        site.isDeclaration = true ∧ site.NamedBy token ∧ spelledName token = ⟨['p']⟩ ∧
        (Regions.ofFile (.ofText promotingClass)).enclosingClass? site.node = some ⟨['A']⟩ ∧
        (∀ strict, ∃ report,
          ((Session.empty.add promotingClass).1.findMembers textHash promotingClass
            ⟨some ⟨['A']⟩, some (spelledName token), some site.kind⟩ ⟨true, strict⟩).1 = .ok report ∧
          site.occurrence token (some ⟨['A']⟩) ∈ report.occurrences) ∧
        ∀ q options report,
          ((Session.empty.add promotingClass).1.findMembers textHash promotingClass q options).1 =
            .ok report → ∀ note ∈ report.notes, note.unknownClass? ≠ some ⟨['A']⟩ := by
  have clean : (Parse.ofText promotingClass).errors = [] := List.isEmpty_iff.mp (by decide +kernel)
  have distinct : (ClassEntry.allOfText promotingClass).Pairwise
      (fun a b => a.name.same b.name = false) := by decide +kernel
  have found : ((Cursor.ofText promotingClass).sites.any fun site =>
      site.isDeclaration && site.name.spelled? == some ⟨['p']⟩
        && (Regions.ofFile (.ofText promotingClass)).enclosingClass? site.node == some ⟨['A']⟩) = true := by
    decide +kernel
  obtain ⟨site, mem, fits⟩ := List.any_eq_true.mp found
  simp only [Bool.and_eq_true, beq_iff_eq] at fits
  obtain ⟨⟨declares, name⟩, enclosing⟩ := fits
  cases literal : site.name with
  | literal token =>
      rw [literal] at name
      have named : site.NamedBy token := .of_site? (Cursor.mem_sites.mp mem).2 literal
      exact ⟨clean, distinct, site, mem, token, declares, named, Option.some.inj name, enclosing,
        findMembers_own_declarations textHash .empty promotingClass clean distinct site mem declares token
          named ⟨['A']⟩ enclosing⟩
  | computed part =>
      rw [literal] at name
      cases name
  | missing =>
      rw [literal] at name
      cases name

end PhpMembers
