import PhpMembers.Proofs.Classes.Exploration
import PhpMembers.Proofs.Search.Policy

/-! # What a search reports as unclear

A search reports one diagnostic for each site that it cannot decide for certain, in the order of the sites, and none for
any other site. A diagnostic about the query itself stands in front of that of the first site whose decision needs the
class with which declarations are compared.

* `Search.Unclear` : the sites with a diagnostic, and what it says.
* `Search.diagnostic?_iff` : a search reports what the rules say about a site.
* `UnclearTarget`, `targetDiagnostic?_iff` : the same for the query.
* `Search.Compares`, `Search.Ordered` : where the diagnostic about the query stands.
* `findMembers_diagnostics` : the diagnostics of a search. -/

namespace PhpMembers

/-- A diagnostic with a code about a range of a text with the given lines. -/
def Diagnostic.about (lines : LineTable) (severity : Severity) (code : String) (span : Span) (message : String) :
    Diagnostic :=
  ⟨severity, span, lines.position span.start, some code, message⟩

/-! ## (1) Sites -/

namespace Search

/-- `s.Unclear lines site d`: by the rules, something about the site is unclear, and the diagnostic `d` says so. -/
inductive Unclear (s : Search) (lines : LineTable) (site : Site) : Diagnostic → Prop
  /-- The name in an access is computed. -/
  | computedName {part : Cursor} (access : site.shape ≠ .declaration) (name : site.name = .computed part) :
      Unclear s lines site (.about lines .warning "W0002" part.span
        (Note.computedName site.kind part.text part.span).message)
  /-- The name in a static access is spelled out and the qualifier is not a name. -/
  | computedClass {token : Cursor} (shape : site.shape = .staticAccess) (name : site.name = .literal token)
      (qualifier : ∀ first, site.node.firstExpression? = some first → first.kind ≠ .nameRef) :
      Unclear s lines site (.about lines .info "I0002" site.node.span
        (Note.computedClass (spelledName token) site.node.span).message)
  /-- No name is spelled out in a declaration. -/
  | nameless (shape : site.shape = .declaration) (name : ∀ token, site.name ≠ .literal token) :
      Unclear s lines site (.about lines .warning "W0003" site.node.span
        (Note.namelessDeclaration site.kind site.node.span).message)
  /-- A declaration with a name stands in no class-like with a name. -/
  | anonymousOwner {token : Cursor} (shape : site.shape = .declaration) (name : site.name = .literal token)
      (outside : s.regions.enclosingClass? site.node = none) :
      Unclear s lines site (.about lines .info "I0003" (spelledSpan token)
        (Note.anonymousOwner site.kind (spelledName token) (spelledSpan token)).message)
  /-- The receiver of an access is of a class that cannot be looked up, while members of a class are searched. Such an
  access is accepted, with this warning. -/
  | unknownReceiver {token receiver : Cursor} {owner target : ClassName} (shape : site.shape = .instanceAccess)
      (name : site.name = .literal token) (first : site.node.firstExpression? = some receiver)
      (type : s.analysis.typeAt s.source receiver.stop = .object owner) (searched : s.query.owner = some target)
      (unknown : s.analysis.snapshot? owner = none) :
      Unclear s lines site (.about lines .warning "W0004" (spelledSpan token)
        (Note.unknownReceiver owner (spelledName token) (spelledSpan token)).message)
  /-- A declaration stands in a class-like that cannot be looked up, while members of a class are searched. -/
  | unknownOwner {token : Cursor} {owner target : ClassName} (shape : site.shape = .declaration)
      (name : site.name = .literal token) (enclosing : s.regions.enclosingClass? site.node = some owner)
      (searched : s.query.owner = some target) (unknown : s.analysis.snapshot? owner = none) :
      Unclear s lines site (.about lines .warning "W0001" (spelledSpan token)
        (Note.unknownOwner owner (spelledName token) (spelledSpan token)).message)

variable {s : Search} {lines : LineTable} {site : Site} {d : Diagnostic}

/-- What a search reports about a site. -/
def diagnostic? (s : Search) (lines : LineTable) (site : Site) : Option Diagnostic :=
  (s.verdict (declarationTarget s.analysis s.query).owner site).note.map (·.diagnostic lines)

/-- The name of a declaration is not computed. -/
theorem name_ne_computed (shape : site.shape = .declaration) (part : Cursor) : site.name ≠ .computed part := by
  rw [Site.name, shape]
  simp only [Cursor.declaredName]
  split <;> exact SiteName.noConfusion

/-- What is noted about a static access is unclear. -/
theorem unclear_of_staticVerdict {token : Cursor} {note : Note} (shape : site.shape = .staticAccess)
    (name : site.name = .literal token)
    (noted : (s.staticVerdict site (spelledName token) (spelledSpan token)).note = some note) :
    s.Unclear lines site (note.diagnostic lines) := by
  rw [staticVerdict] at noted
  split at noted
  · rename_i noName
    cases noted
    refine .computedClass shape name fun first found written => ?_
    cases noName.symm.trans (Option.filter_eq_some_iff.mpr ⟨found, beq_iff_eq.mpr written⟩)
  · split at noted
    · cases noted
    · split at noted
      · cases noted
      · cases noted

/-- What is noted about an access with an arrow is unclear. -/
theorem unclear_of_instanceVerdict {token : Cursor} {note : Note} (shape : site.shape = .instanceAccess)
    (name : site.name = .literal token)
    (noted : (s.instanceVerdict site (spelledName token) (spelledSpan token)).note = some note) :
    s.Unclear lines site (note.diagnostic lines) := by
  -- Only a receiver of a class that cannot be looked up leaves a note.
  rw [instanceVerdict] at noted
  split at noted
  · cases noted
  · rename_i receiver first
    split at noted
    · split at noted
      · cases noted
      · cases noted
    · cases noted
    · rename_i owner type
      simp only at noted
      split at noted
      · cases noted
      · rename_i target searched
        split at noted
        · split at noted
          · cases noted
          · cases noted
        · rename_i unknown
          cases noted
          exact .unknownReceiver shape name first type searched unknown

/-- What is noted about a declaration in a class-like with a name is unclear. -/
theorem unclear_of_declarationVerdict {token : Cursor} {owner : ClassName} {note : Note}
    (shape : site.shape = .declaration) (name : site.name = .literal token)
    (enclosing : s.regions.enclosingClass? site.node = some owner)
    (noted : (s.declarationVerdict (declarationTarget s.analysis s.query).owner site (spelledName token)
      (spelledSpan token) owner).note = some note) : s.Unclear lines site (note.diagnostic lines) := by
  unfold declarationVerdict at noted
  simp only at noted
  split at noted
  · cases noted
  · rename_i wanted aim
    split at noted
    · split at noted
      · cases noted
      · cases noted
    · rename_i unknown
      cases noted
      obtain ⟨target, searched⟩ := Option.ne_none_iff_exists'.mp (aim_iff.mpr aim).owner
      exact .unknownOwner shape name enclosing searched unknown

/-- What is noted about a site is unclear. -/
theorem unclear_of_verdict {note : Note}
    (noted : (s.verdict (declarationTarget s.analysis s.query).owner site).note = some note) :
    s.Unclear lines site (note.diagnostic lines) := by
  rw [verdict] at noted
  -- The decisions about a site in turn; each note that one of them leaves behind has its own form.
  cases name : site.name with
  | literal token =>
      rw [name] at noted
      cases shape : site.shape with
      | staticAccess =>
          rw [shape] at noted
          exact unclear_of_staticVerdict shape name noted
      | instanceAccess =>
          rw [shape] at noted
          exact unclear_of_instanceVerdict shape name noted
      | declaration =>
          rw [shape] at noted
          cases enclosing : s.regions.enclosingClass? site.node with
          | some owner =>
              rw [enclosing] at noted
              exact unclear_of_declarationVerdict shape name enclosing noted
          | none =>
              rw [enclosing] at noted
              cases noted
              exact .anonymousOwner shape name enclosing
  | computed part =>
      rw [name] at noted
      cases noted
      exact .computedName (fun shape => name_ne_computed shape part name) name
  | missing =>
      rw [name] at noted
      cases shape : site.isDeclaration with
      | true =>
          rw [shape] at noted
          cases noted
          refine .nameless (beq_iff_eq.mp shape) fun token literal => ?_
          cases name.symm.trans literal
      | false =>
          rw [shape] at noted
          cases noted

/-- What is unclear about a site is reported. -/
theorem Unclear.reported (unclear : s.Unclear lines site d) : s.diagnostic? lines site = some d := by
  rw [diagnostic?]
  cases unclear with
  | computedName _ name =>
      rw [verdict, name]
      rfl
  | computedClass shape name qualifier =>
      have noName : site.node.firstExpression?.filter (·.kind == .nameRef) = none := by
        refine Option.eq_none_iff_forall_ne_some.mpr fun first found => ?_
        obtain ⟨found, written⟩ := Option.filter_eq_some_iff.mp found
        exact qualifier first found (beq_iff_eq.mp written)
      rw [verdict, name, shape]
      simp only [staticVerdict, noName]
      rfl
  | nameless shape name =>
      cases named : site.name with
      | literal token => exact absurd named (name token)
      | computed part => exact absurd named (name_ne_computed shape part)
      | missing =>
          have declares : site.isDeclaration = true := beq_iff_eq.mpr shape
          rw [verdict, named, declares]
          rfl
  | anonymousOwner shape name outside =>
      rw [verdict, name, shape, outside]
      rfl
  | unknownReceiver shape name first type searched unknown =>
      rw [verdict, name, shape]
      simp only [instanceVerdict, first, type, searched, unknown]
      rfl
  | unknownOwner shape name enclosing searched unknown =>
      obtain ⟨wanted, aim⟩ := exists_aim s.analysis searched
      rw [verdict, name, shape, enclosing]
      simp only [declarationVerdict, aim, unknown]
      rfl

/-- **A search reports what the rules say about a site, and nothing else.** -/
theorem diagnostic?_iff : s.diagnostic? lines site = some d ↔ s.Unclear lines site d := by
  refine ⟨fun reported => ?_, Unclear.reported⟩
  obtain ⟨note, noted, rfl⟩ := Option.map_eq_some_iff.mp reported
  exact unclear_of_verdict noted

end Search

/-! ## (2) The query -/

/-- The class-likes from which interfaces of a class have a member, each once in any letter case. -/
def Analysis.declarers (analysis : Analysis) (kind : Option MemberKind) (member : MemberName)
    (interfaces : List ClassName) : List ClassName :=
  newNames [] ((interfaces.filterMap (analysis.interfaceMember? kind member)).map (·.declaringClass))

/-- The class-likes that a search compares are those from which interfaces have the member. -/
theorem declaringInterfaces_eq (analysis : Analysis) (kind : Option MemberKind) (member : MemberName)
    (interfaces : List ClassName) :
    declaringInterfaces analysis kind member interfaces = analysis.declarers kind member interfaces := by
  let add (found : List ClassName) (interface : ClassName) : List ClassName :=
    (analysis.interfaceMember? kind member interface).elim found fun m =>
      if found.any (·.same m.declaringClass) then found else found ++ [m.declaringClass]
  -- What has been found so far counts as seen.
  have all (found : List ClassName) : interfaces.foldl add found =
      found ++ newNames (found.map ClassName.key).reverse
        ((interfaces.filterMap (analysis.interfaceMember? kind member)).map (·.declaringClass)) := by
    induction interfaces generalizing found with
    | nil => simp [newNames]
    | cons interface rest ih =>
        rw [List.foldl_cons, ih, List.filterMap_cons]
        cases declared : analysis.interfaceMember? kind member interface with
        | none =>
            have same : add found interface = found := by
              simp only [add, declared]
              rfl
            rw [same]
        | some m =>
            have step : add found interface =
                if found.any (·.same m.declaringClass) then found else found ++ [m.declaringClass] := by
              simp only [add, declared]
              rfl
            have seen : found.any (·.same m.declaringClass) = true ↔
                m.declaringClass.key ∈ (found.map ClassName.key).reverse := by
              simp [List.any_eq_true, ClassName.same_iff]
            rw [step, List.map_cons]
            by_cases old : found.any (·.same m.declaringClass) = true
            · rw [if_pos old, newNames_of_mem (seen.mp old)]
            · rw [if_neg old, newNames_of_notMem (mt seen.mpr old), List.map_append, List.reverse_append]
              simp
  have folds : declaringInterfaces analysis kind member interfaces = interfaces.foldl add [] := by
    refine congrArg (interfaces.foldl · []) (funext fun found => funext fun interface => ?_)
    simp only [add, Analysis.interfaceMember?]
    cases (analysis.snapshot? interface).bind (·.member? kind member.text) <;> rfl
  rw [folds]
  exact all []

/-- `UnclearTarget analysis q lines d`: by the rules, it is unclear which declarations the query is about, and the
diagnostic `d` says so. -/
inductive UnclearTarget (analysis : Analysis) (q : Query) (lines : LineTable) : Diagnostic → Prop
  /-- The searched class cannot be looked up. -/
  | unknown {target : ClassName} {member : MemberName} (owner : q.owner = some target)
      (member_eq : q.member = some member) (unknown : analysis.snapshot? target = none) :
      UnclearTarget analysis q lines (.about lines .warning "W0001" ⟨0, 0⟩ (Note.unknownTarget target).message)
  /-- The searched class does not have the member, and its interfaces have it from at least two class-likes. -/
  | several {target first second : ClassName} {member : MemberName} {c : Snapshot} {others : List ClassName}
      (owner : q.owner = some target) (member_eq : q.member = some member)
      (known : analysis.snapshot? target = some c) (lacks : c.hasMember q.kind member.text = false)
      (declarers : analysis.declarers q.kind member c.interfaces = first :: second :: others) :
      UnclearTarget analysis q lines (.about lines .info "I0001" ⟨0, 0⟩
        (Note.severalInterfaces target member first (second :: others)).message)

/-- What a search reports about its query. -/
def targetDiagnostic? (analysis : Analysis) (q : Query) (lines : LineTable) : Option Diagnostic :=
  (declarationTarget analysis q).note.map (·.diagnostic lines)

/-- **A search reports what the rules say about the query, and nothing else.** -/
theorem targetDiagnostic?_iff {analysis : Analysis} {q : Query} {lines : LineTable} {d : Diagnostic} :
    targetDiagnostic? analysis q lines = some d ↔ UnclearTarget analysis q lines d := by
  rw [targetDiagnostic?]
  constructor
  · intro reported
    obtain ⟨note, noted, rfl⟩ := Option.map_eq_some_iff.mp reported
    rw [declarationTarget] at noted
    -- There is a note if the class cannot be looked up, or if several interfaces bring the member.
    split at noted
    · cases noted
    · cases noted
    · rename_i target member owner member_eq
      split at noted
      · rename_i unknown
        cases noted
        exact .unknown owner member_eq unknown
      · rename_i c known
        rw [declaringInterfaces_eq] at noted
        split at noted
        · cases noted
        · rename_i lacks
          split at noted
          · cases noted
          · cases noted
          · rename_i first others several declarers
            cases noted
            cases others with
            | nil => exact absurd rfl several
            | cons second others => exact .several owner member_eq known (Bool.eq_false_iff.mpr lacks) declarers
  · intro unclear
    cases unclear with
    | unknown owner member_eq unknown =>
        rw [declarationTarget, owner, member_eq]
        simp only [unknown]
        rfl
    | several owner member_eq known lacks declarers =>
        rw [declarationTarget, owner, member_eq]
        simp only [known, lacks, declaringInterfaces_eq, declarers]
        rfl

/-! ## (3) The order of the diagnostics -/

/-- `s.Compares site`: the site is a declaration that spells out a name and stands in a class-like with a name. -/
def Search.Compares (s : Search) (site : Site) : Prop :=
  site.shape = .declaration ∧ (∃ token, site.name = .literal token) ∧
    ∃ owner, s.regions.enclosingClass? site.node = some owner

/-- Such sites are compared with a class. -/
theorem Search.needsTarget_iff {s : Search} {site : Site} : s.needsTarget site = true ↔ s.Compares site := by
  have declares : site.isDeclaration = true ↔ site.shape = .declaration := beq_iff_eq
  have spelled : site.name.spelled?.isSome = true ↔ ∃ token, site.name = .literal token := by
    cases site.name with
    | literal token => exact iff_of_true rfl ⟨token, rfl⟩
    | computed part => exact iff_of_false Bool.false_ne_true (by rintro ⟨_, ⟨⟩⟩)
    | missing => exact iff_of_false Bool.false_ne_true (by rintro ⟨_, ⟨⟩⟩)
  rw [needsTarget, Bool.and_eq_true, Bool.and_eq_true, declares, spelled, Option.isSome_iff_exists, and_assoc]
  rfl

/-- `Search.Ordered s own target sites all`: the diagnostics `all` are the own ones of the sites, in order. The one
about the query stands in front of that of the first site that is compared with a class, if there is such a site. -/
inductive Search.Ordered (s : Search) (own : Site → Option Diagnostic) (target : Option Diagnostic) :
    List Site → List Diagnostic → Prop
  /-- No site is compared. -/
  | never {sites : List Site} (none : ∀ site ∈ sites, ¬s.Compares site) :
      Ordered s own target sites (sites.filterMap own)
  /-- A site is compared, and none before it. -/
  | once {before after : List Site} {site : Site} (none : ∀ other ∈ before, ¬s.Compares other)
      (compares : s.Compares site) :
      Ordered s own target (before ++ site :: after)
        (before.filterMap own ++ target.toList ++ (site :: after).filterMap own)

/-- The notes of decided sites in front of the first one that needs the target. -/
theorem notesInOrder_append {target : Option Note} {before after : List (Bool × Verdict)}
    (unneeded : ∀ decided ∈ before, decided.1 = false) :
    notesInOrder target (before ++ after) = before.filterMap (·.2.note) ++ notesInOrder target after := by
  induction before with
  | nil => rfl
  | cons first rest ih =>
      obtain ⟨needed, v⟩ := first
      obtain ⟨rfl, others⟩ := List.forall_mem_cons.mp unneeded
      rw [List.cons_append, notesInOrder, if_neg Bool.false_ne_true, ih others, ← List.append_assoc,
        List.filterMap_cons]
      cases v.note <;> rfl

/-- **The diagnostics of a search are in order.** -/
theorem Search.ordered_report (s : Search) (lines : LineTable) (sites : List Site) :
    s.Ordered (s.diagnostic? lines) (targetDiagnostic? s.analysis s.query lines) sites
      ((s.report sites).notes.map (·.diagnostic lines)) := by
  let note : Option Note := (declarationTarget s.analysis s.query).note
  let decided (site : Site) : Bool × Verdict :=
    (s.needsTarget site, s.verdict (declarationTarget s.analysis s.query).owner site)
  have own (among : List Site) : ((among.map decided).filterMap (·.2.note)).map (·.diagnostic lines) =
      among.filterMap (s.diagnostic? lines) := by
    rw [List.filterMap_map, List.map_filterMap]
    rfl
  have unneeded {among : List Site} (none : ∀ site ∈ among, s.needsTarget site = false) :
      ∀ d ∈ among.map decided, d.1 = false := by
    intro d mem
    obtain ⟨site, inList, rfl⟩ := List.mem_map.mp mem
    exact none site inList
  change s.Ordered _ _ sites ((notesInOrder note (sites.map decided)).map _)
  -- The diagnostic about the query comes in at the first site that needs the class, if there is one.
  cases first : sites.find? s.needsTarget with
  | none =>
      have none : ∀ site ∈ sites, s.needsTarget site = false := by simpa using List.find?_eq_none.mp first
      have all : notesInOrder note (sites.map decided ++ []) = _ := notesInOrder_append (unneeded none)
      rw [List.append_nil, notesInOrder, List.append_nil] at all
      rw [all, own]
      exact .never fun site mem => mt Search.needsTarget_iff.mpr (Bool.eq_false_iff.mp (none site mem))
  | some site =>
      obtain ⟨needed, before, after, rfl, none⟩ := List.find?_eq_some_iff_append.mp first
      have none : ∀ other ∈ before, s.needsTarget other = false := by simpa using none
      have here : notesInOrder note ((site :: after).map decided) =
          note.toList ++ ((site :: after).map decided).filterMap (·.2.note) := by
        rw [List.map_cons, notesInOrder]
        exact if_pos needed
      have target : note.toList.map (·.diagnostic lines) =
          (targetDiagnostic? s.analysis s.query lines).toList := Option.toList_map.symm
      rw [List.map_append, notesInOrder_append (unneeded none), here, List.map_append, List.map_append, own, own,
        target, ← List.append_assoc]
      exact .once (fun other mem => mt Search.needsTarget_iff.mpr (Bool.eq_false_iff.mp (none other mem)))
        (Search.needsTarget_iff.mp needed)

/-- Diagnostics that are reported one by one are listed behind those reported before. -/
theorem DiagnosticLog.entries_foldl_report (log : DiagnosticLog) (reported : List Diagnostic) :
    (reported.foldl report log).entries = log.entries ++ reported := by
  induction reported generalizing log with
  | nil => exact (List.append_nil _).symm
  | cons d rest ih => rw [List.foldl_cons, ih, report, List.append_assoc, List.singleton_append]

/-- **The diagnostics account for the search.** A search that does not refuse damaged texts reports, in the order of its
sites, one diagnostic for each site about which something is unclear and none for any other site. The only other one
says that it is unclear which declarations the query is about, and stands right in front of what is reported from the
first declaration on that is compared with a class. In a log they are listed behind those of earlier searches. -/
theorem findMembers_diagnostics (analysis : Analysis) (source : Text) (q : Query) (includeDeclarations : Bool) :
    ∃ (report : SearchReport) (own : Site → Option Diagnostic) (target : Option Diagnostic),
      findMembers analysis source q ⟨includeDeclarations, false⟩ = .ok report ∧
      (∀ site d, own site = some d ↔ (Search.ofText analysis source q).Unclear (.ofText source) site d) ∧
      (∀ d, target = some d ↔ UnclearTarget analysis q (.ofText source) d) ∧
      (Search.ofText analysis source q).Ordered own target (q.sites includeDeclarations (.ofText source))
        (report.notes.map (·.diagnostic (.ofText source))) ∧
      ∀ log : DiagnosticLog,
        ((report.notes.map (·.diagnostic (.ofText source))).foldl DiagnosticLog.report log).entries =
          log.entries ++ report.notes.map (·.diagnostic (.ofText source)) := by
  let s := Search.ofText analysis source q
  refine ⟨_, s.diagnostic? (.ofText source), targetDiagnostic? analysis q (.ofText source),
    findMembers_lenient analysis source q includeDeclarations, fun site d => Search.diagnostic?_iff,
    fun d => targetDiagnostic?_iff, s.ordered_report _ _, fun log => log.entries_foldl_report _⟩

end PhpMembers
