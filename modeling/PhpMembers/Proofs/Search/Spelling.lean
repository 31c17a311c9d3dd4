import PhpMembers.Proofs.Classes.Instances
import PhpMembers.Proofs.Search.OwnIndex
import PhpMembers.Proofs.Search.Rewriting

/-! # The spelling of the searched class

Two searches that differ in the letter case of the searched class only are compared. They look up the same
classes, so they decide alike about declarations and accesses with an arrow. Static accesses are compared
with the class as it is spelled.

* `Analysis.Caseless` : answers that do not depend on letter case.
* `key_declarationTarget` : declarations are compared with the same class.
* `Search.answer?_congr` : the same occurrence is found at every site but a static access.
* `Occurrence.isAt` : the form of the site that an occurrence names.
* `findMembers_of_same` : what two such searches have in common. -/

namespace PhpMembers

/-! ## (1) Looking up classes -/

/-- What is known of a class does not depend on the letter case of its name. -/
def Analysis.Caseless (analysis : Analysis) : Prop :=
  ∀ a b : ClassName, a.key = b.key → analysis.snapshot? a = analysis.snapshot? b

/-- Letter case does not matter to a session. -/
theorem Session.snapshot?_congr (s : Session) {a b : ClassName} (same : a.key = b.key) :
    s.snapshot? a = s.snapshot? b := by
  rw [snapshot?, PhpMembers.snapshot?, findIn_congr _ same]
  rfl

section

variable {analysis : Analysis} {a b : ClassName} (member : Option MemberName) (kind : Option MemberKind)

/-- **Declarations are compared with the same class**, in some letter case: the searched one as it is spelled,
or the class-like from which it has the member. -/
theorem key_declarationTarget (caseless : analysis.Caseless) (same : a.key = b.key) :
    (declarationTarget analysis ⟨some a, member, kind⟩).owner.map ClassName.key =
      (declarationTarget analysis ⟨some b, member, kind⟩).owner.map ClassName.key := by
  have keys : (some a).map ClassName.key = (some b).map ClassName.key := congrArg some same
  cases member with
  | none => exact keys
  | some member =>
      -- Both spellings have one snapshot, so they differ at most where the answer is the searched class itself.
      have snapshots := caseless a b same
      cases known : analysis.snapshot? b with
      | none =>
          rw [known] at snapshots
          simp only [declarationTarget, snapshots, known]
          exact keys
      | some c =>
          rw [known] at snapshots
          cases has : c.hasMember kind member.text with
          | true =>
              rw [declarationTarget_of_has rfl rfl snapshots has, declarationTarget_of_has rfl rfl known has,
                keys]
          | false =>
              rw [declarationTarget_of_lacks rfl rfl snapshots has, declarationTarget_of_lacks rfl rfl known has]
              cases c.interfaces.findSome? (analysis.interfaceMember? kind member) with
              | none => exact keys
              | some m => rfl

/-! ## (2) Deciding about sites -/

/-- Letter case does not matter to what is decided about a declaration. -/
theorem Search.declarationVerdict_congr (s s' : Search) (analyses : s.analysis = s'.analysis)
    {target target' : Option ClassName} (same : target.map ClassName.key = target'.map ClassName.key)
    (site : Site) (name : MemberName) (span : Span) (owner : ClassName) :
    s.declarationVerdict target site name span owner = s'.declarationVerdict target' site name span owner := by
  cases target with
  | none =>
      cases target' with
      | none => rfl
      | some wanted => cases same
  | some wanted =>
      cases target' with
      | none => cases same
      | some wanted' =>
          have keys : wanted.key = wanted'.key := Option.some.inj same
          simp only [declarationVerdict, analyses, Snapshot.isInstanceOf_congr _ keys]

/-- Letter case does not matter to what is decided about an access with an arrow. -/
theorem Search.instanceVerdict_congr (source : Text) (same : a.key = b.key) (site : Site) (name : MemberName)
    (span : Span) :
    (ofText analysis source ⟨some a, member, kind⟩).instanceVerdict site name span =
      (ofText analysis source ⟨some b, member, kind⟩).instanceVerdict site name span := by
  rw [instanceVerdict, instanceVerdict]
  cases site.node.firstExpression? with
  | none => rfl
  | some receiver =>
      simp only [ofText]
      cases analysis.typeAt source receiver.stop with
      | unknown => rfl
      | primitive name => rfl
      | object owner => simp only [Snapshot.isInstanceOf_congr _ same]

/-- **The same occurrence is found at every site but a static access.** -/
theorem Search.answer?_congr (caseless : analysis.Caseless) (source : Text) (includeDeclarations : Bool)
    (same : a.key = b.key) {site : Site} (notStatic : site.shape ≠ .staticAccess) :
    (ofText analysis source ⟨some a, member, kind⟩).answer? includeDeclarations site =
      (ofText analysis source ⟨some b, member, kind⟩).answer? includeDeclarations site := by
  have targets := key_declarationTarget member kind caseless same
  -- The class of a query has no part in the choice of its sites.
  refine congrArg (fun v : Verdict =>
    if Query.acceptsSite ⟨some b, member, kind⟩ includeDeclarations site then v.occurrence else none) ?_
  rw [verdict, verdict]
  cases site.name with
  | literal token =>
      cases shape : site.shape with
      | staticAccess => exact absurd shape notStatic
      | instanceAccess => exact instanceVerdict_congr member kind source same site _ _
      | declaration =>
          simp only [ofText]
          split
          · exact declarationVerdict_congr _ _ rfl targets site _ _ _
          · rfl
  | computed part => rfl
  | missing => rfl

/-! ## (3) Comparing reports -/

/-- Whether the occurrence is the name of a site of the given form. -/
def Occurrence.isAt (o : Occurrence) (shape : SiteShape) (source : Text) : Bool :=
  (Cursor.ofText source).sites.any fun site =>
    site.shape == shape && site.name.spelled? == some o.name && site.name.span? == some o.span

variable {s : Search} {includeDeclarations : Bool} {source : Text} {site : Site} {o : Occurrence}

/-- What is found is the name of its site. -/
theorem Search.isAt_of_answer? (mem : site ∈ (Cursor.ofText source).sites)
    (answered : s.answer? includeDeclarations site = some o) : o.isAt site.shape source = true := by
  obtain ⟨token, owner, named, -, -, rfl⟩ := (answer?_iff mem).mp answered
  refine List.any_eq_true.mpr ⟨site, mem, ?_⟩
  rw [(Site.namedBy_iff.mp named).2]
  simp [SiteName.spelled?, SiteName.span?, Site.occurrence]

/-- **What is found is the name of no other site**, so it is at sites of one form only. -/
theorem Search.shape_eq_of_isAt (mem : site ∈ (Cursor.ofText source).sites)
    (answered : s.answer? includeDeclarations site = some o) {shape : SiteShape}
    (isAt : o.isAt shape source = true) : site.shape = shape := by
  obtain ⟨token, owner, named, -, -, rfl⟩ := (answer?_iff mem).mp answered
  obtain ⟨other, otherMem, fits⟩ := List.any_eq_true.mp isAt
  simp only [Bool.and_eq_true, beq_iff_eq] at fits
  obtain ⟨⟨rfl, spelled⟩, span⟩ := fits
  obtain ⟨inTree, found⟩ := Cursor.mem_sites.mp mem
  obtain ⟨otherInTree, otherFound⟩ := Cursor.mem_sites.mp otherMem
  cases literal : other.name with
  | literal token' =>
      have otherNamed : other.NamedBy token' := .of_site? otherFound literal
      rw [literal] at span
      have spans : spelledSpan token' = spelledSpan token := Option.some.inj span
      by_cases node : site.node = other.node
      · rw [node, otherFound] at found
        rw [Option.some.inj found]
      · -- Names of different nodes lie apart, and no name is empty.
        have some := (named.spelled inTree).start_lt_stop
        rcases Std.Total.total (r := Site.Precedes) site other with before | after
        · have apart := named.stop_le_start otherNamed inTree otherInTree node before
          rw [spans] at apart
          exact absurd some (Nat.not_lt.mpr apart)
        · have apart := otherNamed.stop_le_start named otherInTree inTree (Ne.symm node) after
          rw [spans] at apart
          exact absurd some (Nat.not_lt.mpr apart)
  | computed part =>
      rw [literal] at spelled
      cases spelled
  | missing =>
      rw [literal] at spelled
      cases spelled

/-- Searches that find the same but for static accesses report the same of everything that is none. -/
theorem Search.filter_found_congr {s s' : Search}
    (alike : ∀ site, site.shape ≠ .staticAccess →
      s.answer? includeDeclarations site = s'.answer? includeDeclarations site)
    {keep : Occurrence → Bool}
    (dropped : ∀ t : Search, ∀ site ∈ (Cursor.ofText source).sites, site.shape = .staticAccess →
      ∀ o, t.answer? includeDeclarations site = some o → keep o = false) :
    (s.found includeDeclarations (.ofText source)).filter keep =
      (s'.found includeDeclarations (.ofText source)).filter keep := by
  have none {t : Search} {site : Site} (mem : site ∈ (Cursor.ofText source).sites)
      (isStatic : site.shape = .staticAccess) : (t.answer? includeDeclarations site).filter keep = none := by
    cases answered : t.answer? includeDeclarations site with
    | none => rfl
    | some o => rw [Option.filter_some, dropped t site mem isStatic o answered]; rfl
  rw [found, found, List.filter_filterMap, List.filter_filterMap]
  refine List.filterMap_congr fun site mem => ?_
  by_cases isStatic : site.shape = .staticAccess
  · rw [none mem isStatic, none mem isStatic]
  · rw [alike site isStatic]

/-- What only one of two such searches finds is a static access. -/
theorem Search.isAt_staticAccess_of_notMem {s s' : Search}
    (alike : ∀ site, site.shape ≠ .staticAccess →
      s.answer? includeDeclarations site = s'.answer? includeDeclarations site)
    (mem : o ∈ s.found includeDeclarations (.ofText source))
    (notMem : o ∉ s'.found includeDeclarations (.ofText source)) : o.isAt .staticAccess source = true := by
  obtain ⟨site, isSite, answered⟩ := List.mem_filterMap.mp mem
  by_cases isStatic : site.shape = .staticAccess
  · rw [← isStatic]
    exact isAt_of_answer? isSite answered
  · rw [alike site isStatic] at answered
    exact absurd (List.mem_filterMap.mpr ⟨site, isSite, answered⟩) notMem

/-- Whether a search is refused does not depend on what is searched. -/
theorem refused_or_reported (analysis : Analysis) (source : Text) (q q' : Query) (options : SearchOptions) :
    (∃ e, findMembers analysis source q options = .error e ∧ findMembers analysis source q' options = .error e) ∨
      ∃ r r', findMembers analysis source q options = .ok r ∧ findMembers analysis source q' options = .ok r' := by
  simp only [findMembers]
  cases options.strictSyntax with
  | false => exact .inr ⟨_, _, rfl, rfl⟩
  | true =>
      cases (Parse.ofText source).errors with
      | nil => exact .inr ⟨_, _, rfl, rfl⟩
      | cons first others => exact .inl ⟨_, rfl, rfl⟩

end

/-- **The letter case of the searched class matters to static accesses only.** In any session, two searches of
a text that differ in it are both refused, with the same error, or both report the same declarations and the
same accesses with an arrow, with the same ranges, kinds and owners and in the same order. What only one of
them reports is a static access. -/
theorem findMembers_of_same (s : Session) (hash : Text → UInt64) (source : Text) (member : Option MemberName)
    (kind : Option MemberKind) (options : SearchOptions) (a b : ClassName) (same : a.same b = true) :
    match (s.findMembers hash source ⟨some a, member, kind⟩ options).1,
      (s.findMembers hash source ⟨some b, member, kind⟩ options).1 with
    | .ok r, .ok r' =>
      r.occurrences.filter (·.isDeclaration) = r'.occurrences.filter (·.isDeclaration) ∧
        r.occurrences.filter (·.isAt .instanceAccess source) =
          r'.occurrences.filter (·.isAt .instanceAccess source) ∧
        (∀ o ∈ r.occurrences, o ∉ r'.occurrences → o.isAt .staticAccess source = true) ∧
        ∀ o ∈ r'.occurrences, o ∉ r.occurrences → o.isAt .staticAccess source = true
    | .error e, .error e' => e = e'
    | _, _ => False := by
  obtain ⟨analysis, asked, answers⟩ := s.exists_analysis hash source
  have caseless : analysis.Caseless := fun a b same => by rw [answers, s.snapshot?_congr same]
  rw [asked, asked]
  have keys := ClassName.same_iff.mp same
  have alike (site : Site) (notStatic : site.shape ≠ .staticAccess) :=
    Search.answer?_congr member kind caseless source options.includeDeclarations keys notStatic
  rcases refused_or_reported analysis source ⟨some a, member, kind⟩ ⟨some b, member, kind⟩ options with
    ⟨e, first, second⟩ | ⟨r, r', first, second⟩
  · rw [first, second]
  · rw [first, second]
    simp only
    rw [findMembers_occurrences first, findMembers_occurrences second]
    refine ⟨Search.filter_found_congr alike fun t site mem isStatic o answered => ?_,
      Search.filter_found_congr alike fun t site mem isStatic o answered => ?_,
      fun o mem notMem => Search.isAt_staticAccess_of_notMem alike mem notMem,
      fun o mem notMem => Search.isAt_staticAccess_of_notMem (fun site ne => (alike site ne).symm) mem notMem⟩
    · obtain ⟨token, owner, -, -, -, rfl⟩ := (Search.answer?_iff mem).mp answered
      rw [Site.occurrence, Site.isDeclaration, isStatic]
      rfl
    · refine Bool.eq_false_iff.mpr fun isAt => ?_
      cases isStatic.symm.trans (Search.shape_eq_of_isAt mem answered isAt)

/-- A method that calls itself, with an arrow and with a double colon. -/
def callingItself : Text := "<?php class A\x7bfunction f()\x7b$this->f();A::f();\x7d\x7d".toList

/-- Spelled as it is, the class has all three; in lower case, it lacks the call with a double colon. -/
theorem findMembers_of_same_callingItself :
    ((((Session.empty.add callingItself).1.findMembers textHash callingItself
        ⟨some ⟨['A']⟩, some ⟨['f']⟩, none⟩ ⟨true, true⟩).1.toOption.map fun r =>
          (r.occurrences.map (·.isDeclaration))) = some [true, false, false] ∧
      ((Session.empty.add callingItself).1.findMembers textHash callingItself
        ⟨some ⟨['a']⟩, some ⟨['f']⟩, none⟩ ⟨true, true⟩).1.toOption.map (fun r =>
          (r.occurrences.map (·.isDeclaration))) = some [true, false]) ∧
    match ((Session.empty.add callingItself).1.findMembers textHash callingItself
        ⟨some ⟨['A']⟩, some ⟨['f']⟩, none⟩ ⟨true, true⟩).1,
      ((Session.empty.add callingItself).1.findMembers textHash callingItself
        ⟨some ⟨['a']⟩, some ⟨['f']⟩, none⟩ ⟨true, true⟩).1 with
    | .ok r, .ok r' =>
      r.occurrences.filter (·.isDeclaration) = r'.occurrences.filter (·.isDeclaration) ∧
        r.occurrences.filter (·.isAt .instanceAccess callingItself) =
          r'.occurrences.filter (·.isAt .instanceAccess callingItself) ∧
        (∀ o ∈ r.occurrences, o ∉ r'.occurrences → o.isAt .staticAccess callingItself = true) ∧
        ∀ o ∈ r'.occurrences, o ∉ r.occurrences → o.isAt .staticAccess callingItself = true
    | .error e, .error e' => e = e'
    | _, _ => False :=
  ⟨by decide +kernel, findMembers_of_same _ textHash callingItself _ _ _ ⟨['A']⟩ ⟨['a']⟩ (by decide)⟩

end PhpMembers
