import PhpMembers.Proofs.Search.Rules
import PhpMembers.Search.Find

/-! # What a search finds

A search of a text goes through the sites of the text. It finds what the rules say and nothing else.

* `Search.answer?`, `Search.answer?_iff` : the occurrence at a site.
* `Search.found`, `findMembers_occurrences` : the occurrences in a text.
* `Search.Refers`, `findMembers_policy` : a search finds each node that the rules name, once. -/

namespace PhpMembers

/-! ## (1) Searching a file -/

namespace Search

/-- The search of a text. -/
def ofText (analysis : Analysis) (source : Text) (q : Query) : Search :=
  ⟨source, .ofFile (.ofText source), q, analysis⟩

/-- The occurrence at a site, if the search finds one. -/
def answer? (s : Search) (includeDeclarations : Bool) (site : Site) : Option Occurrence :=
  if s.query.acceptsSite includeDeclarations site then
    (s.verdict (declarationTarget s.analysis s.query).owner site).occurrence
  else none

/-- **A search finds the sites that it is about and that are credited to some class.** -/
theorem answer?_iff {s : Search} {includeDeclarations : Bool} {source : Text} {site : Site}
    {o : Occurrence} (mem : site ∈ (Cursor.ofText source).sites) :
    s.answer? includeDeclarations site = some o ↔
      ∃ token owner, site.NamedBy token ∧ s.query.Asks includeDeclarations site token ∧
        s.Credits site owner ∧ o = site.occurrence token owner := by
  obtain ⟨inTree, found⟩ := Cursor.mem_sites.mp mem
  rw [answer?]
  constructor
  · intro answered
    split at answered
    · rename_i accepted
      obtain ⟨token, owner, literal, credits, o_eq⟩ := verdict_iff.mp answered
      have named : site.NamedBy token := .of_site? found literal
      exact ⟨token, owner, named, (Query.acceptsSite_iff inTree named).mp accepted, credits, o_eq⟩
    · cases answered
  · rintro ⟨token, owner, named, asks, credits, o_eq⟩
    rw [if_pos ((Query.acceptsSite_iff inTree named).mpr asks)]
    exact verdict_iff.mpr ⟨token, owner, (Site.namedBy_iff.mp named).2, credits, o_eq⟩

/-- The occurrences that a search finds. -/
def found (s : Search) (includeDeclarations : Bool) (file : Cursor) : List Occurrence :=
  file.sites.filterMap (s.answer? includeDeclarations)

/-- A report lists the answers at the chosen sites. -/
theorem report_occurrences (s : Search) (includeDeclarations : Bool) (file : Cursor) :
    (s.report (s.query.sites includeDeclarations file)).occurrences =
      s.found includeDeclarations file := by
  rw [report, Query.sites_eq]
  simp only
  rw [List.filterMap_map, List.filterMap_filter]
  rfl

end Search

/-- A search that goes through reports the answers at the sites of the file. -/
theorem findMembers_occurrences {analysis : Analysis} {source : Text} {q : Query}
    {options : SearchOptions} {report : SearchReport}
    (ok : findMembers analysis source q options = .ok report) :
    report.occurrences =
      (Search.ofText analysis source q).found options.includeDeclarations (.ofText source) := by
  unfold findMembers at ok
  simp only at ok
  split at ok
  · cases ok
  · obtain rfl := Except.ok.inj ok
    exact (Search.ofText analysis source q).report_occurrences _ _

/-- A search that does not insist on clean syntax goes through. -/
theorem findMembers_lenient (analysis : Analysis) (source : Text) (q : Query)
    (includeDeclarations : Bool) :
    findMembers analysis source q ⟨includeDeclarations, false⟩ =
      .ok ((Search.ofText analysis source q).report (q.sites includeDeclarations (.ofText source))) := by
  unfold findMembers
  rfl

/-! ## (2) The policy -/

/-- `s.Refers includeDeclarations c o`: by the rules, the node `c` names a searched member, with the
occurrence `o`. -/
inductive Search.Refers (s : Search) (includeDeclarations : Bool) : Cursor → Occurrence → Prop
  /-- The node has one of the forms and spells out the name, the query is about it, and it is credited. -/
  | intro {site : Site} {token : Cursor} {owner : Option ClassName} (named : site.NamedBy token)
      (asked : s.query.Asks includeDeclarations site token) (credited : s.Credits site owner) :
      Refers s includeDeclarations site.node (site.occurrence token owner)

/-- **A search follows the rules.** It finds one occurrence for each node that names a searched member by the
rules, the one that the rules give, and nothing else. -/
theorem findMembers_policy (analysis : Analysis) (source : Text) (q : Query)
    (includeDeclarations : Bool) :
    ∃ (report : SearchReport) (found : List (Cursor × Occurrence)),
      findMembers analysis source q ⟨includeDeclarations, false⟩ = .ok report ∧
      report.occurrences = found.map Prod.snd ∧ (found.map Prod.fst).Nodup ∧
      ∀ c o, (c, o) ∈ found ↔ c ∈ (Cursor.ofText source).descendants ∧
        (Search.ofText analysis source q).Refers includeDeclarations c o := by
  have ok := findMembers_lenient analysis source q includeDeclarations
  let s := Search.ofText analysis source q
  let file := Cursor.ofText source
  -- Each answer is listed together with the node of its site.
  let answers (site : Site) : Option (Cursor × Occurrence) :=
    (s.answer? includeDeclarations site).map fun o => (site.node, o)
  refine ⟨_, file.sites.filterMap answers, ok, ?_, ?_, ?_⟩
  · rw [findMembers_occurrences ok, List.map_filterMap]
    refine List.filterMap_congr fun site _ => ?_
    rw [Option.map_map]
    exact Option.map_id'.symm
  · rw [List.Nodup, List.pairwise_map, List.pairwise_filterMap]
    refine file.sites_pairwise_ne.imp fun ne pair eq pair' eq' => ?_
    obtain ⟨o, -, rfl⟩ := Option.map_eq_some_iff.mp eq
    obtain ⟨o', -, rfl⟩ := Option.map_eq_some_iff.mp eq'
    exact ne
  · intro c o
    rw [List.mem_filterMap]
    constructor
    · rintro ⟨site, mem, eq⟩
      obtain ⟨o', answered, pair⟩ := Option.map_eq_some_iff.mp eq
      obtain ⟨rfl, rfl⟩ := Prod.mk.inj pair
      obtain ⟨token, owner, named, asked, credited, rfl⟩ := (Search.answer?_iff mem).mp answered
      exact ⟨(Cursor.mem_sites.mp mem).1, .intro named asked credited⟩
    · rintro ⟨inTree, refers⟩
      cases refers with
      | @intro site token owner named asked credited =>
          have mem : site ∈ file.sites :=
            Cursor.mem_sites.mpr ⟨inTree, (Site.namedBy_iff.mp named).1⟩
          have answered := (Search.answer?_iff mem).mpr ⟨token, owner, named, asked, credited, rfl⟩
          exact ⟨site, mem, Option.map_eq_some_iff.mpr ⟨_, answered, rfl⟩⟩

end PhpMembers
