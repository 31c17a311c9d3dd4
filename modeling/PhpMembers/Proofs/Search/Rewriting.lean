import PhpMembers.Proofs.Search.Policy

/-! # Occurrences are safe to rewrite

Whoever replaces the ranges that a search reports replaces the searched names and nothing else: the ranges
hold these names, do not overlap and come in the order of the text.

* `Rewritable` : a list of occurrences that can be rewritten.
* `Search.found_rewritable` : what a search finds can be rewritten.
* `findMembers_rewritable` : this holds for every text, query and option. -/

namespace PhpMembers

/-- `Rewritable source q found`: the occurrences, found in the text for the query, can be rewritten. -/
structure Rewritable (source : Text) (q : Query) (found : List Occurrence) : Prop where
  /-- They come in the order of the text. -/
  ascending : found.Pairwise fun a b => a.span.start < b.span.start
  /-- Each ends before the next one begins. -/
  disjoint : found.Pairwise fun a b => a.span.stop ≤ b.span.start
  /-- No range is reported twice. -/
  distinct : (found.map Occurrence.span).Nodup
  /-- No range is empty. -/
  nonempty : ∀ o ∈ found, o.span.start < o.span.stop
  /-- No range ends behind the text. -/
  inside : ∀ o ∈ found, o.span.stop ≤ utf8Length source
  /-- In the range stands the name. -/
  holds : ∀ o ∈ found, o.span.Holds source o.name.text
  /-- The name does not begin with a sigil. -/
  plain : ∀ o ∈ found, o.name.text.head? ≠ some '$'
  /-- The name is the searched one, if there is one. -/
  asked : ∀ o ∈ found, ∀ member, q.member = some member → o.name = member

namespace Search

variable {s : Search} {includeDeclarations : Bool} {source : Text} {a b : Site} {o p : Occurrence}

/-- What is found stands in the text. -/
theorem spelled_of_answer? (mem : a ∈ (Cursor.ofText source).sites)
    (answered : s.answer? includeDeclarations a = some o) : Spelled source o.span o.name.text := by
  obtain ⟨token, owner, named, -, -, rfl⟩ := (answer?_iff mem).mp answered
  exact named.spelled (Cursor.mem_sites.mp mem).1

/-- What is found first ends before what is found next begins. -/
theorem stop_le_start_of_answer? (aMem : a ∈ (Cursor.ofText source).sites)
    (bMem : b ∈ (Cursor.ofText source).sites) (ne : a.node ≠ b.node) (precedes : a.Precedes b)
    (aAnswered : s.answer? includeDeclarations a = some o)
    (bAnswered : s.answer? includeDeclarations b = some p) : o.span.stop ≤ p.span.start := by
  obtain ⟨token, owner, aNamed, -, -, rfl⟩ := (answer?_iff aMem).mp aAnswered
  obtain ⟨token', owner', bNamed, -, -, rfl⟩ := (answer?_iff bMem).mp bAnswered
  have aInTree := (Cursor.mem_sites.mp aMem).1
  have bInTree := (Cursor.mem_sites.mp bMem).1
  exact aNamed.stop_le_start bNamed aInTree bInTree ne precedes

/-- What is found has the searched name. -/
theorem name_of_answer? (mem : a ∈ (Cursor.ofText source).sites)
    (answered : s.answer? includeDeclarations a = some o) {member : MemberName}
    (searched : s.query.member = some member) : o.name = member := by
  obtain ⟨token, owner, -, asks, -, rfl⟩ := (answer?_iff mem).mp answered
  exact (asks.member member searched).symm

/-- **What a search finds in a parsed text can be rewritten.** -/
theorem found_rewritable (s : Search) (includeDeclarations : Bool) (source : Text) :
    Rewritable source s.query (s.found includeDeclarations (.ofText source)) := by
  let file := Cursor.ofText source
  -- Everything follows from two facts: each name is spelled out in the text, and each ends before the next
  -- one begins.
  have spelled : ∀ o ∈ s.found includeDeclarations file, Spelled source o.span o.name.text := by
    intro o found
    obtain ⟨site, mem, answered⟩ := List.mem_filterMap.mp found
    exact spelled_of_answer? mem answered
  have nonempty : ∀ o ∈ s.found includeDeclarations file, o.span.start < o.span.stop :=
    fun o found => (spelled o found).start_lt_stop
  have disjoint : (s.found includeDeclarations file).Pairwise fun o p => o.span.stop ≤ p.span.start := by
    have inOrder : file.sites.Pairwise fun a b => a.Precedes b ∧ a.node ≠ b.node :=
      (Site.sortByPosition_pairwise _).and file.sites_pairwise_ne
    rw [found, List.pairwise_filterMap]
    refine inOrder.imp_of_mem fun aMem bMem ⟨precedes, ne⟩ o aAnswered p bAnswered => ?_
    exact stop_le_start_of_answer? aMem bMem ne precedes aAnswered bAnswered
  have ascending : (s.found includeDeclarations file).Pairwise
      fun o p => o.span.start < p.span.start :=
    disjoint.imp_of_mem fun oFound _ le => Nat.lt_of_lt_of_le (nonempty _ oFound) le
  refine ⟨ascending, disjoint, ?_, nonempty, ?_, ?_, ?_, ?_⟩
  · rw [List.Nodup, List.pairwise_map]
    refine ascending.imp fun lt same => ?_
    rw [same] at lt
    exact Nat.lt_irrefl _ lt
  · exact fun o found => (spelled o found).holds.stop_le
  · exact fun o found => (spelled o found).holds
  · intro o found
    obtain ⟨c, cs, text, ne⟩ := (spelled o found).plain
    rw [text, List.head?_cons]
    exact fun same => ne (Option.some.inj same)
  · intro o found member searched
    obtain ⟨site, mem, answered⟩ := List.mem_filterMap.mp found
    exact name_of_answer? mem answered searched

end Search

/-- **What a search reports can be rewritten.** For every text, query and options, with whatever is known
about the program, the occurrences can be rewritten. A search is refused only where the options ask for
clean syntax and the text has syntax errors. -/
theorem findMembers_rewritable (analysis : Analysis) (source : Text) (q : Query)
    (options : SearchOptions) :
    match findMembers analysis source q options with
    | .ok report => Rewritable source q report.occurrences
    | .error _ => options.strictSyntax = true ∧ (Parse.ofText source).errors ≠ [] := by
  cases outcome : findMembers analysis source q options with
  | ok report =>
      have rewritable :=
        (Search.ofText analysis source q).found_rewritable options.includeDeclarations source
      rw [← findMembers_occurrences outcome] at rewritable
      exact rewritable
  | error e =>
      unfold findMembers at outcome
      simp only at outcome
      split at outcome
      · rename_i strict damaged
        refine ⟨strict, ?_⟩
        rw [damaged]
        exact List.cons_ne_nil _ _
      · cases outcome

end PhpMembers
