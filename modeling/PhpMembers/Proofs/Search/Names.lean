import Mathlib.Data.List.Pairwise
import PhpMembers.Proofs.Search.Candidates
import PhpMembers.Proofs.Search.Order
import PhpMembers.Proofs.Syntax.Lossless
import PhpMembers.Proofs.Syntax.Places

/-! # The names that sites spell out

A name that is spelled out is a leaf directly below its site: an identifier, or a variable with its sigil.
So no two sites share a name, and names lie apart from each other.

* `Spelled` : a name that stands in a text and does not begin with a sigil.
* `Cursor.spelled`, `Site.NamedBy.spelled` : what the token of a name spells out.
* `Site.NamedBy.stop_le_start` : listed one after the other, names lie one after the other.
* `Query.acceptsName_iff` : a query compares names as they are. -/

namespace PhpMembers

/-! ## (1) What a token spells out -/

/-- The tree of a text as a place. -/
def Cursor.ofText (source : Text) : Cursor := .root (Parse.ofText source).tree

/-- What is recorded as a variable is one. -/
theorem Recorded.variable {before : List Token} {t : Token} {kind : Kind}
    (recorded : Recorded before t kind) (isVariable : kind = .variable) : t.kind = .variable := by
  cases recorded with
  | own => exact isVariable
  | reserved => cases isVariable
  | relative => cases isVariable

/-- What is recorded as an identifier is one or a reserved word. -/
theorem Recorded.ident {before : List Token} {t : Token} {kind : Kind}
    (recorded : Recorded before t kind) (isIdent : kind = .ident) : t.kind.isMemberName = true := by
  cases recorded with
  | own =>
      rw [isIdent]
      rfl
  | reserved keyword =>
      rw [Kind.isMemberName, keyword]
      exact Bool.or_true _
  | relative => cases isIdent

/-- A leaf of a parsed text stands for a token. -/
theorem Cursor.exists_token {source : Text} {d : Cursor} (mem : d ∈ (ofText source).leaves) :
    ∃ before, ∃ t ∈ tokenize source, t.text = d.text ∧ Recorded before t d.kind := by
  have records : Records [] (tokenize source) (Parse.ofText source).tree.leaves :=
    Parse.records_ofTokens (tokenize source)
  have inTree : (d.kind, d.text) ∈ (Parse.ofText source).tree.leaves := by
    have same : (ofText source).leaves.map (fun d => (d.kind, d.text)) =
        (Parse.ofText source).tree.leaves := leaves_map (ofText source)
    rw [← same]
    exact List.mem_map_of_mem mem
  exact records.exists_token inTree

/-- `Spelled source span text`: the text stands in the range of the source, and it is not empty and does not
begin with `$`. -/
structure Spelled (source : Text) (span : Span) (text : Text) : Prop where
  /-- The text stands in the range. -/
  holds : span.Holds source text
  /-- The text begins with some other character. -/
  plain : ∃ c cs, text = c :: cs ∧ c ≠ '$'

namespace Span.Holds

variable {source text : Text} {span : Span}

/-- A range that holds a text ends inside the source. -/
theorem stop_le (holds : span.Holds source text) : span.stop ≤ utf8Length source := by
  obtain ⟨before, after, rfl, start, stop⟩ := holds
  rw [utf8Length_append, utf8Length_append]
  omega

/-- A range that holds something is not empty. -/
theorem start_lt_stop {c : Char} (holds : span.Holds source (c :: text)) :
    span.start < span.stop := by
  obtain ⟨before, after, -, -, stop⟩ := holds
  have pos := c.utf8Size_pos
  rw [utf8Length_cons] at stop
  omega

/-- Behind the first character of a text stands the rest. -/
theorem tail {c : Char} (holds : span.Holds source (c :: text)) :
    Span.Holds ⟨span.start + c.utf8Size, span.stop⟩ source text := by
  obtain ⟨before, after, source_eq, start, stop⟩ := holds
  refine ⟨before ++ [c], after, ?_, ?_, ?_⟩
  · rw [source_eq]
    simp only [List.append_assoc, List.cons_append, List.nil_append]
  · show span.start + c.utf8Size = _
    rw [utf8Length_append, start]
    rfl
  · show span.stop = span.start + c.utf8Size + utf8Length text
    rw [stop, utf8Length_cons, Nat.add_assoc]

end Span.Holds

/-- A spelled text is not empty. -/
theorem Spelled.start_lt_stop {source text : Text} {span : Span} (spelled : Spelled source span text) :
    span.start < span.stop := by
  obtain ⟨holds, c, cs, rfl, -⟩ := spelled
  exact holds.start_lt_stop

section

variable {token : Cursor} {c : Char} {cs : Text}

/-- A token without a sigil spells out its text. -/
theorem spelledName_of_ne (text : token.text = c :: cs) (ne : c ≠ '$') :
    (spelledName token).text = c :: cs := by
  have stays : (c == '$') = false := beq_eq_false_iff_ne.mpr ne
  rw [spelledName, text, MemberName.ofSyntax, dropLeading, List.dropWhile_cons, stays]
  rfl

/-- A token without a sigil spells out its text where it stands. -/
theorem spelledSpan_of_ne (text : token.text = c :: cs) (ne : c ≠ '$') :
    spelledSpan token = token.span := by
  rw [spelledSpan]
  split
  · rename_i sigiled
    rw [text] at sigiled
    exact absurd (List.cons.inj sigiled).1 ne
  · rfl

/-- A token with one sigil spells out the rest of its text. -/
theorem spelledName_of_sigil (text : token.text = '$' :: c :: cs) (ne : c ≠ '$') :
    (spelledName token).text = c :: cs := by
  have stays : (c == '$') = false := beq_eq_false_iff_ne.mpr ne
  have sigil : ('$' == '$') = true := rfl
  rw [spelledName, text, MemberName.ofSyntax, dropLeading, List.dropWhile_cons, if_pos sigil,
    List.dropWhile_cons, stays]
  rfl

/-- A token with a sigil spells out what stands behind the sigil. -/
theorem spelledSpan_of_sigil (text : token.text = '$' :: cs) :
    spelledSpan token = ⟨token.start + 1, token.stop⟩ := by
  rw [spelledSpan, text]
  rfl

end

/-- **A token that spells out a name is the name, with a `$` in front of it if it is a variable.** -/
theorem Cursor.spelled {source : Text} {token : Cursor} (mem : token ∈ (ofText source).leaves)
    (kind : token.kind = .ident ∨ token.kind = .variable) :
    Spelled source (spelledSpan token) (spelledName token).text ∧
      token.start ≤ (spelledSpan token).start ∧ (spelledSpan token).stop = token.stop := by
  have holds : token.span.Holds source token.text := by
    have := holds_of_mem_elements (List.mem_of_mem_filter mem)
    rwa [Parse.text_ofText] at this
  obtain ⟨before, t, inTokens, same, recorded⟩ := exists_token mem
  rcases kind with ident | sigiled
  · -- An identifier may stand for a reserved word, which has no sigil, either.
    obtain ⟨c, cs, text, ne⟩ := Token.name_text inTokens (recorded.ident ident)
    rw [same] at text
    rw [spelledName_of_ne text ne, spelledSpan_of_ne text ne, ← text]
    exact ⟨⟨holds, c, cs, text, ne⟩, Nat.le_refl _, rfl⟩
  · obtain ⟨c, cs, text, ne⟩ := Token.variable_text inTokens (recorded.variable sigiled)
    rw [same] at text
    rw [spelledName_of_sigil text ne, spelledSpan_of_sigil text]
    rw [text] at holds
    exact ⟨⟨holds.tail, c, cs, rfl, ne⟩, Nat.le_succ _, rfl⟩

/-! ## (2) Names of different sites -/

section

variable {source : Text} {a b : Site} {s t : Cursor}

/-- The parts of the nodes of a tree that are leaves are leaves of the tree. -/
theorem Site.NamedBy.mem_leaves (named : a.NamedBy s)
    (mem : a.node ∈ (Cursor.ofText source).descendants) : s ∈ (Cursor.ofText source).leaves := by
  obtain ⟨part, leaf⟩ := List.mem_filter.mp named.part
  have below := Cursor.children_subset_elements (List.mem_of_mem_filter mem) part
  exact List.mem_filter.mpr ⟨below, leaf⟩

/-- What the token of a site spells out. -/
theorem Site.NamedBy.spelled (named : a.NamedBy s)
    (mem : a.node ∈ (Cursor.ofText source).descendants) :
    Spelled source (spelledSpan s) (spelledName s).text :=
  (Cursor.spelled (named.mem_leaves mem) named.kind_cases).1

/-- Different leaves lie apart from each other. -/
theorem Cursor.leaves_apart {c : Cursor} (sMem : s ∈ c.leaves) (tMem : t ∈ c.leaves) (ne : s ≠ t) :
    s.stop ≤ t.start ∨ t.stop ≤ s.start := by
  have symm : Std.Symm fun s t : Cursor => s.stop ≤ t.start ∨ t.stop ≤ s.start :=
    ⟨fun _ _ => Or.symm⟩
  have apart : c.leaves.Pairwise fun s t => s.stop ≤ t.start ∨ t.stop ≤ s.start :=
    (leaves_pairwise c).imp Or.inl
  exact apart.forall sMem tMem ne

/-- **Listed one after the other, names lie one after the other.** -/
theorem Site.NamedBy.stop_le_start (aNamed : a.NamedBy s) (bNamed : b.NamedBy t)
    (aMem : a.node ∈ (Cursor.ofText source).descendants)
    (bMem : b.node ∈ (Cursor.ofText source).descendants) (ne : a.node ≠ b.node)
    (precedes : a.Precedes b) : (spelledSpan s).stop ≤ (spelledSpan t).start := by
  have sMem := aNamed.mem_leaves aMem
  have tMem := bNamed.mem_leaves bMem
  have tokens_ne : s ≠ t := by
    -- A part knows its node, so one token cannot name two sites.
    rintro rfl
    have aParent := Cursor.parent?_of_mem_children (List.mem_of_mem_filter aNamed.part)
    have bParent := Cursor.parent?_of_mem_children (List.mem_of_mem_filter bNamed.part)
    exact ne (Option.some.inj (aParent.symm.trans bParent))
  -- The tokens are apart, one way or the other; the positions tell which way.
  have apart := Cursor.leaves_apart sMem tMem tokens_ne
  obtain ⟨sSpelled, sStart, sStop⟩ := Cursor.spelled sMem aNamed.kind_cases
  obtain ⟨tSpelled, tStart, tStop⟩ := Cursor.spelled tMem bNamed.kind_cases
  have sPos := sSpelled.start_lt_stop
  have tPos := tSpelled.start_lt_stop
  have order : (spelledSpan s).start ≤ (spelledSpan t).start := by
    rw [Precedes, position, position, (namedBy_iff.mp aNamed).2, (namedBy_iff.mp bNamed).2] at precedes
    exact precedes
  omega

end

/-- No two sites of a file are at the same node. -/
theorem Cursor.sites_pairwise_ne (file : Cursor) :
    file.sites.Pairwise fun a b => a.node ≠ b.node := by
  have nodup : (file.descendants.filterMap site?).Pairwise fun a b => a.node ≠ b.node := by
    rw [List.pairwise_filterMap]
    refine (file.nodup_elements.filter _).imp ?_
    intro c d ne a aFound b bFound
    rwa [node_of_site? aFound, node_of_site? bFound]
  exact (Site.sortByPosition_perm _).symm.pairwise nodup Ne.symm

/-! ## (3) The names that a query may be about -/

/-- A query with a member name is about the sites that spell it out. -/
theorem Query.acceptsName_iff {q : Query} {name : MemberName}
    (plain : ∃ c cs, name.text = c :: cs ∧ c ≠ '$') :
    q.acceptsName name.text = true ↔ ∀ wanted, q.member = some wanted → wanted = name := by
  obtain ⟨c, cs, text, ne⟩ := plain
  have accepts : q.acceptsName name.text = (q.member.all fun wanted => wanted.text == name.text) := by
    rw [acceptsName]
    cases q.member with
    | none => rfl
    | some wanted =>
        rw [Option.all_some]
        simp only
        split
        · -- The sigil that a query passes over is not there.
          rename_i same
          rw [text] at same
          exact absurd (List.cons.inj same).1 ne
        · rfl
  have equal (wanted : MemberName) : wanted.text = name.text ↔ wanted = name := by
    cases wanted
    cases name
    rw [MemberName.mk.injEq]
  rw [accepts, Option.all_eq_true]
  simp only [beq_iff_eq, equal]

end PhpMembers
