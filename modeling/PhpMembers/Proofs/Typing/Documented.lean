import PhpMembers.Proofs.Source.Tags
import PhpMembers.Proofs.Typing.Comments

/-! # Variables and their documentation

Documentation gives a variable a type if its line names the variable behind the type, or if it names none and the
statement behind it assigns to the variable. That holds of lines of the usual form. In other lines a variable
that stands further behind, or a longer name elsewhere in the documentation, can be taken for the variable.

* `Cursor.Targets`, `Cursor.Lopsided` : the targets of assignments.
* `PlainTag` : lines of the usual form.
* `documentation_names_variable` : which variables get a type from documentation. -/

namespace PhpMembers

namespace Cursor

variable {source name : Text} {c use : Cursor}

/-! ## (1) Assignments behind documentation -/

/-- `c.Targets name`: an assignment of any kind, and the variable stands in front of its operator. -/
def Targets (c : Cursor) (name : Text) : Prop :=
  c.kind = .assignExpr ∧ ∃ operator ∈ c.tokens, operator.kind ∈ Kind.operators .assignExpr ∧
    ∃ target ∈ c.nodes, target.isVariable name = true ∧ target.stop ≤ operator.start

/-- `c.Lopsided`: an assignment, and no expression stands in front of its operator. -/
def Lopsided (c : Cursor) : Prop :=
  c.kind = .assignExpr ∧ ∀ operator ∈ c.tokens, operator.kind ∈ Kind.operators .assignExpr →
    ∀ part ∈ c.expressions, operator.stop ≤ part.start

instance (c : Cursor) (name : Text) : Decidable (c.Targets name) :=
  inferInstanceAs (Decidable (_ ∧ ∃ operator ∈ c.tokens, _ ∧ ∃ target ∈ c.nodes, _ ∧ _))

instance (c : Cursor) : Decidable c.Lopsided :=
  inferInstanceAs (Decidable (_ ∧ ∀ operator ∈ c.tokens, _ → ∀ part ∈ c.expressions, _))

/-- What is read as the target of an assignment is one, unless the assignment has none. -/
theorem targets_of_assignsTo (mem : c ∈ (ofText source).elements) (reads : c.assignsTo name = true)
    (whole : ¬c.Lopsided) : c.Targets name := by
  obtain ⟨isAssignment, target, first, isUse⟩ := assignsTo_iff.mp reads
  obtain ⟨operator, inTokens, listed, early⟩ : ∃ operator ∈ c.tokens,
      operator.kind ∈ Kind.operators .assignExpr ∧ ¬∀ part ∈ c.expressions, operator.stop ≤ part.start := by
    simpa only [Lopsided, isAssignment, true_and, not_forall, exists_prop] using whole
  obtain ⟨inChildren, leaf⟩ := List.mem_filter.mp inTokens
  have significant : operator.kind.isTrivia = false := by
    have all : ∀ kind ∈ Kind.operators .assignExpr, kind.isTrivia = false := by decide
    exact all _ listed
  have listedHere : operator.kind ∈ c.kind.operators := by
    rw [isAssignment]
    exact listed
  obtain ⟨front, behind, sides⟩ :=
    sides_of_operator (mem_descendants_of_mem_children mem inChildren) inTokens listedHere significant
  obtain ⟨inNodes, before⟩ := sides.stop_le_of_firstExpression? leaf first early
  exact ⟨isAssignment, operator, inTokens, listed, target, inNodes, isUse, before⟩

/-- The expression that the statement behind a comment consists of. -/
def annotated? (comment : Cursor) : Option Cursor := comment.nextNode?.bind firstExpression?

/-- The statement behind a comment is a place of the file. -/
theorem mem_elements_of_nextNode? {comment statement : Cursor} (inLeaves : comment ∈ (ofText source).leaves)
    (next : comment.nextNode? = some statement) : statement ∈ (ofText source).elements := by
  obtain ⟨inFile, leaf⟩ := List.mem_filter.mp inLeaves
  obtain ⟨parent, parentInFile, part⟩ : ∃ parent ∈ (ofText source).elements, comment ∈ parent.children := by
    refine exists_parent_of_mem_elements inFile ?_
    rintro rfl
    cases leaf
  obtain ⟨before, after, split⟩ := List.append_of_mem part
  rw [nextNode?, (following_of_children split).1] at next
  refine children_subset_elements parentInFile ?_
  rw [split]
  exact List.mem_append_right _ (List.mem_cons_of_mem _ (List.mem_of_find?_eq_some next))

/-- The name of a variable is a name. -/
theorem isName_of_isVariable (mem : use ∈ (ofText source).elements) (isUse : use.isVariable name = true) :
    ∃ c rest, name = c :: rest ∧ isNameStart c = true ∧ ∀ d ∈ rest, isNameContinue d = true := by
  rw [isVariable, Bool.and_eq_true, beq_iff_eq, beq_iff_eq] at isUse
  obtain ⟨token, found, same⟩ := Option.map_eq_some_iff.mp isUse.2
  obtain ⟨inChildren, leaf⟩ := List.mem_filter.mp (List.mem_of_find?_eq_some found)
  have kind : token.kind = .variable := by simpa using List.find?_some found
  obtain ⟨before, t, inTokens, text, recorded⟩ :=
    exists_token (List.mem_filter.mpr ⟨children_subset_elements mem inChildren, leaf⟩)
  obtain ⟨c, rest, whole, start, continues⟩ := Token.exists_variableName inTokens (recorded.variable kind)
  refine ⟨c, rest, ?_, start, continues⟩
  rw [← same, variableName, ← text, whole, dropLeading, List.dropWhile_cons_of_pos rfl,
    List.dropWhile_cons_of_neg (by simpa using ne_dollar_of_isNameStart start)]

/-- A use of a variable is not empty. -/
theorem start_lt_stop_of_isVariable (mem : use ∈ (ofText source).elements) (isUse : use.isVariable name = true) :
    use.isLeaf = false ∧ use.start < use.stop := by
  rw [isVariable, Bool.and_eq_true, beq_iff_eq, beq_iff_eq] at isUse
  obtain ⟨token, found, -⟩ := Option.map_eq_some_iff.mp isUse.2
  obtain ⟨inChildren, leaf⟩ := List.mem_filter.mp (List.mem_of_find?_eq_some found)
  have filled := start_lt_stop_of_isLeaf (children_subset_elements mem inChildren) leaf
  have within := within_of_mem_children (stop_of_mem_elements mem) inChildren
  have node := (List.mem_filter.mp (mem_descendants_of_mem_children mem inChildren)).2
  exact ⟨by simpa using node, by omega⟩

/-- Tokens that begin at the same place are one. -/
theorem eq_of_start_eq {d : Cursor} (first : c ∈ (ofText source).leaves) (second : d ∈ (ofText source).leaves)
    (same : c.start = d.start) : c = d := by
  obtain ⟨inFile, leaf⟩ := List.mem_filter.mp first
  obtain ⟨inFile', leaf'⟩ := List.mem_filter.mp second
  have filled := start_lt_stop_of_isLeaf inFile leaf
  have filled' := start_lt_stop_of_isLeaf inFile' leaf'
  rcases nested_or_apart inFile inFile' with inside | around | before | behind
  · exact (eq_of_mem_elements_of_isLeaf inside leaf).symm
  · exact eq_of_mem_elements_of_isLeaf around leaf'
  · omega
  · omega

end Cursor

/-! ## (2) Lines of the usual form -/

/-- `PlainTag doc line name`: a line of the usual form, with the type in one word and the variable, if there is one,
right behind it. Nothing is asked of a line that names the variable itself. If the line names none, the
documentation does not mention the variable at all. -/
structure PlainTag (doc line name : Text) : Prop where
  /-- Another variable that is named is not in the type, but right behind it. -/
  other : ∀ type further first, blankWords line = varTag :: type :: further → namedVariable? line = some first →
    first ≠ name → namedVariable? type = none ∧ ∃ word more, further = ('$' :: word) :: more
  /-- If none is named, the variable is mentioned nowhere. -/
  silent : namedVariable? line = none → occursIn ('$' :: name) doc = false

/-- **A line of the usual form gives a type only to the variable that it names**, if it names one. -/
theorem PlainTag.names {doc line name type first : Text} (plain : PlainTag doc line name)
    (isName : ∃ c rest, name = c :: rest ∧ isNameStart c = true ∧ ∀ d ∈ rest, isNameContinue d = true)
    (found : taggedTypeInLine? varTag (some name) line = some type) (named : namedVariable? line = some first) :
    first = name := by
  by_contra different
  have noBlank : varTag.any isBlank = false := by decide
  have solidTag : ∀ c ∈ varTag, isBlank c = false := by simpa only [List.any_eq_false, Bool.not_eq_true] using noBlank
  have isTag : varTag ≠ [] := List.cons_ne_nil _ _
  obtain ⟨further, words, wanted⟩ := taggedTypeInLine?_eq_some solidTag isTag found
  obtain ⟨noVariable, word, more, rfl⟩ := plain.other type further first words named different
  have solid : ∀ c ∈ word, isBlank c = false := by
    have inLine : '$' :: word ∈ blankWords line := by
      rw [words]
      simp
    exact (List.forall_mem_cons.mp (solid_of_mem_blankWords inLine)).2
  have same : dropLeading '$' word = name := by
    obtain ⟨c, rest, whole, start, -⟩ := isName
    rw [wanted name word more rfl rfl, whole, dropLeading,
      List.dropWhile_cons_of_neg (by simpa using ne_dollar_of_isNameStart start)]
  have noTag : namedVariable? varTag = none := by decide +kernel
  -- Neither the tag nor the type is a variable, so the first variable of the line is the one behind the type.
  rw [namedVariable?_eq, words, List.findSome?_cons, noTag, List.findSome?_cons, noVariable,
    List.findSome?_cons, namedVariable?_of_dropLeading solid isName same] at named
  exact different (Option.some.inj named).symm

/-! ## (3) Variables with a type from documentation -/

/-- **Documentation binds only its own variable.** For every text, damaged or not, every documentation comment in it
with a single line for the type of a variable, and every use of a variable whose type is determined by the
comment: the variable is the first one that the line names, as a whole name; or the line names none, and the
statement behind the comment is an assignment to the variable.

The line must be of the usual form, and if it names no variable, an assignment behind the comment must not have
lost its left side. -/
theorem documentation_names_variable (source : Text) {use comment : Cursor} {name line : Text}
    (mem : use ∈ (Cursor.ofText source).descendants) (isUse : use.isVariable name = true)
    (inLeaves : comment ∈ (Cursor.ofText source).leaves) (isComment : comment.kind = .docComment)
    (single : (textLines (documentation comment.text)).filter isVarLine = [line])
    (plain : PlainTag (documentation comment.text) line name)
    (whole : namedVariable? line = none → ∀ e ∈ comment.annotated?, ¬e.Lopsided)
    (determined : (use.resolveVariable? name).bind (·.binding.documentedAt?) = some comment.start) :
    namedVariable? line = some name ∨
      namedVariable? line = none ∧ ∃ e ∈ comment.annotated?, e.Targets name := by
  have inFile := (List.mem_filter.mp mem).1
  obtain ⟨isNode, filled⟩ := Cursor.start_lt_stop_of_isVariable inFile isUse
  obtain ⟨found, resolved, documented⟩ := Option.bind_eq_some_iff.mp determined
  obtain ⟨scope, scopeInFile, node, inScope, isNode, filled, type, latest⟩ :=
    exists_latest_of_documentedAt? inFile use.self_mem_elements isNode filled resolved documented
  obtain ⟨comment', inLeaves', -, start, statement, documents, own⟩ :=
    Cursor.documentation_of_latestBinding? scopeInFile inScope isNode filled latest
  obtain rfl := Cursor.eq_of_start_eq inLeaves' inLeaves start
  obtain ⟨next, doc, documented, mentions, tagged⟩ := Cursor.documentedVariable?_eq_some documents
  obtain rfl := Option.some.inj (documented.symm.trans own)
  -- The type comes from a line for variables, and there is only one.
  obtain ⟨other, inDoc, inLine⟩ := List.exists_of_findSome?_eq_some tagged
  have isLine : other ∈ (textLines (documentation comment'.text)).filter isVarLine :=
    List.mem_filter.mpr ⟨inDoc, isVarLine_of_taggedTypeInLine? inLine⟩
  rw [single, List.mem_singleton] at isLine
  subst isLine
  cases named : namedVariable? other with
  | some first =>
      exact .inl (congrArg some (plain.names (Cursor.isName_of_isVariable inFile isUse) inLine named))
  | none =>
      have assigned := mentions.resolve_left (by rw [plain.silent named]; exact Bool.false_ne_true)
      obtain ⟨e, first, reads⟩ := assigned
      have annotated : comment'.annotated? = some e := by rw [Cursor.annotated?, next, Option.bind_some, first]
      have statementInFile := Cursor.mem_elements_of_nextNode? inLeaves next
      have part := (List.mem_filter.mp (List.mem_of_find?_eq_some first)).1
      exact .inr ⟨rfl, e, annotated, Cursor.targets_of_assignsTo
        (Cursor.children_subset_elements statementInFile part) reads (whole named e annotated)⟩

/-- A line of documentation that names no variable. -/
def postLine : Text := "@var Post".toList

/-- Documentation with that line, and a use of the variable behind it. -/
def documentedPost : Text := "<?php /** @var Post */ $post = f(); $post->x();".toList

/-- The variable that gets its type from the documentation is the one that is assigned to behind it. -/
theorem documentation_names_variable_documentedPost :
    ∃ use ∈ (Cursor.ofText documentedPost).descendants, use.isVariable "post".toList = true ∧ use.start = 36 ∧
      ((SourceFile.ofText documentedPost).typing .empty).typeOf typingLevels use = .object ⟨"Post".toList⟩ ∧
        ∃ comment ∈ (Cursor.ofText documentedPost).leaves, ∃ e ∈ comment.annotated?, e.Targets "post".toList := by
  obtain ⟨use, mem, comment, inLeaves, isUse, begins, isComment, doc, whole, determined, type⟩ :
      ∃ use ∈ (Cursor.ofText documentedPost).descendants, ∃ comment ∈ (Cursor.ofText documentedPost).leaves,
        use.isVariable "post".toList = true ∧ use.start = 36 ∧ comment.kind = .docComment ∧
          documentation comment.text = postLine ∧ (∀ e ∈ comment.annotated?, ¬e.Lopsided) ∧
            (use.resolveVariable? "post".toList).bind (·.binding.documentedAt?) = some comment.start ∧
              ((SourceFile.ofText documentedPost).typing .empty).typeOf typingLevels use =
                .object ⟨"Post".toList⟩ := by
    decide +kernel
  have unnamed : namedVariable? postLine = none := by decide +kernel
  have single : (textLines (documentation comment.text)).filter isVarLine = [postLine] := by
    rw [doc]
    decide +kernel
  have plain : PlainTag (documentation comment.text) postLine "post".toList := by
    constructor
    · intro type further first words named
      rw [unnamed] at named
      cases named
    · rw [doc]
      decide +kernel
  refine ⟨use, mem, isUse, begins, type, comment, inLeaves, ?_⟩
  rcases documentation_names_variable documentedPost mem isUse inLeaves isComment single plain (fun _ => whole)
    determined with named | ⟨-, targets⟩
  · rw [unnamed] at named
    cases named
  · exact targets

/-- A line with a blank inside the type. -/
def genericLine : Text := "@var Collection<int, Post> $posts".toList

/-- Documentation with that line, and a use of another variable. -/
def genericPosts : Text := "<?php /** @var Collection<int, Post> $posts */ $posts = f(); $p->x();".toList

/-- The line names another variable than the one that gets its type from the documentation. -/
theorem genericPosts_binds_other :
    ∃ use ∈ (Cursor.ofText genericPosts).descendants, ∃ comment ∈ (Cursor.ofText genericPosts).leaves,
      use.isVariable ['p'] = true ∧ comment.kind = .docComment ∧
        (textLines (documentation comment.text)).filter isVarLine = [genericLine] ∧
          namedVariable? genericLine = some "posts".toList ∧
            (use.resolveVariable? ['p']).bind (·.binding.documentedAt?) = some comment.start ∧
              ((SourceFile.ofText genericPosts).typing .empty).typeOf typingLevels use =
                .object ⟨"Collection".toList⟩ := by
  decide +kernel

end PhpMembers
