import Mathlib.Data.List.TakeWhile
import PhpMembers.Proofs.Syntax.Tokens
import PhpMembers.Source.Namespace

/-! # Class names in queries and in the source

A class name in a query is checked segment by segment against the identifiers of Unicode; in the source it is found by
the lexer, which looks at ASCII only and takes every other character for a letter. Every name that a query may ask for
is one token of the source all the same, so no accepted query is beyond what a source can spell.

* `isIdentifierCharacter` : the characters of identifiers, and what the lexer makes of them.
* `IsPath` : identifiers with separators in between.
* `ClassName.parse_eq_ok_iff` : the texts that are read as a class name.
* `IsPath.tokenize_eq` : a path is one token.
* `ClassName.names_agree` : what is read as a class name, and what it means in the source. -/

namespace PhpMembers

variable {text : Text} {c : Char}

/-! ## (1) Characters -/

/-- The characters of an identifier. -/
def isIdentifierCharacter (c : Char) : Bool := c == '_' || isXidContinue c

/-- What can begin an identifier can continue one. -/
theorem isXidContinue_of_isXidStart (start : isXidStart c = true) : isXidContinue c = true := by
  unfold isXidStart at start
  unfold isXidContinue
  split
  · rename_i ascii
    rw [if_pos ascii] at start
    simp [Char.isAlphanum, start]
  · rename_i wide
    rw [if_neg wide] at start
    simp [start]

/-- What begins an identifier begins a name of the source. -/
theorem isNameStart_of_identifier (start : (c == '_' || isXidStart c) = true) : isNameStart c = true := by
  rcases Bool.or_eq_true_iff.mp start with underscore | letter
  · simp [isNameStart, underscore]
  · by_cases ascii : c.toNat < 0x80
    · rw [isXidStart, if_pos ascii] at letter
      simp [isNameStart, letter]
    · have wide : 0x80 ≤ c.toNat := Nat.le_of_not_lt ascii
      simp [isNameStart, wide]

/-- What continues an identifier continues a name of the source. -/
theorem isNameContinue_of_identifier (fits : isIdentifierCharacter c = true) : isNameContinue c = true := by
  rcases Bool.or_eq_true_iff.mp fits with underscore | other
  · simp [isNameContinue, isNameStart, underscore]
  · by_cases ascii : c.toNat < 0x80
    · rw [isXidContinue, if_pos ascii, Char.isAlphanum] at other
      have digit : c.isDigit = isDigit c := rfl
      rw [digit, Bool.or_eq_true, Bool.or_eq_true] at other
      rcases other with (letter | number) | underscore
      · simp [isNameContinue, isNameStart, letter]
      · simp [isNameContinue, number]
      · simp [isNameContinue, isNameStart, underscore]
    · have wide : 0x80 ≤ c.toNat := Nat.le_of_not_lt ascii
      simp [isNameContinue, isNameStart, wide]

/-- The code points of the white space outside of ASCII. -/
def wideBlanks : List Nat :=
  [0x85, 0xa0, 0x1680, 0x2000, 0x2001, 0x2002, 0x2003, 0x2004, 0x2005, 0x2006, 0x2007, 0x2008, 0x2009, 0x200a, 0x2028,
    0x2029, 0x202f, 0x205f, 0x3000]

/-- No white space is among the letters of any script. -/
theorem inRanges_wideBlanks :
    ∀ n ∈ wideBlanks, inRanges xidStartRanges n = false ∧ inRanges xidContinueOnlyRanges n = false := by
  decide +kernel

/-- Identifiers contain no white space. -/
theorem isBlank_of_identifier (fits : isIdentifierCharacter c = true) : isBlank c = false := by
  by_cases ascii : c.toNat < 0x80
  · refine isBlank_of_isAlphanum ?_
    rcases Bool.or_eq_true_iff.mp fits with underscore | other
    · simp [underscore]
    · rwa [isXidContinue, if_pos ascii] at other
  · refine Bool.eq_false_iff.mpr fun blank => ?_
    have wide : c.toNat ∈ wideBlanks := by
      simp only [isBlank, Bool.or_eq_true, Bool.and_eq_true, decide_eq_true_eq, beq_iff_eq] at blank
      simp only [wideBlanks, List.mem_cons, List.not_mem_nil, or_false]
      omega
    rcases Bool.or_eq_true_iff.mp fits with underscore | other
    · rw [beq_iff_eq.mp underscore] at ascii
      exact ascii (by decide)
    · rw [isXidContinue, if_neg ascii, (inRanges_wideBlanks _ wide).1, (inRanges_wideBlanks _ wide).2] at other
      cases other

/-- An identifier begins as a name of the source does and goes on as one. -/
theorem exists_cons_of_isIdentifier (identifier : isIdentifier text = true) :
    ∃ first rest, text = first :: rest ∧ isNameStart first = true ∧ rest.all isNameContinue = true ∧
      text.all isIdentifierCharacter = true := by
  cases text with
  | nil => cases identifier
  | cons first rest =>
      obtain ⟨start, more⟩ := Bool.and_eq_true_iff.mp identifier
      have all : rest.all isIdentifierCharacter = true := more
      have one : isIdentifierCharacter first = true := by
        rcases Bool.or_eq_true_iff.mp start with underscore | letter
        · simp [isIdentifierCharacter, underscore]
        · simp [isIdentifierCharacter, isXidContinue_of_isXidStart letter]
      refine ⟨first, rest, rfl, isNameStart_of_identifier start, ?_, by rw [List.all_cons, one, all]; rfl⟩
      exact List.all_eq_true.mpr fun d mem => isNameContinue_of_identifier (List.all_eq_true.mp all d mem)

/-- A separator is no character of an identifier. -/
theorem separator_notMem_of_isIdentifier (identifier : isIdentifier text = true) : '\\' ∉ text := by
  obtain ⟨-, -, -, -, -, all⟩ := exists_cons_of_isIdentifier identifier
  intro mem
  cases List.all_eq_true.mp all _ mem

/-! ## (2) Paths -/

/-- Whether a text consists of identifiers with a separator between each two. -/
def IsPath (text : Text) : Prop := ∀ segment ∈ text.splitOn '\\', isIdentifier segment = true

namespace IsPath

/-- A path is an identifier and further ones behind separators. -/
theorem exists_segments (path : IsPath text) : ∃ first more, isIdentifier first = true ∧
    (∀ piece ∈ more, isIdentifier piece = true) ∧ text = first ++ separated more := by
  have joined (first : Text) (more : List Text) :
      ['\\'].intercalate (first :: more) = first ++ separated more := by
    induction more generalizing first with
    | nil => simp [separated]
    | cons second more ih => simp [List.intercalate_cons_cons, separated_cons, ih]
  obtain ⟨first, more, all⟩ := List.exists_cons_of_ne_nil (List.splitOnP_ne_nil (· == '\\') text)
  rw [← List.splitOn_eq_splitOnP] at all
  have whole : ['\\'].intercalate (text.splitOn '\\') = text := List.intercalate_splitOn '\\'
  rw [all, joined] at whole
  obtain ⟨here, there⟩ := List.forall_mem_cons.mp (all ▸ path : ∀ segment ∈ first :: more, isIdentifier segment = true)
  exact ⟨first, more, here, there, whole.symm⟩

/-- A path begins with a character of an identifier. -/
theorem head_ne (path : IsPath text) : text.head? ≠ none ∧ text.head? ≠ some '\\' := by
  obtain ⟨first, more, identifier, -, rfl⟩ := path.exists_segments
  obtain ⟨c, cs, rfl, start, -, -⟩ := exists_cons_of_isIdentifier identifier
  refine ⟨by simp, fun separator => ?_⟩
  cases separator
  cases start

/-- There is no leading separator to leave out. -/
theorem dropLeading_eq (path : IsPath text) : dropLeading '\\' text = text := by
  cases text with
  | nil => rfl
  | cons c cs =>
      refine List.dropWhile_cons_of_neg fun separator => path.head_ne.2 ?_
      rw [List.head?_cons, beq_iff_eq.mp separator]

/-- There are no blanks to leave out. -/
theorem trimBlank_eq (path : IsPath text) : trimBlank text = text := by
  obtain ⟨first, more, identifier, others, rfl⟩ := path.exists_segments
  have solid {piece : Text} (identifier : isIdentifier piece = true) : ∀ c ∈ piece, isBlank c = false := by
    obtain ⟨-, -, -, -, -, all⟩ := exists_cons_of_isIdentifier identifier
    exact fun c mem => isBlank_of_identifier (List.all_eq_true.mp all c mem)
  have none : ∀ c ∈ first ++ separated more, ¬isBlank c = true := by
    intro c mem
    rw [Bool.not_eq_true]
    rcases List.mem_append.mp mem with inFirst | inMore
    · exact solid identifier c inFirst
    · obtain ⟨piece, inPieces, inPiece⟩ := List.mem_flatMap.mp inMore
      rcases List.mem_cons.mp inPiece with rfl | inside
      · decide
      · exact solid (others piece inPieces) c inside
  have kept {cs : Text} (none : ∀ c ∈ cs, ¬isBlank c = true) : cs.dropWhile isBlank = cs := by
    cases cs with
    | nil => rfl
    | cons c cs => exact List.dropWhile_cons_of_neg (none c List.mem_cons_self)
  rw [trimBlank, trimBlankStart, kept none, kept fun c mem => none c (List.mem_reverse.mp mem), List.reverse_reverse]

/-- What stands in front of a separator is a path, too, and one identifier is left if no separator comes later. -/
theorem of_append {path short : Text} (both : IsPath (path ++ '\\' :: short)) : IsPath path := by
  intro segment mem
  refine both segment ?_
  rw [List.splitOn_eq_splitOnP, List.splitOnP_append_cons path short (by rfl), List.mem_append]
  exact .inl (by rwa [← List.splitOn_eq_splitOnP])

end IsPath

namespace ClassName

/-- **A text is read as a class name if it is a path**, blanks around it and separators in front of it left out. -/
theorem parse_eq_ok_iff {given : Text} {name : ClassName} :
    parse given = .ok name ↔ name.text = dropLeading '\\' (trimBlank given) ∧ IsPath name.text := by
  have bodies : (trimBlank given).dropWhile (· == '\\') = dropLeading '\\' (trimBlank given) := rfl
  rw [parse, bodies]
  -- What is in front of the path and around it does not matter any more.
  generalize dropLeading '\\' (trimBlank given) = body
  constructor
  · intro accepted
    split at accepted
    · cases accepted
    split at accepted
    · cases accepted
    · rename_i none
      cases accepted
      refine ⟨rfl, fun segment mem => ?_⟩
      simpa using List.find?_eq_none.mp none segment mem
  · rintro ⟨rfl, path⟩
    have some : name.text ≠ [] := by
      intro empty
      exact path.head_ne.1 (by rw [empty]; rfl)
    have none : (name.text.splitOn '\\').find? (fun segment => !isIdentifier segment) = none := by
      rw [List.find?_eq_none]
      intro segment mem
      simp [path segment mem]
    simp only [if_neg some, none]

/-- A path is read as itself. -/
theorem parse_of_isPath (path : IsPath text) : parse text = .ok ⟨text⟩ :=
  parse_eq_ok_iff.mpr ⟨by rw [path.trimBlank_eq, path.dropLeading_eq], path⟩

/-- **A text is refused if nothing is left of it or a segment is no identifier.** -/
theorem parse_eq_error_iff {given : Text} : (∃ e, parse given = .error e) ↔
    dropLeading '\\' (trimBlank given) = [] ∨
      ∃ segment ∈ (dropLeading '\\' (trimBlank given)).splitOn '\\', isIdentifier segment = false := by
  have refused : (∃ e, parse given = .error e) ↔ ∀ name, parse given ≠ .ok name := by
    cases parse given <;> simp
  rw [refused]
  constructor
  · intro no
    by_contra fine
    rw [not_or] at fine
    -- A text whose segments are all identifiers is read.
    have path : IsPath (dropLeading '\\' (trimBlank given)) := by
      intro segment mem
      by_contra bad
      exact fine.2 ⟨segment, mem, Bool.not_eq_true _ ▸ bad⟩
    exact no ⟨_⟩ (parse_eq_ok_iff.mpr ⟨rfl, path⟩)
  · intro bad name accepted
    obtain ⟨same, path⟩ := parse_eq_ok_iff.mp accepted
    rw [same] at path
    rcases bad with empty | ⟨segment, mem, notIdentifier⟩
    · exact path.head_ne.1 (by rw [empty]; rfl)
    · rw [path segment mem] at notIdentifier
      cases notIdentifier

end ClassName

/-! ## (3) One token -/

/-- **A path is one token**: an identifier or a reserved word if there is no separator in it, and a qualified name if
there is one. -/
theorem IsPath.tokenize_eq (path : IsPath text) : ∃ kind, tokenize text = [⟨kind, text, 0⟩] ∧
    (kind = .ident ∨ kind.isKeyword = true ∨ kind = .qualifiedName) ∧ (kind = .qualifiedName ↔ '\\' ∈ text) := by
  obtain ⟨first, more, identifier, others, rfl⟩ := path.exists_segments
  obtain ⟨c, cs, rfl, start, goesOn, -⟩ := exists_cons_of_isIdentifier identifier
  have words : ∀ piece ∈ more, isWord piece = true := by
    intro piece mem
    obtain ⟨d, ds, rfl, start, goesOn, -⟩ := exists_cons_of_isIdentifier (others piece mem)
    exact Bool.and_eq_true_iff.mpr ⟨start, goesOn⟩
  have ends : EndsName [] := by
    constructor
    · rintro d ⟨⟩
    · rintro d ds ⟨⟩
  have scanned : scan c (cs ++ (separated more ++ [])) = _ :=
    (scan_of_isNameStart start _).trans (scanName_eq (Bool.and_eq_true_iff.mpr ⟨start, goesOn⟩) words ends)
  rw [List.append_nil] at scanned
  -- The token ends where the text ends.
  have whole {kind : Kind} (found : scan c (cs ++ separated more) = (kind, (cs ++ separated more).length)) :
      tokenize (c :: cs ++ separated more) = [⟨kind, c :: cs ++ separated more, 0⟩] := by
    rw [tokenize, List.cons_append, tokenizeFrom, found, List.take_length, List.drop_length, tokenizeFrom]
  cases more with
  | nil =>
      have apart : '\\' ∉ c :: cs ++ separated [] := by
        simpa [separated] using separator_notMem_of_isIdentifier identifier
      refine ⟨_, whole (by simpa using scanned), ?_⟩
      cases found : keyword? (c :: cs) with
      | none => exact ⟨.inl rfl, by rintro ⟨⟩, fun mem => absurd mem apart⟩
      | some kind =>
          have keyword := isKeyword_of_keyword? found
          refine ⟨.inr (.inl keyword), fun qualified => ?_, fun mem => absurd mem apart⟩
          rw [Option.getD_some] at qualified
          rw [qualified] at keyword
          cases keyword
  | cons piece more =>
      rw [if_neg (List.cons_ne_nil _ _)] at scanned
      exact ⟨.qualifiedName, whole scanned, by simp, by simp [separated_cons]⟩

/-! ## (4) Names and their namespaces -/

namespace ClassName

variable {name : ClassName}

/-- A name with a namespace is the namespace, a separator and the last segment. -/
theorem text_eq_of_namespace? {space : Text} (found : name.namespace? = some space) :
    name.text = space ++ '\\' :: name.short ∧ '\\' ∉ name.short := by
  -- The last segment is what stands in front of the first separator when the text is read backwards.
  have both : name.text.reverse.takeWhile (· != '\\') ++ name.text.reverse.dropWhile (· != '\\') =
      name.text.reverse := List.takeWhile_append_dropWhile
  have apart : '\\' ∉ name.short := by
    rw [short, List.mem_reverse]
    intro mem
    simpa using List.mem_takeWhile_imp mem
  rw [namespace?] at found
  split at found
  · cases found
  · rename_i separator path behind
    cases found
    have isSeparator : separator = '\\' := by
      have stops := List.head?_dropWhile_not (fun d => d != '\\') name.text.reverse
      rw [behind] at stops
      simpa using stops
    refine ⟨?_, apart⟩
    rw [behind, isSeparator] at both
    rw [← List.reverse_reverse name.text, ← both, short]
    simp

/-- A name without a namespace is its own last segment and contains no separator. -/
theorem short_eq_of_namespace? (missing : name.namespace? = none) :
    name.short = name.text ∧ '\\' ∉ name.text := by
  rw [namespace?] at missing
  split at missing
  · rename_i nothing
    rw [List.dropWhile_eq_nil_iff] at nothing
    have none : '\\' ∉ name.text := by
      intro mem
      simpa using nothing _ (List.mem_reverse.mpr mem)
    refine ⟨?_, none⟩
    rw [short, List.takeWhile_eq_self_iff.mpr nothing, List.reverse_reverse]
  · cases missing

/-- **Names that may be asked for are names of the source.** A text is refused as a class name if, without the blanks
around it and the separators in front, it is empty or has a segment that is no identifier. A text that is accepted is
read as a name that is read as itself. Its namespace is accepted, too, and the last segment joined to it gives the name;
without a namespace there is one segment. In a source the name is a single token, qualified if it has a namespace; and
with a separator in front of it it means itself wherever it is written. -/
theorem names_agree (given : Text) :
    ((∃ e, parse given = .error e) ↔ dropLeading '\\' (trimBlank given) = [] ∨
      ∃ segment ∈ (dropLeading '\\' (trimBlank given)).splitOn '\\', isIdentifier segment = false) ∧
    ∀ name, parse given = .ok name →
      parse name.text = .ok name ∧
      (∀ space, name.namespace? = some space →
        ∃ path, parse space = .ok path ∧ path.text = space ∧ path.join name.short = name) ∧
      (name.namespace? = none → name.short = name.text) ∧
      (∃ kind, tokenize name.text = [⟨kind, name.text, 0⟩] ∧
        (kind = .ident ∨ kind.isKeyword = true ∨ kind = .qualifiedName) ∧
        (kind = .qualifiedName ↔ name.namespace?.isSome = true)) ∧
      ∀ (regions : Regions) (offset : Nat), regions.resolve ('\\' :: name.text) offset = name := by
  refine ⟨parse_eq_error_iff, fun name accepted => ?_⟩
  obtain ⟨-, path⟩ := parse_eq_ok_iff.mp accepted
  refine ⟨parse_of_isPath path, fun space found => ?_, fun missing => (short_eq_of_namespace? missing).1, ?_, ?_⟩
  · obtain ⟨same, apart⟩ := text_eq_of_namespace? found
    refine ⟨⟨space⟩, parse_of_isPath (IsPath.of_append (same ▸ path)), rfl, ?_⟩
    have kept : dropLeading '\\' name.short = name.short := by
      cases short : name.short with
      | nil => rfl
      | cons c cs =>
          rw [short] at apart
          refine List.dropWhile_cons_of_neg fun separator => apart ?_
          rw [beq_iff_eq.mp separator]
          exact List.mem_cons_self
    rw [join, kept, ← same]
  · obtain ⟨kind, tokens, few, qualified⟩ := path.tokenize_eq
    refine ⟨kind, tokens, few, qualified.trans ?_⟩
    cases found : name.namespace? with
    | none => simp [(short_eq_of_namespace? found).2]
    | some space =>
        rw [(text_eq_of_namespace? found).1]
        simp
  · intro regions offset
    show ClassName.ofSyntax name.text = name
    rw [ofSyntax, path.dropLeading_eq]

/-- A name of two segments between wide blanks, with two separators in front. -/
def framedName : Text := ['\u3000', ' ', '\\', '\\', 'A', 'p', 'p', '\\', 'É', '_', '2', '\u00a0', '\n']

/-- The name is accepted, and it is one qualified token. -/
theorem names_agree_framedName : parse framedName = .ok ⟨['A', 'p', 'p', '\\', 'É', '_', '2']⟩ ∧
    (∃ path, parse ['A', 'p', 'p'] = .ok path ∧ path.text = ['A', 'p', 'p'] ∧
      path.join ['É', '_', '2'] = ⟨['A', 'p', 'p', '\\', 'É', '_', '2']⟩) ∧
    tokenize ['A', 'p', 'p', '\\', 'É', '_', '2'] =
      [⟨.qualifiedName, ['A', 'p', 'p', '\\', 'É', '_', '2'], 0⟩] := by
  have accepted : parse framedName = .ok ⟨['A', 'p', 'p', '\\', 'É', '_', '2']⟩ :=
    parse_eq_ok_iff.mpr ⟨by decide, by unfold IsPath; decide⟩
  obtain ⟨-, space, -, ⟨kind, token, -, qualified⟩, -⟩ := (names_agree framedName).2 _ accepted
  refine ⟨accepted, space ['A', 'p', 'p'] (by decide), ?_⟩
  rw [token, qualified.mpr (by decide)]

end ClassName

end PhpMembers
