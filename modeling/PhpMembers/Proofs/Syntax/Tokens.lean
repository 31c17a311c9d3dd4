import PhpMembers.Syntax.Scan

/-! # The texts of tokens

The tokens of a text cover it, and the kind of a token tells how its text begins. Only a `$` begins a
variable, and only a character that begins a name begins an identifier or a reserved word.

* `tokenizeFrom_texts` : the texts of the tokens make up the source.
* `Token.variable_text`, `Token.name_text` : how variables and names begin.
* `scanName_eq`, `scanRooted_eq` : names are extended segment by segment as far as possible.
* `Token.separator_notMem_text` : identifiers and reserved words have one segment. -/

namespace PhpMembers

/-- The tokens of a text cover it. -/
theorem tokenizeFrom_texts (offset : Nat) (source : Text) :
    (tokenizeFrom offset source).flatMap Token.text = source := by
  induction offset, source using tokenizeFrom.induct with
  | case1 offset => rw [tokenizeFrom, List.flatMap_nil]
  | case2 offset c cs found text ih =>
      rw [tokenizeFrom, List.flatMap_cons, ih, List.cons_append, List.take_append_drop]

/-- Every token was found where its text begins. -/
theorem exists_scan_of_mem_tokenizeFrom {offset : Nat} {source : Text} {t : Token}
    (mem : t ∈ tokenizeFrom offset source) :
    ∃ c cs, t.kind = (scan c cs).1 ∧ t.text = c :: cs.take (scan c cs).2 := by
  induction offset, source using tokenizeFrom.induct with
  | case1 offset =>
      rw [tokenizeFrom] at mem
      cases mem
  | case2 offset c cs found text ih =>
      rw [tokenizeFrom] at mem
      rcases List.mem_cons.mp mem with rfl | mem
      · exact ⟨c, cs, rfl, rfl⟩
      · exact ih mem

/-- As many characters as pass a test at the start are those that do. -/
theorem take_countWhile (p : Char → Bool) (cs : Text) : cs.take (countWhile p cs) = cs.takeWhile p :=
  (List.prefix_iff_eq_take.mp (List.takeWhile_prefix p)).symm

/-- Exactly the characters in front of one that fails the test are counted. -/
theorem countWhile_append_of_stop {p : Char → Bool} {cs rest : Text} (all : cs.all p = true)
    (stops : ∀ c ∈ rest.head?, p c = false) : countWhile p (cs ++ rest) = cs.length := by
  rw [countWhile, List.takeWhile_append_of_pos (List.all_eq_true.mp all)]
  cases rest with
  | nil => rw [List.takeWhile_nil, List.append_nil]
  | cons c rest =>
      rw [List.takeWhile_cons_of_neg (by rw [stops c rfl]; exact Bool.false_ne_true), List.append_nil]

/-- A character fails the test where counting stops. -/
theorem countWhile_stops (p : Char → Bool) (cs : Text) : ∀ c ∈ (cs.drop (countWhile p cs)).head?, p c = false := by
  induction cs with
  | nil => rintro c ⟨⟩
  | cons d ds ih =>
      intro c head
      by_cases goesOn : p d = true
      · rw [countWhile, List.takeWhile_cons_of_pos goesOn, List.length_cons, List.drop_succ_cons] at head
        exact ih c head
      · rw [countWhile, List.takeWhile_cons_of_neg goesOn, List.length_nil, List.drop_zero] at head
        cases head
        exact Bool.not_eq_true _ ▸ goesOn

/-! ## (1) Letters and digits -/

/-- Capital letters by their numbers. -/
theorem isUpper_iff {c : Char} : c.isUpper = true ↔ 65 ≤ c.toNat ∧ c.toNat ≤ 90 := by
  have decided : c.isUpper = decide (c.val ≥ 'A'.val ∧ c.val ≤ 'Z'.val) := rfl
  rw [decided, decide_eq_true_iff, ge_iff_le, UInt32.le_iff_toNat_le, UInt32.le_iff_toNat_le]
  rfl

/-- Letters by their numbers. -/
theorem isAlpha_iff {c : Char} :
    c.isAlpha = true ↔ (65 ≤ c.toNat ∧ c.toNat ≤ 90) ∨ (97 ≤ c.toNat ∧ c.toNat ≤ 122) := by
  have decided : c.isAlpha = (c.isUpper || (decide (c.val ≥ 'a'.val) && decide (c.val ≤ 'z'.val))) := rfl
  rw [decided, Bool.or_eq_true, isUpper_iff, Bool.and_eq_true, decide_eq_true_iff, decide_eq_true_iff, ge_iff_le,
    UInt32.le_iff_toNat_le, UInt32.le_iff_toNat_le]
  rfl

/-- Digits by their numbers. -/
theorem isDigit_iff {c : Char} : isDigit c = true ↔ 48 ≤ c.toNat ∧ c.toNat ≤ 57 := by
  rw [isDigit, Bool.and_eq_true, decide_eq_true_iff, decide_eq_true_iff, Char.le_def, Char.le_def,
    UInt32.le_iff_toNat_le, UInt32.le_iff_toNat_le]
  rfl

/-- No white space is a letter, a digit or an underscore. -/
theorem isBlank_of_isAlphanum {c : Char} (word : (c.isAlphanum || c == '_') = true) : isBlank c = false := by
  refine Bool.eq_false_iff.mpr fun blank => ?_
  simp only [isBlank, Bool.or_eq_true, Bool.and_eq_true, decide_eq_true_eq, beq_iff_eq] at blank
  have cases : c.isAlphanum = (c.isAlpha || isDigit c) := rfl
  rw [cases, Bool.or_eq_true, Bool.or_eq_true, isAlpha_iff, isDigit_iff, beq_iff_eq] at word
  rcases word with letter | underscore
  · omega
  · rw [underscore] at blank
    revert blank
    decide

/-! ## (2) Tokens that spell no name -/

/-- The kinds of tokens that can spell the name of a member: variables, identifiers and reserved words. -/
def Kind.isWord (k : Kind) : Bool := k == .variable || k.isMemberName

theorem scanSlash_isWord (cs : Text) : (scanSlash cs).1.isWord = false := by
  unfold scanSlash
  split
  · rfl
  · split
    · unfold commentKind
      split <;> rfl
    · rfl
  · rfl
  · rfl

theorem scanHash_isWord (cs : Text) : (scanHash cs).1.isWord = false := by
  unfold scanHash
  split <;> rfl

theorem scanLabelled_isWord (cs : Text) : (scanLabelled cs).1.isWord = false := by
  unfold scanLabelled
  simp only
  split
  · rfl
  · split
    · split
      · rfl
      · split <;> rfl
    · rfl

theorem scanLess_isWord (cs : Text) : (scanLess cs).1.isWord = false := by
  unfold scanLess
  split
  · rfl
  · split <;> rfl
  · exact scanLabelled_isWord _
  all_goals rfl

theorem scanGreater_isWord (cs : Text) : (scanGreater cs).1.isWord = false := by
  unfold scanGreater
  split <;> rfl

theorem scanQuestion_isWord (cs : Text) : (scanQuestion cs).1.isWord = false := by
  unfold scanQuestion
  split <;> rfl

theorem scanEqual_isWord (cs : Text) : (scanEqual cs).1.isWord = false := by
  unfold scanEqual
  split <;> rfl

theorem scanBang_isWord (cs : Text) : (scanBang cs).1.isWord = false := by
  unfold scanBang
  split <;> rfl

theorem scanStar_isWord (cs : Text) : (scanStar cs).1.isWord = false := by
  unfold scanStar
  split <;> rfl

theorem scanMinus_isWord (cs : Text) : (scanMinus cs).1.isWord = false := by
  unfold scanMinus
  split <;> rfl

theorem scanColon_isWord (cs : Text) : (scanColon cs).1.isWord = false := by
  unfold scanColon
  split <;> rfl

theorem scanNumber_isWord (c : Char) (cs : Text) : (scanNumber c cs).1.isWord = false := by
  unfold scanNumber
  simp only
  split
  · rfl
  · split <;> rfl

theorem scanPoint_isWord (cs : Text) : (scanPoint cs).1.isWord = false := by
  unfold scanPoint
  split
  · rfl
  · rfl
  · simp only
    split <;> rfl

theorem scanRooted_isWord (cs : Text) : (scanRooted cs).1.isWord = false := by
  unfold scanRooted
  split
  · split <;> rfl
  · rfl

theorem scanDoubled_isWord (c : Char) {single double : Kind} (notSingle : single.isWord = false)
    (notDouble : double.isWord = false) (cs : Text) :
    (scanDoubled c single double cs).1.isWord = false := by
  unfold scanDoubled
  split
  · split
    · exact notDouble
    · split
      · rfl
      · exact notSingle
  · exact notSingle

theorem scanAssigning_isWord {single : Kind} (notSingle : single.isWord = false) (cs : Text) :
    (scanAssigning single cs).1.isWord = false := by
  unfold scanAssigning
  split
  · rfl
  · exact notSingle

theorem StringEnd.token_isWord (e : StringEnd) : e.token.1.isWord = false := by
  cases e <;> rfl

/-! ## (3) Tokens that spell a name -/

/-- A reserved word of the table has the kind of a reserved word. -/
theorem isKeyword_of_keyword? {word : Text} {kind : Kind} (found : keyword? word = some kind) :
    kind.isKeyword = true := by
  have all : ∀ entry ∈ keywords, entry.2.isKeyword = true := by decide
  obtain ⟨before, after, table, -⟩ := List.lookup_eq_some_iff.mp found
  apply all (lowerCase word, kind)
  rw [table]
  exact List.mem_append_right before List.mem_cons_self

/-- The names that the lexer finds are no variables. -/
theorem scanName_ne_variable (c : Char) (cs : Text) : (scanName c cs).1 ≠ .variable := by
  unfold scanName
  simp only
  split
  · cases found : keyword? (c :: cs.take (countWhile isNameContinue cs)) with
    | none => exact Kind.noConfusion
    | some kind =>
        rintro rfl
        cases isKeyword_of_keyword? found
  · exact Kind.noConfusion

/-- A token spells no name, or it begins with `$`, or it is a word that begins as a name does. -/
theorem scan_cases (c : Char) (cs : Text) :
    (scan c cs).1.isWord = false ∨ (c = '$' ∧ scan c cs = scanVariable cs) ∨
      (isNameStart c = true ∧ scan c cs = scanName c cs) := by
  -- One case for each character with which a token can begin, then spaces, numbers and names.
  unfold scan
  split
  · exact Or.inl (scanSlash_isWord cs)
  · exact Or.inl (scanHash_isWord cs)
  · exact Or.inl (scanLess_isWord cs)
  · exact Or.inl (scanGreater_isWord cs)
  · exact Or.inl (scanQuestion_isWord cs)
  · exact Or.inl (scanEqual_isWord cs)
  · exact Or.inl (scanBang_isWord cs)
  · exact Or.inl (scanStar_isWord cs)
  · exact Or.inl (scanMinus_isWord cs)
  · exact Or.inl (scanPoint_isWord cs)
  · exact Or.inl (scanColon_isWord cs)
  · exact Or.inl (scanDoubled_isWord '+' rfl rfl cs)
  · exact Or.inl (scanDoubled_isWord '&' rfl rfl cs)
  · exact Or.inl (scanDoubled_isWord '|' rfl rfl cs)
  · exact Or.inl (scanAssigning_isWord rfl cs)
  · exact Or.inl (scanAssigning_isWord rfl cs)
  · exact Or.inl (scanRooted_isWord cs)
  · exact Or.inr (Or.inl ⟨rfl, rfl⟩)
  · exact Or.inl (StringEnd.token_isWord _)
  · exact Or.inl (StringEnd.token_isWord _)
  · exact Or.inl (StringEnd.token_isWord _)
  iterate 10 exact Or.inl rfl
  · split
    · exact Or.inl rfl
    · split
      · exact Or.inl (scanNumber_isWord c cs)
      · split
        · rename_i start
          exact Or.inr (Or.inr ⟨start, rfl⟩)
        · exact Or.inl rfl

/-- No name begins with a digit. -/
theorem isDigit_of_isNameStart {c : Char} (start : isNameStart c = true) : isDigit c = false := by
  refine Bool.eq_false_iff.mpr fun digit => ?_
  rw [isDigit_iff] at digit
  simp only [isNameStart, Bool.or_eq_true, beq_iff_eq, decide_eq_true_eq, isAlpha_iff] at start
  rcases start with (rfl | letter) | high
  · revert digit
    decide
  · omega
  · omega

/-- No name begins with white space. -/
theorem isSpace_of_isNameStart {c : Char} (start : isNameStart c = true) : isSpace c = false := by
  refine Bool.eq_false_iff.mpr fun space => ?_
  simp only [isSpace, Bool.or_eq_true, beq_iff_eq] at space
  rcases space with ((rfl | rfl) | rfl) | rfl <;> revert start <;> decide

/-- What begins like a name is scanned as a name. -/
theorem scan_of_isNameStart {c : Char} (start : isNameStart c = true) (cs : Text) :
    scan c cs = scanName c cs := by
  have notSpace := isSpace_of_isNameStart start
  have notDigit := isDigit_of_isNameStart start
  unfold scan
  split
  all_goals first
    | (exfalso; revert start; decide)
    | rw [notSpace, notDigit, start]
  rfl

/-- No name begins with `$`. -/
theorem ne_dollar_of_isNameStart {c : Char} (start : isNameStart c = true) : c ≠ '$' := by
  rintro rfl
  cases start

/-! ## (4) The extent of names -/

/-- Whether a text has the form of a name: a reserved word has it, too. -/
def isWord : Text → Bool
  | c :: cs => isNameStart c && cs.all isNameContinue
  | [] => false

/-- Segments with a separator in front of each. -/
def separated (pieces : List Text) : Text := pieces.flatMap fun piece => '\\' :: piece

/-- `EndsName rest`: neither does the last segment of a name go on here nor does a further segment follow. -/
def EndsName (rest : Text) : Prop :=
  (∀ c ∈ rest.head?, isNameContinue c = false) ∧ ∀ c cs, rest = '\\' :: c :: cs → isNameStart c = false

theorem separated_cons (piece : Text) (pieces : List Text) :
    separated (piece :: pieces) = '\\' :: (piece ++ separated pieces) := by
  rw [separated, List.flatMap_cons, List.cons_append, separated]

/-- Where further segments or the end of the name follow, the segment in front is complete. -/
theorem isNameContinue_head_separated {pieces : List Text} {rest : Text} (ends : EndsName rest) :
    ∀ c ∈ (separated pieces ++ rest).head?, isNameContinue c = false := by
  cases pieces with
  | nil => exact ends.1
  | cons piece pieces =>
      intro c head
      rw [separated_cons] at head
      cases head
      rfl

/-- **All further segments are taken.** -/
theorem segments_separated {pieces : List Text} {rest : Text} (words : ∀ piece ∈ pieces, isWord piece = true)
    (ends : EndsName rest) : segments (separated pieces ++ rest) = (separated pieces).length := by
  induction pieces with
  | nil =>
      show segments rest = 0
      rw [segments.eq_def]
      split
      · rename_i c cs
        rw [if_neg (by rw [ends.2 c cs rfl]; exact Bool.false_ne_true)]
      · rfl
  | cons piece pieces ih =>
      obtain ⟨word, others⟩ := List.forall_mem_cons.mp words
      cases piece with
      | nil => cases word
      | cons c cs =>
          obtain ⟨start, more⟩ := Bool.and_eq_true_iff.mp word
          have extent : countWhile isNameContinue (cs ++ (separated pieces ++ rest)) = cs.length :=
            countWhile_append_of_stop more (isNameContinue_head_separated ends)
          rw [separated_cons, List.cons_append, List.cons_append, List.cons_append, List.append_assoc, segments,
            if_pos start]
          simp only [extent, List.drop_left, ih others, List.length_cons, List.length_append]
          omega

/-- Behind a segment there are further ones, or none, and then the name ends. -/
theorem exists_separated (cs : Text) (complete : ∀ c ∈ cs.head?, isNameContinue c = false) :
    ∃ pieces rest, cs = separated pieces ++ rest ∧ (∀ piece ∈ pieces, isWord piece = true) ∧ EndsName rest := by
  induction cs using segments.induct with
  | case1 c cs start n ih =>
      obtain ⟨pieces, rest, behind, words, ends⟩ := ih (countWhile_stops isNameContinue cs)
      have cut : c :: cs = c :: cs.takeWhile isNameContinue ++ (separated pieces ++ rest) := by
        rw [← behind, List.cons_append, ← take_countWhile, List.take_append_drop]
      have word : isWord (c :: cs.takeWhile isNameContinue) = true :=
        Bool.and_eq_true_iff.mpr ⟨start, List.all_takeWhile⟩
      refine ⟨(c :: cs.takeWhile isNameContinue) :: pieces, rest, ?_, List.forall_mem_cons.mpr ⟨word, words⟩, ends⟩
      rw [cut, separated_cons]
      simp only [List.cons_append, List.append_assoc]
  | case2 c cs other =>
      refine ⟨[], _, rfl, by simp, complete, ?_⟩
      rintro d ds ⟨⟩
      exact Bool.not_eq_true _ ▸ other
  | case3 cs other =>
      refine ⟨[], _, rfl, by simp, complete, ?_⟩
      rintro d ds rfl
      exact absurd rfl (other d ds)

/-- What begins as a name goes on as one, segment by segment. -/
theorem exists_segments {c : Char} (start : isNameStart c = true) (cs : Text) :
    ∃ first more rest, cs = first ++ (separated more ++ rest) ∧ isWord (c :: first) = true ∧
      (∀ piece ∈ more, isWord piece = true) ∧ EndsName rest := by
  obtain ⟨more, rest, behind, words, ends⟩ := exists_separated _ (countWhile_stops isNameContinue cs)
  refine ⟨cs.takeWhile isNameContinue, more, rest, ?_, Bool.and_eq_true_iff.mpr ⟨start, List.all_takeWhile⟩, words,
    ends⟩
  rw [← behind, ← take_countWhile, List.take_append_drop]

section Names

variable {c : Char} {first rest : Text} {more : List Text} (word : isWord (c :: first) = true)
  (words : ∀ piece ∈ more, isWord piece = true) (ends : EndsName rest)
include word words ends

/-- **A name is extended segment by segment**, and it is qualified if there is more than one segment. -/
theorem scanName_eq : scanName c (first ++ (separated more ++ rest)) =
    (if more = [] then (keyword? (c :: first)).getD .ident else .qualifiedName,
      (first ++ separated more).length) := by
  obtain ⟨-, goesOn⟩ := Bool.and_eq_true_iff.mp word
  have extent : countWhile isNameContinue (first ++ (separated more ++ rest)) = first.length :=
    countWhile_append_of_stop goesOn (isNameContinue_head_separated ends)
  rw [scanName, extent, List.drop_left, segments_separated words ends, List.take_left]
  cases more with
  | nil => simp [separated]
  | cons piece more => simp [separated_cons]

/-- So is a name with a separator in front. -/
theorem scanRooted_eq : scanRooted (c :: (first ++ (separated more ++ rest))) =
    (.qualifiedName, 1 + (first ++ separated more).length) := by
  obtain ⟨start, goesOn⟩ := Bool.and_eq_true_iff.mp word
  have extent : countWhile isNameContinue (first ++ (separated more ++ rest)) = first.length :=
    countWhile_append_of_stop goesOn (isNameContinue_head_separated ends)
  rw [scanRooted, if_pos start]
  simp only [extent, List.drop_left, segments_separated words ends, List.length_append, Nat.add_assoc]

end Names

namespace Token

variable {source : Text} {t : Token}

/-- A variable is a `$` with a name after it. -/
theorem exists_variableName (mem : t ∈ tokenize source) (kind : t.kind = .variable) :
    ∃ c cs, t.text = '$' :: c :: cs ∧ isNameStart c = true ∧ ∀ d ∈ cs, isNameContinue d = true := by
  obtain ⟨c, cs, scanned, text⟩ := exists_scan_of_mem_tokenizeFrom mem
  rw [kind] at scanned
  rcases scan_cases c cs with notWord | ⟨rfl, isVariable⟩ | ⟨-, isName⟩
  · rw [← scanned] at notWord
    cases notWord
  · rw [isVariable] at scanned text
    cases cs with
    | nil => cases scanned
    | cons d ds =>
        rw [scanVariable] at scanned text
        by_cases start : isNameStart d = true
        · rw [if_pos start, Nat.add_comm, List.take_succ_cons, take_countWhile] at text
          exact ⟨d, _, text, start, List.all_eq_true.mp List.all_takeWhile⟩
        · rw [if_neg start] at scanned
          cases scanned
  · rw [isName] at scanned
    exact absurd scanned.symm (scanName_ne_variable c cs)

/-- The name of a variable does not begin with `$`. -/
theorem variable_text (mem : t ∈ tokenize source) (kind : t.kind = .variable) :
    ∃ c cs, t.text = '$' :: c :: cs ∧ c ≠ '$' := by
  obtain ⟨c, cs, text, start, -⟩ := exists_variableName mem kind
  exact ⟨c, cs, text, ne_dollar_of_isNameStart start⟩

/-- An identifier or reserved word was found as a name. -/
theorem exists_scanName (mem : t ∈ tokenize source) (kind : t.kind.isMemberName = true) :
    ∃ c cs, isNameStart c = true ∧ t.kind = (scanName c cs).1 ∧
      t.text = c :: cs.take (scanName c cs).2 := by
  obtain ⟨c, cs, scanned, text⟩ := exists_scan_of_mem_tokenizeFrom mem
  rw [scanned] at kind
  rcases scan_cases c cs with notWord | ⟨rfl, isVariable⟩ | ⟨start, isName⟩
  · rw [Kind.isWord, kind, Bool.or_true] at notWord
    cases notWord
  · rw [isVariable] at kind
    unfold scanVariable at kind
    split at kind
    · split at kind <;> cases kind
    · cases kind
  · rw [isName] at scanned text
    exact ⟨c, cs, start, scanned, text⟩

/-- An identifier or reserved word does not begin with `$`. -/
theorem name_text (mem : t ∈ tokenize source) (kind : t.kind.isMemberName = true) :
    ∃ c cs, t.text = c :: cs ∧ c ≠ '$' := by
  obtain ⟨c, cs, start, -, text⟩ := exists_scanName mem kind
  exact ⟨c, _, text, ne_dollar_of_isNameStart start⟩

/-- An identifier or reserved word has one segment. -/
theorem separator_notMem_text (mem : t ∈ tokenize source) (kind : t.kind.isMemberName = true) :
    '\\' ∉ t.text := by
  obtain ⟨c, cs, start, scanned, text⟩ := exists_scanName mem kind
  rw [scanned] at kind
  rw [text]
  unfold scanName at kind ⊢
  simp only at kind ⊢
  split at kind
  · rename_i single
    rw [if_pos single, take_countWhile]
    intro inText
    rcases List.mem_cons.mp inText with rfl | inRest
    · cases start
    · cases List.all_eq_true.mp List.all_takeWhile _ inRest
  · cases kind

end Token

end PhpMembers
