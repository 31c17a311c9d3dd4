import Mathlib.Data.List.TakeWhile
import PhpMembers.Proofs.Syntax.Types
import PhpMembers.Typing.StaticType

/-! # Types that are spelled as one name

A type that consists of one name, with or without `null`, is read by two interpreters: one for hints and one for
documentation. A text that is accepted as a class name has no characters with a meaning in documentation, so both
interpreters see the same name. They agree on what it declares, except for `parent`.

* `ClassName.notMem_of_parse` : the characters of class names.
* `OneName` : the spellings of such a type.
* `DeclaredType.ofName` : what one name declares.
* `DeclaredType.ofText_of_oneName`, `DeclaredType.ofHint_of_oneName` : both interpreters declare this. -/

namespace PhpMembers

/-! ## (1) The characters of class names -/

/-- Each character of a text is a separator or a character of one of the pieces. -/
theorem exists_mem_splitOn {text : Text} {c separator : Char} (mem : c ∈ text) (ne : c ≠ separator) :
    ∃ piece ∈ text.splitOn separator, c ∈ piece := by
  induction text with
  | nil => cases mem
  | cons first rest ih =>
      obtain ⟨piece, more, pieces⟩ := List.exists_cons_of_ne_nil (List.splitOnP_ne_nil (· == separator) rest)
      rw [← List.splitOn_eq_splitOnP] at pieces
      rw [List.splitOn_cons_eq_if_modifyHead]
      split
      · rename_i here
        have inRest : c ∈ rest := (List.mem_cons.mp mem).resolve_left fun same => ne (same.trans (beq_iff_eq.mp here))
        obtain ⟨found, inPieces, inFound⟩ := ih inRest
        exact ⟨found, List.mem_cons_of_mem _ inPieces, inFound⟩
      · rw [pieces, List.modifyHead_cons]
        rcases List.mem_cons.mp mem with rfl | inRest
        · exact ⟨_, List.mem_cons_self, List.mem_cons_self⟩
        · obtain ⟨found, inPieces, inFound⟩ := ih inRest
          rw [pieces] at inPieces
          rcases List.mem_cons.mp inPieces with rfl | inMore
          · exact ⟨_, List.mem_cons_self, List.mem_cons_of_mem _ inFound⟩
          · exact ⟨found, List.mem_cons_of_mem _ inMore, inFound⟩

/-- An identifier has characters of class names only. -/
theorem isPathCharacter_of_isIdentifier {text : Text} (identifier : isIdentifier text = true) :
    ∀ c ∈ text, isPathCharacter c = true := by
  cases text with
  | nil => cases identifier
  | cons first rest =>
      obtain ⟨starts, goesOn⟩ := Bool.and_eq_true_iff.mp identifier
      refine List.forall_mem_cons.mpr ⟨?_, fun c mem => ?_⟩
      · rcases Bool.or_eq_true_iff.mp starts with underscore | letter
        · simp [isPathCharacter, underscore]
        · simp [isPathCharacter, letter]
      · rcases Bool.or_eq_true_iff.mp (List.all_eq_true.mp goesOn c mem) with underscore | other
        · simp [isPathCharacter, underscore]
        · simp [isPathCharacter, other]

namespace ClassName

variable {text : Text} {name : ClassName}

/-- A text that is read as a class name, without blanks around it. -/
theorem isPathCharacter_of_parse (accepted : parse text = .ok name) (solid : trimBlank text = text) :
    ∀ c ∈ text, isPathCharacter c = true := by
  rw [parse, solid] at accepted
  split at accepted
  · cases accepted
  split at accepted
  · cases accepted
  rename_i none
  intro c mem
  by_cases separator : c = '\\'
  · rw [separator]
    decide
  · rw [← List.takeWhile_append_dropWhile (p := (· == '\\')) (l := text), List.mem_append] at mem
    have inBody := mem.resolve_left fun leading => by
      have same := List.mem_takeWhile_imp leading
      exact separator (beq_iff_eq.mp same)
    obtain ⟨segment, inSegments, inSegment⟩ := exists_mem_splitOn inBody separator
    have identifier := List.find?_eq_none.mp none segment inSegments
    rw [Bool.not_eq_true, Bool.not_eq_false'] at identifier
    exact isPathCharacter_of_isIdentifier identifier c inSegment

/-- Other characters do not occur in it. -/
theorem notMem_of_parse (accepted : parse text = .ok name) (solid : trimBlank text = text) {c : Char}
    (other : isPathCharacter c = false) : c ∉ text := by
  intro mem
  rw [isPathCharacter_of_parse accepted solid c mem] at other
  cases other

/-- It is not empty. -/
theorem ne_nil_of_parse (accepted : parse text = .ok name) : text ≠ [] := by
  rintro rfl
  cases accepted

end ClassName

/-! ## (2) Spellings -/

/-- `OneName t text`: the text consists of `t`, with or without `null`. -/
inductive OneName (t : Text) : Text → Prop
  /-- `t` alone. -/
  | plain : OneName t t
  /-- `?t`. -/
  | nullable : OneName t ('?' :: t)
  /-- `t|null`, with `null` in any letter case. -/
  | union {word : Text} (isNull : sameIgnoringCase word nullWord = true) : OneName t (t ++ '|' :: word)

/-- A character that is its own lower case is in a word only if it is in each spelling of the word. -/
theorem notMem_of_sameIgnoringCase {text word : Text} (same : sameIgnoringCase text word = true) {c : Char}
    (other : c.toLower ∉ lowerCase word) : c ∉ text := by
  intro mem
  rw [← beq_iff_eq.mp same] at other
  exact other (List.mem_map_of_mem mem)

/-- Blanks are their own lower case. -/
theorem toLower_of_isBlank {c : Char} (blank : isBlank c = true) : c.toLower = c := by
  unfold Char.toLower
  split
  · rename_i capital
    obtain ⟨ge, le⟩ := capital
    have ge : 65 ≤ c.toNat := ge
    have le : c.toNat ≤ 90 := le
    simp only [isBlank, Bool.or_eq_true, Bool.and_eq_true, decide_eq_true_eq, beq_iff_eq] at blank
    omega
  · rfl

/-- There are no blanks around `null`. -/
theorem trimBlank_of_sameIgnoringCase {text : Text} (same : sameIgnoringCase text nullWord = true) :
    trimBlank text = text := by
  have solid : ∀ c ∈ text, ¬ isBlank c = true := by
    intro c mem blank
    refine notMem_of_sameIgnoringCase same ?_ mem
    rw [toLower_of_isBlank blank]
    intro inWord
    have solid : (lowerCase nullWord).all (fun c => !isBlank c) = true := by decide
    have none := List.all_eq_true.mp solid c inWord
    rw [blank] at none
    cases none
  have keep : ∀ text : Text, (∀ c ∈ text, ¬ isBlank c = true) → text.dropWhile isBlank = text := by
    rintro (_ | ⟨first, rest⟩) solid
    · rfl
    · exact List.dropWhile_cons_of_neg (solid first List.mem_cons_self)
  rw [trimBlank, trimBlankStart, keep text solid, keep _ fun c mem => solid c (List.mem_reverse.mp mem),
    List.reverse_reverse]

/-- The capital letters are characters of class names. -/
theorem isPathCharacter_of_capital {c : Char} (ge : 65 ≤ c.toNat) (le : c.toNat ≤ 90) : isPathCharacter c = true := by
  have letters : ∀ n ∈ List.range 26, isPathCharacter (Char.ofNat (65 + n)) = true := by decide +kernel
  have found := letters (c.toNat - 65) (List.mem_range.mpr (by omega))
  rwa [show 65 + (c.toNat - 65) = c.toNat by omega, Char.ofNat_toNat] at found

/-- So are the letters of `null`. -/
theorem isPathCharacter_of_null {text : Text} (same : sameIgnoringCase text nullWord = true) :
    ∀ c ∈ text, isPathCharacter c = true := by
  intro c mem
  have inWord : c.toLower ∈ lowerCase nullWord := by
    rw [← beq_iff_eq.mp same]
    exact List.mem_map_of_mem mem
  unfold Char.toLower at inWord
  split at inWord
  · rename_i capital
    exact isPathCharacter_of_capital capital.1 capital.2
  · have letters : (lowerCase nullWord).all isPathCharacter = true := by decide
    exact List.all_eq_true.mp letters c inWord

/-- **The names in a type that is spelled as one name** are this name and `null`. -/
theorem Cursor.exists_names_of_oneName {source : Text} {hint : Cursor} (mem : hint ∈ (ofText source).elements)
    (isType : hint.kind = .type) (node : hint.isLeaf = false) {t : Text} {name : ClassName}
    (accepted : ClassName.parse t = .ok name) (solid : trimBlank t = t) (oneName : OneName t hint.text) :
    ∃ first others, hint.names = first :: others ∧ first.nameText = t ∧
      ∀ other ∈ others, sameIgnoringCase other.nameText nullWord = true := by
  have path := ClassName.isPathCharacter_of_parse accepted solid
  have ne := ClassName.ne_nil_of_parse accepted
  obtain ⟨written, apart, text⟩ := written_children mem isType node
  -- The name comes first, and only a union has another one.
  obtain ⟨rest, isNull, spelled⟩ : ∃ rest : List Text, (∀ word ∈ rest, sameIgnoringCase word nullWord = true) ∧
      (Tree.nodesAmong .nameRef hint.tree.children).map Tree.nameText = t :: rest := by
    generalize hint.text = whole at oneName text
    cases oneName with
    | plain => exact ⟨[], List.forall_mem_nil _, Tree.names_of_plain written apart path ne text⟩
    | nullable => exact ⟨[], List.forall_mem_nil _, Tree.names_of_nullable written apart path ne text⟩
    | @union word isNull =>
        have ne' : word ≠ [] := by
          rintro rfl
          cases isNull
        exact ⟨[word], List.forall_mem_singleton.mpr isNull,
          Tree.names_of_union written apart path ne (isPathCharacter_of_null isNull) ne' text⟩
  have names := hint.map_nameText_names
  rw [spelled] at names
  obtain ⟨first, others, all, same, behind⟩ := List.map_eq_cons_iff.mp names
  exact ⟨first, others, all, same, fun other mem => isNull _ (behind ▸ List.mem_map_of_mem mem)⟩

namespace DeclaredType

/-- What one name declares in a class-like, when it means a certain class. -/
def ofName (owner meant : ClassName) (t : Text) : DeclaredType :=
  if sameIgnoringCase t nullWord then unknown
  else if sameIgnoringCase t staticWord then ⟨.object owner, true⟩
  else if sameIgnoringCase t selfWord then fixed (.object owner)
  else if isPrimitive t then fixed (.builtin t)
  else fixed (.object meant)

/-- Something is known, except of `null`. -/
theorem isUnknown_ofName (owner meant : ClassName) (t : Text) :
    (ofName owner meant t).type.isUnknown = sameIgnoringCase t nullWord := by
  rw [ofName]
  split
  · rename_i isNull
    exact isNull.symm
  · rename_i notNull
    rw [Bool.eq_false_iff.mpr notNull]
    repeat' split
    all_goals rfl

theorem ofName_null {owner meant : ClassName} {t : Text} (isNull : sameIgnoringCase t nullWord = true) :
    ofName owner meant t = unknown := if_pos isNull

variable {regions : Regions} {t text : Text} {name owner : ClassName}

/-- The alternatives besides `null` of a text that consists of one name. -/
theorem alternatives_of_oneName (accepted : ClassName.parse t = .ok name) (solid : trimBlank t = t)
    (oneName : OneName t text) :
    (((dropLeading '?' text).splitOn '|').map trimBlank).filter
        (fun part => part ≠ [] && !sameIgnoringCase part nullWord) =
      if sameIgnoringCase t nullWord then [] else [t] := by
  have ne := ClassName.ne_nil_of_parse accepted
  have bar : '|' ∉ t := ClassName.notMem_of_parse accepted solid (by decide)
  have alone : ([t].map trimBlank).filter (fun part => part ≠ [] && !sameIgnoringCase part nullWord) =
      if sameIgnoringCase t nullWord then [] else [t] := by
    rw [List.map_singleton, solid]
    by_cases isNull : sameIgnoringCase t nullWord = true
    · simp [isNull]
    · simp [isNull, ne]
  have unmarked (rest : Text) : dropLeading '?' (t ++ rest) = t ++ rest := by
    have mark : '?' ∉ t := ClassName.notMem_of_parse accepted solid (by decide)
    obtain ⟨first, more, rfl⟩ := List.exists_cons_of_ne_nil ne
    refine List.dropWhile_cons_of_neg fun same => mark ?_
    rw [← beq_iff_eq.mp same]
    exact List.mem_cons_self
  have bare : dropLeading '?' t = t := by
    have bare := unmarked []
    rwa [List.append_nil] at bare
  -- A question mark is dropped, and `null` in a union is filtered out.
  cases oneName with
  | plain => rw [bare, List.splitOn_eq_singleton bar, alone]
  | nullable =>
      have dropped : dropLeading '?' ('?' :: t) = dropLeading '?' t := List.dropWhile_cons_of_pos rfl
      rw [dropped, bare, List.splitOn_eq_singleton bar, alone]
  | @union word isNull =>
      have bar' : '|' ∉ word := notMem_of_sameIgnoringCase isNull (by decide)
      have pieces : (t ++ '|' :: word).splitOn '|' = [t] ++ [word] := by
        rw [List.splitOn_eq_splitOnP, @List.splitOnP_append_cons _ (· == '|') t word '|' rfl,
          ← List.splitOn_eq_splitOnP, ← List.splitOn_eq_splitOnP, List.splitOn_eq_singleton bar,
          List.splitOn_eq_singleton bar']
      have dropped :
          ([word].map trimBlank).filter (fun part => part ≠ [] && !sameIgnoringCase part nullWord) = [] := by
        rw [List.map_singleton, trimBlank_of_sameIgnoringCase isNull]
        simp [isNull]
      rw [unmarked, pieces, List.map_append, List.filter_append, alone, dropped, List.append_nil]

/-- **What documentation declares with one name.** -/
theorem ofText_of_oneName (accepted : ClassName.parse t = .ok name) (solid : trimBlank t = t)
    (oneName : OneName t text) (offset : Nat) :
    ofText regions text offset (some owner) = ofName owner (regions.resolve t offset) t := by
  have absent {c : Char} (other : isPathCharacter c = false) : c ∉ t := ClassName.notMem_of_parse accepted solid other
  have whole : t.takeWhile (· != '<') = t :=
    List.takeWhile_eq_self_iff.mpr fun c mem => bne_iff_ne.mpr fun same => absent (by rw [same]; decide) mem
  have noArray : ['[', ']'].isSuffixOf t = false := by
    refine Bool.eq_false_iff.mpr fun suffix => absent (c := '[') (by decide) ?_
    exact (List.isSuffixOf_iff_suffix.mp suffix).subset List.mem_cons_self
  have noThis : (t == '$' :: ['t', 'h', 'i', 's']) = false := by
    refine Bool.eq_false_iff.mpr fun same => absent (c := '$') (by decide) ?_
    rw [beq_iff_eq.mp same]
    exact List.mem_cons_self
  -- So none of the special forms applies to the name.
  rw [ofText]
  simp only [alternatives_of_oneName accepted solid oneName]
  rw [ofName]
  by_cases isNull : sameIgnoringCase t nullWord = true
  · rw [if_pos isNull, if_pos isNull]
  · rw [if_neg isNull, if_neg isNull]
    simp only [whole, noArray, noThis, accepted, Bool.or_false]
    rfl

/-- What is `self` in some letter case is no built-in type. -/
theorem isPrimitive_of_self (isSelf : sameIgnoringCase t selfWord = true) : isPrimitive t = false := by
  rw [isPrimitive, beq_iff_eq.mp isSelf]
  decide

/-- **What a hint declares with one name**, other than `parent`. -/
theorem ofHint_of_oneName {source : Text} {hint : Cursor} (mem : hint ∈ (Cursor.ofText source).elements)
    (isType : hint.kind = .type) (node : hint.isLeaf = false) (accepted : ClassName.parse t = .ok name)
    (solid : trimBlank t = t) (oneName : OneName t hint.text) (notParent : sameIgnoringCase t parentWord = false)
    (around : ∀ name ∈ hint.names, regions.enclosingClass? name = some owner) :
    ∃ name ∈ hint.names, name.nameText = t ∧
      ofHint regions hint = ofName owner (regions.resolve t name.start) t := by
  obtain ⟨name, others, names, same, isNull⟩ :=
    Cursor.exists_names_of_oneName mem isType node accepted solid oneName
  have enclosing := around name (names ▸ List.mem_cons_self)
  refine ⟨name, names ▸ List.mem_cons_self, same, ?_⟩
  have silent : (others.filter fun name => !sameIgnoringCase name.nameText nullWord) = [] :=
    List.filter_eq_nil_iff.mpr fun other mem => by simp [isNull other mem]
  rw [ofHint, names, List.filter_cons, silent, same, ofName]
  -- Besides `parent`, which is excluded, the words with a meaning of their own are `null`, `static` and `self`.
  by_cases isNull : sameIgnoringCase t nullWord = true
  · simp only [isNull, if_true]
    rfl
  · rw [Bool.not_eq_true] at isNull
    simp only [isNull]
    by_cases isStatic : sameIgnoringCase t staticWord = true
    · simp [same, isStatic, Regions.resolveName?, enclosing, StaticType.ofClass?]
    · rw [Bool.not_eq_true] at isStatic
      by_cases isSelf : sameIgnoringCase t selfWord = true
      · simp [same, isStatic, isSelf, isPrimitive_of_self isSelf, Regions.resolveName?, enclosing, StaticType.ofClass?]
      · rw [Bool.not_eq_true] at isSelf
        simp [same, isStatic, isSelf, notParent, Regions.resolveName?, StaticType.ofClass?]

end DeclaredType

end PhpMembers
