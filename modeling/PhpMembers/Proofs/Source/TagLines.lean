import PhpMembers.Proofs.Source.Tags

/-! # The lines of documentation with a tag

A line with a tag gives a type, and behind the type it may name the variable that the type is for. A reader of
documentation takes the whole type, also if there are blanks in its brackets, and finds the variable behind it
however it is written: plainly, or with the signs of a reference or of a variadic parameter in front. The types
of documentation are read word by word instead, which comes to the same on lines of the plain form.

* `splitType` : the type at the front of a text.
* `TagLine`, `tagLines` : the lines with a tag, as a reader takes them.
* `TagLine.Plain` : the lines of the plain form.
* `taggedType?_of_plain` : lines of the plain form that name another variable are skipped. -/

namespace PhpMembers

/-! ## (1) The type in front -/

/-- How many brackets are open behind a character. -/
def bracketsOpen (depth : Nat) (c : Char) : Nat :=
  if c ∈ ['<', '(', '[', '\x7b'] then depth + 1
  else if c ∈ ['>', ')', ']', '\x7d'] then depth - 1
  else depth

/-- The type at the front of a text and what stands behind it. A blank ends the type unless brackets are open. -/
def splitType : Nat → Text → Text × Text
  | _, [] => ([], [])
  | depth, c :: rest =>
    if isBlank c && depth == 0 then ([], c :: rest)
    else (c :: (splitType (bracketsOpen depth c) rest).1, (splitType (bracketsOpen depth c) rest).2)

/-- The type and what stands behind it make up the text. -/
theorem splitType_append (depth : Nat) (text : Text) :
    (splitType depth text).1 ++ (splitType depth text).2 = text := by
  induction text generalizing depth with
  | nil => rfl
  | cons c rest ih =>
      rw [splitType]
      split
      · rfl
      · show c :: (_ ++ _) = c :: rest
        rw [ih]

/-- What stands behind the type begins with a blank. -/
theorem isBlank_of_splitType {depth : Nat} {text rest : Text} {c : Char}
    (behind : (splitType depth text).2 = c :: rest) : isBlank c = true := by
  induction text generalizing depth with
  | nil => cases behind
  | cons first text ih =>
      rw [splitType] at behind
      split at behind
      · rename_i ends
        obtain ⟨rfl, -⟩ := List.cons.inj behind
        exact (Bool.and_eq_true_iff.mp ends).1
      · exact ih behind

/-- There is a type in front unless a blank is. -/
theorem splitType_ne_nil {c : Char} (solid : isBlank c = false) (rest : Text) : (splitType 0 (c :: rest)).1 ≠ [] := by
  rw [splitType, solid, Bool.false_and, if_neg Bool.false_ne_true]
  exact List.cons_ne_nil _ _

/-- A text without blanks is one word, also if a blank follows. -/
theorem blankWords_append_of_solid {word behind : Text} (solid : ∀ c ∈ word, isBlank c = false) (some : word ≠ [])
    (ends : ∀ c rest, behind = c :: rest → isBlank c = true) :
    blankWords (word ++ behind) = word :: blankWords behind := by
  have alone : blankWords word = [word] := by
    rw [blankWords, List.splitOnP_eq_singleton solid, List.filter_cons_of_pos (by simpa using some), List.filter_nil]
  cases behind with
  | nil => rw [List.append_nil, alone]; rfl
  | cons c rest =>
      have blank := ends c rest rfl
      rw [blankWords_append_blank blank, alone, blankWords_cons_blank blank, List.singleton_append]

/-! ## (2) Lines with a tag -/

/-- What a line with a tag says: a type, and what stands behind it. -/
structure TagLine where
  /-- The type. -/
  type : Text
  /-- What stands behind the type. -/
  behind : Text
deriving DecidableEq

/-- The variable that a line is for, if it names one. -/
def TagLine.named? (line : TagLine) : Option Text := namedVariable? line.behind

/-- What stands behind the tag at the front of a line. A blank separates the two. -/
def behindTag? (tag line : Text) : Option Text :=
  if tag.isPrefixOf (trimBlank line) then
    match (trimBlank line).drop tag.length with
    | c :: rest => if isBlank c then some rest else none
    | [] => none
  else none

/-- What a line says with a tag at its front, if there is anything behind the tag. -/
def tagLine? (tag line : Text) : Option TagLine :=
  (behindTag? tag line).bind fun text =>
    match trimBlankStart text with
    | [] => none
    | c :: rest => some ⟨(splitType 0 (c :: rest)).1, (splitType 0 (c :: rest)).2⟩

/-- The lines of documentation with a tag. -/
def tagLines (doc tag : Text) : List TagLine := (textLines doc).filterMap (tagLine? tag)

/-- A line of the plain form: the type is one word, and a variable stands alone behind it. Nothing is asked of
what stands behind the variable, nor of where else the wanted variable is mentioned. -/
structure TagLine.Plain (line : TagLine) (wanted : Text) : Prop where
  /-- There is no blank in the type. -/
  oneWord : ∀ c ∈ line.type, isBlank c = false
  /-- A word with a sigil right behind the type is the name of a variable and nothing more. -/
  alone : ∀ word more, blankWords line.behind = ('$' :: word) :: more → ∃ c rest, dropLeading '$' word = c :: rest ∧
    isNameStart c = true ∧ ∀ d ∈ rest, isNameContinue d = true
  /-- Another variable than the wanted one is named right behind the type. -/
  near : ∀ other, line.named? = some other → other ≠ wanted →
    ∃ word more, blankWords line.behind = ('$' :: word) :: more

/-- A line is of the plain form if the type is one word and the next word is a variable. -/
theorem TagLine.plain_of_words {line : TagLine} {c : Char} {rest : Text} {more : List Text} (wanted : Text)
    (oneWord : line.type.any isBlank = false) (words : blankWords line.behind = ('$' :: c :: rest) :: more)
    (start : isNameStart c = true) (continues : rest.all isNameContinue = true) : line.Plain wanted := by
  refine ⟨by simpa only [List.any_eq_false, Bool.not_eq_true] using oneWord, fun word others same => ?_,
    fun _ _ _ => ⟨_, _, words⟩⟩
  rw [words] at same
  obtain ⟨first, -⟩ := List.cons.inj same
  obtain ⟨-, rfl⟩ := List.cons.inj first
  refine ⟨c, rest, ?_, start, List.all_eq_true.mp continues⟩
  rw [dropLeading, List.dropWhile_cons_of_neg (by simpa using ne_dollar_of_isNameStart start)]

/-- The type that the words of a line give: the first one, unless the second one names another variable. -/
def typeOfWords? (wanted : Text) : List Text → Option Text
  | [] => none
  | type :: ('$' :: name) :: _ => if dropLeading '$' name = dropLeading '$' wanted then some type else none
  | type :: _ => some type

/-- The type in a line is that of the words behind the tag. -/
theorem taggedTypeInLine?_eq_bind (tag wanted line : Text) :
    taggedTypeInLine? tag (some wanted) line =
      (behindTag? tag line).bind fun text => typeOfWords? wanted (blankWords text) := by
  rw [taggedTypeInLine?, behindTag?]
  by_cases inFront : tag.isPrefixOf (trimBlank line) = true
  · rw [if_pos inFront, if_pos inFront]
    rcases (trimBlank line).drop tag.length with _ | ⟨c, rest⟩
    · rfl
    · by_cases blank : isBlank c = true
      · simp only [blank, if_true, Option.bind_some]
        generalize blankWords rest = words
        rw [typeOfWords?.eq_def]
        grind
      · simp only [blank, Bool.false_eq_true, if_false, Option.bind_none]
  · rw [if_neg inFront, if_neg inFront, Option.bind_none]

/-- A line without anything behind the tag gives no type. -/
theorem taggedTypeInLine?_eq_none_of_tagLine? {tag text : Text} (wanted : Text) (noLine : tagLine? tag text = none) :
    taggedTypeInLine? tag (some wanted) text = none := by
  rw [taggedTypeInLine?_eq_bind]
  rw [tagLine?] at noLine
  refine Option.bind_eq_none_iff.mpr fun rest behind => ?_
  rw [behind, Option.bind_some] at noLine
  split at noLine
  · rename_i nothing
    rw [← blankWords_trimBlankStart, nothing]
    rfl
  · cases noLine

/-- The words behind the tag are those of the type and those behind it. -/
theorem words_of_tagLine? {tag text : Text} {line : TagLine} (is : tagLine? tag text = some line)
    (oneWord : ∀ c ∈ line.type, isBlank c = false) :
    ∃ rest, behindTag? tag text = some rest ∧ blankWords rest = line.type :: blankWords line.behind := by
  obtain ⟨rest, behind, split⟩ := Option.bind_eq_some_iff.mp is
  refine ⟨rest, behind, ?_⟩
  rcases trimmed : trimBlankStart rest with _ | ⟨c, more⟩
  · rw [trimmed] at split
    cases split
  · rw [trimmed] at split
    obtain rfl := Option.some.inj split
    have solid : isBlank c = false := by
      have first := List.head?_dropWhile_not isBlank rest
      rw [← trimBlankStart, trimmed] at first
      exact first
    have parts := splitType_append 0 (c :: more)
    rw [← blankWords_trimBlankStart, trimmed]
    calc blankWords (c :: more)
        = blankWords ((splitType 0 (c :: more)).1 ++ (splitType 0 (c :: more)).2) := by rw [parts]
      _ = (splitType 0 (c :: more)).1 :: blankWords (splitType 0 (c :: more)).2 :=
          blankWords_append_of_solid oneWord (splitType_ne_nil solid more) fun _ _ => isBlank_of_splitType

/-- **A line of the plain form gives its type unless it names another variable.** -/
theorem TagLine.Plain.taggedTypeInLine? {tag text wanted : Text} {line : TagLine} (is : tagLine? tag text = some line)
    (plain : line.Plain (dropLeading '$' wanted)) :
    taggedTypeInLine? tag (some wanted) text =
      if line.named?.all (· == dropLeading '$' wanted) then some line.type else none := by
  obtain ⟨rest, behind, words⟩ := words_of_tagLine? is plain.oneWord
  rw [taggedTypeInLine?_eq_bind, behind, Option.bind_some, words]
  by_cases sigil : ∃ word more, blankWords line.behind = ('$' :: word) :: more
  · obtain ⟨word, more, first⟩ := sigil
    have solid : ∀ c ∈ word, isBlank c = false := by
      have inLine : '$' :: word ∈ blankWords line.behind := by
        rw [first]
        exact List.mem_cons_self
      exact (List.forall_mem_cons.mp (solid_of_mem_blankWords inLine)).2
    have named : line.named? = some (dropLeading '$' word) := by
      rw [TagLine.named?, namedVariable?_eq, first, List.findSome?_cons,
        namedVariable?_of_dropLeading solid (plain.alone word more first) rfl]
    rw [first, typeOfWords?, named, Option.all_some]
    simp only [beq_iff_eq]
  · -- Without a sigil behind the type the line names the wanted variable or none.
    have suits : line.named?.all (· == dropLeading '$' wanted) = true := by
      rw [Option.all_eq_true]
      intro other named
      by_contra different
      exact sigil (plain.near other named fun same => different (beq_iff_eq.mpr same))
    rw [suits, if_pos rfl, typeOfWords?.eq_def]
    grind

/-- The type in documentation is that of the first of its lines with the tag that does not name another variable,
if all of these lines are of the plain form. -/
theorem taggedType?_eq_find? (doc tag wanted : Text)
    (plain : ∀ line ∈ tagLines doc tag, line.Plain (dropLeading '$' wanted)) :
    taggedType? doc tag (some wanted) =
      ((tagLines doc tag).find? fun line => line.named?.all (· == dropLeading '$' wanted)).map TagLine.type := by
  rw [taggedType?, tagLines]
  rw [tagLines] at plain
  -- Line by line: lines without the tag are passed over by both.
  generalize textLines doc = texts at plain ⊢
  induction texts with
  | nil => rfl
  | cons text texts ih =>
      have later := ih fun line mem => plain line (by
        rw [List.filterMap_cons]
        split
        · exact mem
        · exact List.mem_cons_of_mem _ mem)
      rcases is : tagLine? tag text with _ | line
      · rw [List.findSome?_cons, taggedTypeInLine?_eq_none_of_tagLine? wanted is, List.filterMap_cons_none is, later]
      · rw [List.filterMap_cons_some is] at plain ⊢
        rw [List.findSome?_cons, (plain line List.mem_cons_self).taggedTypeInLine? is, List.find?_cons, later]
        by_cases suits : line.named?.all (· == dropLeading '$' wanted) = true
        · rw [suits, if_pos rfl, Option.map_some]
        · rw [if_neg suits, (Bool.not_eq_true _).mp suits]

/-! ## (3) Lines for other variables -/

/-- **Lines for other variables are skipped.** For all documentation, every tag and every wanted variable, with or
without its sigil: the type is that of the first line with the tag that names the variable or none, all such lines
in front of it name another variable, and there is no type if and only if every line with the tag names another
variable.

The lines must be of the plain form; then it does not matter in which order they stand, nor what stands behind
their variables. -/
theorem taggedType?_of_plain (doc tag wanted : Text)
    (plain : ∀ line ∈ tagLines doc tag, line.Plain (dropLeading '$' wanted)) :
    (∀ type, taggedType? doc tag (some wanted) = some type ↔
      ∃ front line back, tagLines doc tag = front ++ line :: back ∧ line.type = type ∧
        (∀ other, line.named? = some other → other = dropLeading '$' wanted) ∧
          ∀ skipped ∈ front, ∃ other, skipped.named? = some other ∧ other ≠ dropLeading '$' wanted) ∧
      (taggedType? doc tag (some wanted) = none ↔
        ∀ line ∈ tagLines doc tag, ∃ other, line.named? = some other ∧ other ≠ dropLeading '$' wanted) := by
  have suits : ∀ line : TagLine, line.named?.all (· == dropLeading '$' wanted) = true ↔
      ∀ other, line.named? = some other → other = dropLeading '$' wanted := by
    intro line
    rw [Option.all_eq_true]
    exact forall₂_congr fun other _ => beq_iff_eq
  have skipped : ∀ line : TagLine, (!line.named?.all (· == dropLeading '$' wanted)) = true ↔
      ∃ other, line.named? = some other ∧ other ≠ dropLeading '$' wanted := by
    intro line
    rw [Bool.not_eq_true', ← Bool.not_eq_true, suits, not_forall]
    exact exists_congr fun other => Classical.not_imp
  rw [taggedType?_eq_find? doc tag wanted plain]
  constructor
  · intro type
    rw [Option.map_eq_some_iff]
    constructor
    · rintro ⟨line, found, rfl⟩
      obtain ⟨is, front, back, all, first⟩ := List.find?_eq_some_iff_append.mp found
      exact ⟨front, line, back, all, rfl, (suits line).mp is, fun other mem => (skipped other).mp (first other mem)⟩
    · rintro ⟨front, line, back, all, rfl, is, first⟩
      exact ⟨line, List.find?_eq_some_iff_append.mpr ⟨(suits line).mpr is, front, back, all, fun other mem =>
        (skipped other).mpr (first other mem)⟩, rfl⟩
  · rw [Option.map_eq_none_iff, List.find?_eq_none]
    exact forall₂_congr fun line _ => by rw [← skipped, Bool.not_eq_true, Bool.not_eq_true']

/-- Documentation of two parameters. -/
def countAndPost : Text := "@param int $count of posts\n@param Post $post".toList

/-- The lines are of the plain form, and the type of the second parameter is that of its own line. -/
theorem taggedType?_of_plain_countAndPost :
    (∀ line ∈ tagLines countAndPost "@param".toList, line.Plain "post".toList) ∧
      taggedType? countAndPost "@param".toList (some "$post".toList) = some "Post".toList := by
  have lines : tagLines countAndPost "@param".toList =
      [⟨"int".toList, " $count of posts".toList⟩, ⟨"Post".toList, " $post".toList⟩] := by decide +kernel
  have words : blankWords " $count of posts".toList = ["$count".toList, "of".toList, "posts".toList] ∧
      blankWords " $post".toList = ["$post".toList] := by decide +kernel
  have count : namedVariable? " $count of posts".toList = some "count".toList := by decide +kernel
  have post : namedVariable? " $post".toList = some "post".toList := by decide +kernel
  have plain : ∀ line ∈ tagLines countAndPost "@param".toList, line.Plain "post".toList := by
    rw [lines]
    refine List.forall_mem_cons.mpr ⟨?_, List.forall_mem_singleton.mpr ?_⟩
    · exact TagLine.plain_of_words _ (by decide) words.1 (by decide +kernel) (by decide +kernel)
    · exact TagLine.plain_of_words _ (by decide) words.2 (by decide +kernel) (by decide +kernel)
  refine ⟨plain, ((taggedType?_of_plain countAndPost _ "$post".toList plain).1 _).mpr ⟨[_], _, [], lines, rfl, ?_, ?_⟩⟩
  · rintro other named
    exact (Option.some.inj (post.symm.trans named)).symm
  · intro skipped mem
    rw [List.mem_singleton.mp mem]
    exact ⟨_, count, by decide⟩

/-- Documentation of one parameter, with a blank inside the type. -/
def genericParam : Text := "@param array<int, Foo> $w".toList

/-- The line names another variable than the one that gets its type. -/
theorem genericParam_answers_other :
    (tagLines genericParam "@param".toList).map TagLine.named? = [some ['w']] ∧
      taggedType? genericParam "@param".toList (some ['v']) = some "array<int,".toList := by
  decide +kernel

end PhpMembers
