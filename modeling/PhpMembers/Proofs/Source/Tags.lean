import Mathlib.Data.List.TakeWhile
import PhpMembers.Proofs.Syntax.Tokens
import PhpMembers.Typing.StaticType

/-! # Tags of documentation, word by word

A line of documentation is read word by word: the tag, the type, and possibly a variable. A variable is a sigil
with a name behind it, which ends before the next blank at the latest, so it lies in one word.

* `blankWords_trimBlank`, `blankWords_append_blank` : the words of a text in parts.
* `taggedTypeInLine?_eq_some` : a tag is read word by word.
* `namedVariable?`, `namedVariable?_eq` : the first variable that a text names.
* `namedVariable?_of_dropLeading` : a word that is the name of a variable. -/

namespace PhpMembers

/-! ## (1) Words -/

/-- No word lies on both sides of a blank. -/
theorem blankWords_append_blank {c : Char} (blank : isBlank c = true) (front behind : Text) :
    blankWords (front ++ c :: behind) = blankWords front ++ blankWords behind := by
  rw [blankWords, List.splitOnP_append_cons front behind blank, List.filter_append, blankWords, blankWords]

/-- A blank in front belongs to no word. -/
theorem blankWords_cons_blank {c : Char} (blank : isBlank c = true) (text : Text) :
    blankWords (c :: text) = blankWords text := blankWords_append_blank blank [] text

/-- Blanks in front belong to no word. -/
theorem blankWords_trimBlankStart (text : Text) : blankWords (trimBlankStart text) = blankWords text := by
  induction text with
  | nil => rfl
  | cons c rest ih =>
      cases blank : isBlank c with
      | true => rw [trimBlankStart, List.dropWhile_cons_of_pos blank, blankWords_cons_blank blank, ← ih, trimBlankStart]
      | false => rw [trimBlankStart, List.dropWhile_cons_of_neg (by simp [blank])]

/-- Blanks behind belong to no word. -/
theorem blankWords_append_blanks {blanks : Text} (blank : ∀ c ∈ blanks, isBlank c = true) (text : Text) :
    blankWords (text ++ blanks) = blankWords text := by
  induction blanks generalizing text with
  | nil => rw [List.append_nil]
  | cons c rest ih =>
      obtain ⟨first, later⟩ := List.forall_mem_cons.mp blank
      have nothing : blankWords rest = [] := ih later []
      rw [blankWords_append_blank first, nothing, List.append_nil]

/-- **The words of a text are those inside the blanks around it.** -/
theorem blankWords_trimBlank (text : Text) : blankWords (trimBlank text) = blankWords text := by
  let inner := trimBlankStart text
  have split : inner = trimBlank text ++ (inner.reverse.takeWhile isBlank).reverse := by
    rw [trimBlank, ← List.reverse_append, List.takeWhile_append_dropWhile, List.reverse_reverse]
  have blank : ∀ c ∈ (inner.reverse.takeWhile isBlank).reverse, isBlank c = true := fun c mem =>
    List.all_eq_true.mp List.all_takeWhile c (List.mem_reverse.mp mem)
  rw [← blankWords_trimBlankStart text, ← blankWords_append_blanks blank (trimBlank text), ← split]

/-- A word has no blank, and it is not empty. -/
theorem solid_of_mem_blankWords {text word : Text} (mem : word ∈ blankWords text) :
    ∀ c ∈ word, isBlank c = false := by
  have pieces : ∀ text : Text, ∀ piece ∈ text.splitOnP isBlank, ∀ c ∈ piece, isBlank c = false := by
    intro text
    induction text with
    | nil => simp
    | cons c rest ih =>
        rw [List.splitOnP_cons_eq_if_modifyHead]
        obtain ⟨first, more, all⟩ := List.exists_cons_of_ne_nil (List.splitOnP_ne_nil isBlank rest)
        rw [all] at ih ⊢
        obtain ⟨inFirst, inMore⟩ := List.forall_mem_cons.mp ih
        cases blank : isBlank c with
        | true => simpa using ⟨inFirst, inMore⟩
        | false => simpa [blank] using ⟨inFirst, inMore⟩
  exact pieces text word (List.mem_filter.mp mem).1

/-! ## (2) Tags -/

/-- Whether a line of documentation names a type behind the tag for variables. -/
def isVarLine (line : Text) : Bool := (taggedTypeInLine? varTag none line).isSome

/-- **A tag is read word by word**: it is the first word, the type is the second one, and if the third one begins
with a sigil it is the wanted variable. -/
theorem taggedTypeInLine?_eq_some {tag line type : Text} {wanted : Option Text}
    (solid : ∀ c ∈ tag, isBlank c = false) (some : tag ≠ [])
    (found : taggedTypeInLine? tag wanted line = .some type) :
    ∃ further, blankWords line = tag :: type :: further ∧
      ∀ wantedName name more, wanted = .some wantedName → further = ('$' :: name) :: more →
        dropLeading '$' name = dropLeading '$' wantedName := by
  rw [taggedTypeInLine?] at found
  split at found
  · rename_i inFront
    obtain ⟨behind, body⟩ := List.isPrefixOf_iff_prefix.mp inFront
    rw [← body, List.drop_left] at found
    split at found
    · rename_i c rest
      split at found
      · rename_i blank
        -- The tag ends at a blank and has none inside, so it is a word of its own.
        have words : blankWords line = tag :: blankWords rest := by
          rw [← blankWords_trimBlank, ← body, blankWords_append_blank blank, blankWords,
            List.splitOnP_eq_singleton solid, List.filter_cons_of_pos (by simpa using some), List.filter_nil,
            List.singleton_append]
        split at found
        · cases found
        · rename_i first further all
          rw [all] at words
          split at found
          · rename_i wantedName name more
            split at found
            · rename_i same
              obtain rfl := Option.some.inj found
              refine ⟨_, words, fun wantedName' name' more' wanted further => ?_⟩
              obtain rfl := Option.some.inj wanted
              obtain ⟨sameName, -⟩ := List.cons.inj further
              rw [← (List.cons.inj sameName).2]
              exact same
            · cases found
          · rename_i other
            obtain rfl := Option.some.inj found
            exact ⟨further, words, fun wantedName name more wanted same =>
              absurd same (other wantedName name more wanted)⟩
      · cases found
    · cases found
  · cases found

/-- A line that gives the type of a wanted variable gives a type. -/
theorem isVarLine_of_taggedTypeInLine? {wanted : Text} {line type : Text}
    (found : taggedTypeInLine? varTag (some wanted) line = some type) : isVarLine line = true := by
  rw [isVarLine]
  rw [taggedTypeInLine?] at found ⊢
  split at found
  · rename_i inFront
    rw [if_pos inFront]
    split at found
    · rename_i c rest behind
      split at found
      · rename_i blank
        rw [if_pos blank]
        split at found
        · cases found
        · rename_i words
          rfl
      · cases found
    · cases found
  · cases found

/-! ## (3) Variables in texts -/

/-- Whether a character can stand in the name of a variable in documentation. -/
def continuesName (c : Char) : Bool := isNameContinue c && !isBlank c

/-- Whether a text begins with a name. -/
def startsName : Text → Bool
  | [] => false
  | c :: _ => isNameStart c && !isBlank c

/-- The first variable that a text names, without its sigil. -/
def namedVariable? : Text → Option Text
  | [] => none
  | c :: rest => if c == '$' && startsName rest then some (rest.takeWhile continuesName) else namedVariable? rest

/-- No name begins behind the last character in front of a blank. -/
theorem startsName_append {behind : Text} (ends : ∀ c rest, behind = c :: rest → isBlank c = true) (word : Text) :
    startsName (word ++ behind) = startsName word := by
  cases word with
  | cons c rest => rfl
  | nil =>
      cases behind with
      | nil => rfl
      | cons c rest =>
          have blank := ends c rest rfl
          rw [List.nil_append, startsName, startsName, blank, Bool.not_true, Bool.and_false]

/-- A name ends before a blank. -/
theorem takeWhile_continuesName_append {behind : Text} (ends : ∀ c rest, behind = c :: rest → isBlank c = true)
    (word : Text) : (word ++ behind).takeWhile continuesName = word.takeWhile continuesName := by
  have nothing : behind.takeWhile continuesName = [] := by
    cases behind with
    | nil => rfl
    | cons c rest =>
        refine List.takeWhile_cons_of_neg ?_
        rw [continuesName, ends c rest rfl, Bool.not_true, Bool.and_false]
        exact Bool.false_ne_true
  rw [List.takeWhile_append, nothing, List.append_nil]
  split
  · rename_i whole
    exact ((List.takeWhile_prefix continuesName).eq_of_length whole).symm
  · rfl

/-- The first piece between blanks stands in front, and a blank ends it. -/
theorem exists_behind_of_splitOnP {text first : Text} {more : List Text} (all : text.splitOnP isBlank = first :: more) :
    ∃ behind, text = first ++ behind ∧ ∀ c rest, behind = c :: rest → isBlank c = true := by
  induction text generalizing first more with
  | nil =>
      obtain ⟨rfl, -⟩ := List.cons.inj all
      exact ⟨[], rfl, fun c rest nothing => by cases nothing⟩
  | cons c text ih =>
      rw [List.splitOnP_cons_eq_if_modifyHead] at all
      cases blank : isBlank c with
      | true =>
          rw [if_pos blank] at all
          obtain ⟨rfl, -⟩ := List.cons.inj all
          refine ⟨c :: text, rfl, fun d rest same => ?_⟩
          rw [← (List.cons.inj same).1]
          exact blank
      | false =>
          obtain ⟨inner, others, pieces⟩ := List.exists_cons_of_ne_nil (List.splitOnP_ne_nil isBlank text)
          rw [if_neg (by rw [blank]; decide), pieces, List.modifyHead_cons] at all
          obtain ⟨rfl, rfl⟩ := List.cons.inj all
          obtain ⟨behind, split, ends⟩ := ih pieces
          exact ⟨behind, by rw [split, List.cons_append], ends⟩

/-- **A text names a variable first if the first of its words that names one does.** -/
theorem namedVariable?_eq (text : Text) : namedVariable? text = (blankWords text).findSome? namedVariable? := by
  -- Empty pieces between blanks are no words, but they name nothing either.
  have pieces : ∀ text : Text, namedVariable? text = (text.splitOnP isBlank).findSome? namedVariable? := by
    intro text
    induction text with
    | nil => rfl
    | cons c text ih =>
        obtain ⟨first, more, all⟩ := List.exists_cons_of_ne_nil (List.splitOnP_ne_nil isBlank text)
        obtain ⟨behind, split, ends⟩ := exists_behind_of_splitOnP all
        rw [List.splitOnP_cons_eq_if_modifyHead]
        rw [all] at ih ⊢
        cases blank : isBlank c with
        | true =>
            have noSigil : (c == '$') = false := by
              refine beq_eq_false_iff_ne.mpr ?_
              rintro rfl
              cases blank
            rw [namedVariable?, noSigil, Bool.false_and, if_neg Bool.false_ne_true, ih]
            rfl
        | false =>
            -- A name that begins behind this character ends with the first piece.
            rw [if_neg Bool.false_ne_true, List.modifyHead_cons, List.findSome?_cons, namedVariable?, ih, split,
              startsName_append ends, takeWhile_continuesName_append ends, namedVariable?, List.findSome?_cons]
            split <;> rfl
  rw [pieces, blankWords]
  induction text.splitOnP isBlank with
  | nil => rfl
  | cons word more ih =>
      cases word with
      | nil => exact ih
      | cons c rest => rw [List.findSome?_cons, ih, List.filter_cons_of_pos (by simp), List.findSome?_cons]

/-- **A word of sigils and a name names the variable with that name.** -/
theorem namedVariable?_of_dropLeading {word name : Text} (solid : ∀ c ∈ word, isBlank c = false)
    (isName : ∃ c rest, name = c :: rest ∧ isNameStart c = true ∧ ∀ d ∈ rest, isNameContinue d = true)
    (same : dropLeading '$' word = name) : namedVariable? ('$' :: word) = some name := by
  obtain ⟨c, rest, rfl, start, continues⟩ := isName
  induction word with
  | nil => cases same
  | cons first word ih =>
      obtain ⟨solidFirst, solidRest⟩ := List.forall_mem_cons.mp solid
      rw [namedVariable?]
      cases sigil : first == '$' with
      | true =>
          -- No name begins at a further sigil.
          obtain rfl := beq_iff_eq.mp sigil
          have noName : startsName ('$' :: word) = false := rfl
          rw [noName, Bool.and_false, if_neg Bool.false_ne_true]
          exact ih solidRest same
      | false =>
          rw [dropLeading, List.dropWhile_cons_of_neg (by simp [sigil])] at same
          obtain ⟨rfl, rfl⟩ := List.cons.inj same
          rw [if_pos (by simp [startsName, start, solidFirst]), List.takeWhile_cons_of_pos,
            List.takeWhile_eq_self_iff.mpr]
          · intro d mem
            simp [continuesName, continues d mem, solidRest d mem]
          · simp [continuesName, isNameContinue, start, solidFirst]

end PhpMembers
