import Mathlib.Data.List.TakeWhile
import PhpMembers.Proofs.Syntax.Tokens

/-! # Labelled strings

A labelled string begins with `<<<` and a label on a line of its own, and lasts until the label comes again at the
beginning of a line, after white space. The first such line closes it. The lexer meets only the opening line when it
starts; the rest of the text decides whether this line opens a string or is damage.

* `Opens` : the opening lines with their labels.
* `IsClosingLine` : the lines that close a string with a label.
* `labelledEnd?_eq_some`, `labelledEnd?_eq_none_iff` : where the lexer finds the end of the string.
* `opening?`, `opening?_of_opens`, `opens_of_opening?` : what the lexer takes for an opening line.
* `ClosingAt`, `exists_closing`, `ClosingAt.exists_lines` : where a text is cut by the first closing line.
* `scanLabelled_of_closed`, `scanLabelled_of_unclosed` : the token that an opening line begins. -/

namespace PhpMembers

variable {label line text : Text} {c : Char}

/-! ## (1) Opening and closing lines -/

/-- The characters that begin a label. -/
def isLabelStart (c : Char) : Bool := c == '_' || c.isAlpha

/-- The characters that continue a label. -/
def isLabelContinue (c : Char) : Bool := c == '_' || c.isAlphanum

/-- The white space between `<<<` and a label. -/
def isLabelBlank (c : Char) : Bool := c == ' ' || c == '\t'

/-- Whether a text is a label: an ASCII word. -/
def IsLabel (label : Text) : Prop :=
  ∃ c cs, label = c :: cs ∧ isLabelStart c = true ∧ cs.all isLabelContinue = true

/-- A quote, or none. -/
def IsQuote (quote : Text) : Prop := quote = [] ∨ ∃ q, quote = [q] ∧ isLabelQuote q = true

/-- A line end. -/
def IsLineEnd (lineEnd : Text) : Prop := lineEnd = ['\n'] ∨ lineEnd = ['\r', '\n']

/-- `Opens label opening`: what follows `<<<` is an opening line with this label. White space may stand in front of the
label and quotes around it. -/
def Opens (label opening : Text) : Prop :=
  ∃ blanks quote quote' lineEnd, opening = blanks ++ (quote ++ (label ++ (quote' ++ lineEnd))) ∧
    blanks.all isLabelBlank = true ∧ IsQuote quote ∧ IsLabel label ∧ IsQuote quote' ∧ IsLineEnd lineEnd

/-- `ClosesAfter label white line`: behind the white space the line begins with the label, and the label is not the
beginning of a longer word. -/
def ClosesAfter (label white line : Text) : Prop :=
  ∃ after, line = white ++ (label ++ after) ∧ white.all isBlank = true ∧
    ∀ c ∈ after.head?, (isLetterOrNumber c || c == '_') = false

/-- Whether a line closes a string with the label. -/
def IsClosingLine (label line : Text) : Prop := ∃ white, ClosesAfter label white line

/-! ## (2) The end of a string -/

/-- A label begins with no white space. -/
theorem isBlank_of_isLabelStart (start : isLabelStart c = true) : isBlank c = false := by
  refine isBlank_of_isAlphanum ?_
  rcases Bool.or_eq_true_iff.mp start with underscore | letter
  · simp [underscore]
  · simp [Char.isAlphanum, letter]

/-- A line that closes a string does so through the label. -/
theorem closingLabel?_of_closesAfter {white : Text} (isLabel : IsLabel label) (closes : ClosesAfter label white line) :
    closingLabel? label line = some (white.length + label.length) := by
  obtain ⟨after, rfl, blank, ends⟩ := closes
  obtain ⟨c, cs, rfl, start, -⟩ := isLabel
  -- The white space ends where the label begins.
  have body : trimBlankStart (white ++ (c :: cs ++ after)) = c :: cs ++ after := by
    rw [trimBlankStart, List.dropWhile_append_of_pos (List.all_eq_true.mp blank), List.cons_append]
    exact List.dropWhile_cons_of_neg (by rw [isBlank_of_isLabelStart start]; exact Bool.false_ne_true)
  have starts : (c :: cs).isPrefixOf (c :: cs ++ after) = true :=
    List.isPrefixOf_iff_prefix.mpr (List.prefix_append _ _)
  have extent : (white ++ (c :: cs ++ after)).length - (c :: cs ++ after).length + (c :: cs).length =
      white.length + (c :: cs).length := by
    simp only [List.length_append]
    omega
  rw [closingLabel?, body]
  simp only [if_pos starts, List.drop_left]
  cases after with
  | nil => exact congrArg some extent
  | cons d after =>
      show (if (isLetterOrNumber d || d == '_') = true then none else some _) = _
      rw [ends d rfl, if_neg Bool.false_ne_true]
      exact congrArg some extent

/-- A line of which the lexer says that it closes a string does so. -/
theorem isClosingLine_of_closingLabel? {n : Nat} (found : closingLabel? label line = some n) :
    IsClosingLine label line := by
  rw [closingLabel?] at found
  split at found
  · rename_i starts
    obtain ⟨after, body⟩ := List.isPrefixOf_iff_prefix.mp starts
    refine ⟨line.takeWhile isBlank, after, ?_, List.all_takeWhile, ?_⟩
    · rw [body, trimBlankStart, List.takeWhile_append_dropWhile]
    · intro c head
      rw [← body, List.drop_left] at found
      obtain ⟨rest, rfl⟩ : ∃ rest, after = c :: rest := by
        cases after with
        | nil => cases head
        | cons d rest => cases head; exact ⟨rest, rfl⟩
      by_contra word
      rw [Bool.not_eq_false] at word
      simp [word] at found
  · cases found

/-- A line that the lexer passes over does not close the string. -/
theorem closingLabel?_eq_none_iff (isLabel : IsLabel label) :
    closingLabel? label line = none ↔ ¬IsClosingLine label line := by
  constructor
  · rintro missing ⟨white, closes⟩
    rw [closingLabel?_of_closesAfter isLabel closes] at missing
    cases missing
  · intro no
    cases found : closingLabel? label line with
    | none => rfl
    | some n => exact absurd (isClosingLine_of_closingLabel? found) no

/-- Lines with their line ends. -/
def closedLines (lines : List Text) : Text := lines.flatMap fun line => line ++ ['\n']

/-- **The first closing line ends the string**, through its label. -/
theorem labelledEnd?_eq_some {front others : List Text} {white : Text} (isLabel : IsLabel label)
    (open_ : ∀ earlier ∈ front, ¬IsClosingLine label earlier) (closes : ClosesAfter label white line) :
    labelledEnd? label (front ++ line :: others) =
      some ((closedLines front).length + (white.length + label.length)) := by
  induction front with
  | nil => simp [labelledEnd?, closingLabel?_of_closesAfter isLabel closes, closedLines]
  | cons first front ih =>
      obtain ⟨here, there⟩ := List.forall_mem_cons.mp open_
      rw [List.cons_append, labelledEnd?, (closingLabel?_eq_none_iff isLabel).mpr here, ih there]
      simp [closedLines]
      omega

/-- **Without a closing line the string has no end.** -/
theorem labelledEnd?_eq_none_iff (isLabel : IsLabel label) {lines : List Text} :
    labelledEnd? label lines = none ↔ ∀ line ∈ lines, ¬IsClosingLine label line := by
  induction lines with
  | nil => simp [labelledEnd?]
  | cons first lines ih =>
      rw [labelledEnd?, List.forall_mem_cons, ← ih, ← closingLabel?_eq_none_iff isLabel]
      cases closingLabel? label first <;> simp

/-- Either there is a first closing line, or there is none. -/
theorem closing_cases (label : Text) (lines : List Text) :
    (∀ line ∈ lines, ¬IsClosingLine label line) ∨
      ∃ front line others white, lines = front ++ line :: others ∧
        (∀ earlier ∈ front, ¬IsClosingLine label earlier) ∧ ClosesAfter label white line := by
  induction lines with
  | nil => exact .inl (by simp)
  | cons first lines ih =>
      by_cases closes : IsClosingLine label first
      · obtain ⟨white, closes⟩ := closes
        exact .inr ⟨[], first, lines, white, rfl, by simp, closes⟩
      · rcases ih with none | ⟨front, line, others, white, rfl, open_, closes'⟩
        · exact .inl (List.forall_mem_cons.mpr ⟨closes, none⟩)
        · exact .inr ⟨first :: front, line, others, white, rfl, List.forall_mem_cons.mpr ⟨closes, open_⟩, closes'⟩

/-! ## (3) What the lexer takes for an opening line -/

/-- The extent of a quote that a label follows. -/
def labelQuote : Text → Nat
  | q :: c :: _ => if isLabelQuote q && isLabelStart c then 1 else 0
  | _ => 0

/-- The label with which a text begins; without one, the empty text. -/
def labelAt : Text → Text
  | c :: cs => if isLabelStart c then (c :: cs).takeWhile isLabelContinue else []
  | [] => []

/-- Where the label stands, as far behind `<<<` as white space and a quote reach. -/
def labelPlace (cs : Text) : Nat :=
  countWhile isLabelBlank cs + labelQuote (cs.drop (countWhile isLabelBlank cs))

/-- The label behind `<<<`. -/
def labelOf (cs : Text) : Text := labelAt (cs.drop (labelPlace cs))

/-- The extent of the error token if there is no opening line. -/
def unopened (cs : Text) : Nat := labelPlace cs + (labelOf cs).length

/-- The extent of the opening line, if there is one. -/
def opening? (cs : Text) : Option Nat :=
  if labelOf cs = [] then none else (labelLineEnd? (cs.drop (unopened cs))).map (unopened cs + ·)

/-- What begins a label can continue one. -/
theorem isLabelContinue_of_isLabelStart (start : isLabelStart c = true) : isLabelContinue c = true := by
  rcases Bool.or_eq_true_iff.mp start with underscore | letter
  · simp [isLabelContinue, underscore]
  · simp [isLabelContinue, Char.isAlphanum, letter]

/-- A text has a label if it begins as one. -/
theorem labelAt_of_start (start : isLabelStart c = true) (cs : Text) :
    labelAt (c :: cs) = c :: cs.takeWhile isLabelContinue := by
  rw [labelAt, if_pos start, List.takeWhile_cons_of_pos (isLabelContinue_of_isLabelStart start)]

/-- A quote is counted only in front of a label. -/
theorem labelQuote_eq_zero {cs : Text} (none : labelAt (cs.drop (labelQuote cs)) = []) : labelQuote cs = 0 := by
  by_contra some
  rw [labelQuote.eq_def] at some none
  split at some
  · rename_i q c rest
    split at some
    · rename_i quoted
      obtain ⟨-, start⟩ := Bool.and_eq_true_iff.mp quoted
      simp only [if_pos quoted, List.drop_succ_cons, List.drop_zero, labelAt_of_start start] at none
      cases none
    · exact some rfl
  · exact some rfl

/-- No quote is counted where the label begins. -/
theorem labelQuote_of_labelStart (start : isLabelStart c = true) (cs : Text) : labelQuote (c :: cs) = 0 := by
  have plain : isLabelQuote c = false := by
    refine Bool.eq_false_iff.mpr fun quote => ?_
    simp only [isLabelQuote, Bool.or_eq_true, beq_iff_eq] at quote
    rcases quote with rfl | rfl <;> cases start
  cases cs with
  | nil => rfl
  | cons d ds =>
      rw [labelQuote, plain, Bool.false_and]
      exact if_neg Bool.false_ne_true

/-- The token behind `<<<` when the label is expected at a place, in terms of the text there. -/
def scanLabel (blanks quote : Nat) (atLabel : Text) : Kind × Nat :=
  match atLabel with
  | [] => (.error, blanks)
  | c :: _ =>
    if isLabelStart c then
      let label := atLabel.takeWhile isLabelContinue
      let opened := blanks + quote + label.length
      let afterLabel := atLabel.drop label.length
      match labelLineEnd? afterLabel with
      | none => (.error, opened)
      | some n =>
        match labelledEnd? label ((afterLabel.drop n).splitOn '\n') with
        | none => (.error, opened + n)
        | some body => (.string, opened + n + body)
    else (.error, blanks)

/-- **How the lexer reads what follows `<<<`.** -/
theorem scanLabelled_eq (cs : Text) : scanLabelled cs =
    match opening? cs with
    | none => (.error, unopened cs)
    | some n =>
      match labelledEnd? (labelOf cs) ((cs.drop n).splitOn '\n') with
      | none => (.error, n)
      | some body => (.string, n + body) := by
  have steps : scanLabelled cs = scanLabel (countWhile isLabelBlank cs)
      (labelQuote (cs.drop (countWhile isLabelBlank cs))) (cs.drop (labelPlace cs)) := by
    rw [labelPlace, ← List.drop_drop]
    rfl
  have noQuote (none : labelOf cs = []) : labelPlace cs = countWhile isLabelBlank cs := by
    rw [labelOf, labelPlace, ← List.drop_drop] at none
    rw [labelPlace, labelQuote_eq_zero none, Nat.add_zero]
  rw [steps, opening?, unopened]
  -- Without a label there is no quote in front of it that counts, and both sides stop behind the blanks.
  cases here : cs.drop (labelPlace cs) with
  | nil =>
      have none : labelOf cs = [] := by rw [labelOf, here, labelAt]
      simp [scanLabel, none, noQuote none]
  | cons c rest =>
      by_cases start : isLabelStart c = true
      · have label : labelOf cs = (c :: rest).takeWhile isLabelContinue := by
          rw [labelOf, here, labelAt, if_pos start]
        have some : labelOf cs ≠ [] := by
          rw [labelOf, here, labelAt_of_start start]
          exact List.cons_ne_nil _ _
        rw [scanLabel, if_pos start, if_neg some, ← label, ← here]
        have place : countWhile isLabelBlank cs + labelQuote (cs.drop (countWhile isLabelBlank cs)) =
          labelPlace cs := rfl
        simp only [List.drop_drop, place]
        cases labelLineEnd? (cs.drop (labelPlace cs + (labelOf cs).length)) with
        | none => rfl
        | some n => rfl
      · have none : labelOf cs = [] := by rw [labelOf, here, labelAt, if_neg start]
        simp [scanLabel, start, none, noQuote none]

/-! ## (4) Opening lines are what the lexer takes for them -/

/-- The quotes that can stand around a label. -/
theorem isLabelQuote_iff : isLabelQuote c = true ↔ c = '"' ∨ c = '\x27' := by
  simp [isLabelQuote]

/-- A quote and a line end are read as the end of the opening line. -/
theorem labelLineEnd?_append {quote lineEnd : Text} (isQuote : IsQuote quote) (isLineEnd : IsLineEnd lineEnd)
    (rest : Text) : labelLineEnd? (quote ++ (lineEnd ++ rest)) = some (quote ++ lineEnd).length := by
  rcases isLineEnd with rfl | rfl <;> rcases isQuote with rfl | ⟨q, rfl, quote⟩
  · rfl
  · rcases isLabelQuote_iff.mp quote with rfl | rfl <;> rfl
  · rfl
  · rcases isLabelQuote_iff.mp quote with rfl | rfl <;> rfl

/-- Only a quote and a line end are. -/
theorem exists_of_labelLineEnd? {cs : Text} {n : Nat} (found : labelLineEnd? cs = some n) :
    ∃ quote lineEnd rest, cs = quote ++ (lineEnd ++ rest) ∧ n = (quote ++ lineEnd).length ∧
      IsQuote quote ∧ IsLineEnd lineEnd := by
  rw [labelLineEnd?.eq_def] at found
  split at found
  · cases found
    exact ⟨[], ['\n'], _, rfl, rfl, .inl rfl, .inl rfl⟩
  · cases found
    exact ⟨[], ['\r', '\n'], _, rfl, rfl, .inl rfl, .inr rfl⟩
  · split at found
    · cases found
      exact ⟨[_], ['\n'], _, rfl, rfl, .inr ⟨_, rfl, ‹_›⟩, .inl rfl⟩
    · cases found
  · split at found
    · cases found
      exact ⟨[_], ['\r', '\n'], _, rfl, rfl, .inr ⟨_, rfl, ‹_›⟩, .inr rfl⟩
    · cases found
  · cases found

/-- What ends an opening line does not continue the label. -/
theorem isLabelContinue_lineEnd {quote lineEnd : Text} (isQuote : IsQuote quote) (isLineEnd : IsLineEnd lineEnd)
    (rest : Text) :
    ∀ c ∈ (quote ++ (lineEnd ++ rest)).head?, isLabelContinue c = false := by
  intro c head
  rcases isQuote with rfl | ⟨q, rfl, quote⟩
  · rcases isLineEnd with rfl | rfl <;> cases head <;> rfl
  · cases head
    rcases isLabelQuote_iff.mp quote with rfl | rfl <;> rfl

variable {opening : Text}

/-- White space and a quote in front of a label are passed over. -/
theorem labelPlace_append {blanks quote : Text} (allBlank : blanks.all isLabelBlank = true) (isQuote : IsQuote quote)
    (start : isLabelStart c = true) (rest : Text) :
    labelPlace (blanks ++ (quote ++ c :: rest)) = (blanks ++ quote).length := by
  rcases isQuote with rfl | ⟨q, rfl, quote⟩
  · have stops : ∀ d ∈ ([] ++ c :: rest).head?, isLabelBlank d = false := by
      rintro d ⟨⟩
      refine Bool.eq_false_iff.mpr fun blank => ?_
      simp only [isLabelBlank, Bool.or_eq_true, beq_iff_eq] at blank
      rcases blank with rfl | rfl <;> cases start
    rw [labelPlace, countWhile_append_of_stop allBlank stops, List.drop_left, List.nil_append,
      labelQuote_of_labelStart start, List.append_nil, Nat.add_zero]
  · have stops : ∀ d ∈ ([q] ++ c :: rest).head?, isLabelBlank d = false := by
      rintro d ⟨⟩
      rcases isLabelQuote_iff.mp quote with rfl | rfl <;> rfl
    rw [labelPlace, countWhile_append_of_stop allBlank stops, List.drop_left, List.singleton_append, labelQuote,
      quote, start, Bool.true_and, if_pos rfl, List.length_append, List.length_singleton]

/-- **An opening line is found as one**, with its label, whatever follows. -/
theorem opening?_of_opens (opens : Opens label opening) (rest : Text) :
    labelOf (opening ++ rest) = label ∧ opening? (opening ++ rest) = some opening.length := by
  obtain ⟨blanks, quote, quote', lineEnd, rfl, allBlank, isQuote, isLabel, isQuote', isLineEnd⟩ := opens
  obtain ⟨c, cs, rfl, start, more⟩ := isLabel
  -- The text is cut in front of the label and behind it.
  have front : blanks ++ (quote ++ (c :: cs ++ (quote' ++ lineEnd))) ++ rest =
      blanks ++ (quote ++ c :: (cs ++ (quote' ++ (lineEnd ++ rest)))) := by simp
  have back : blanks ++ (quote ++ (c :: cs ++ (quote' ++ lineEnd))) ++ rest =
      blanks ++ quote ++ c :: cs ++ (quote' ++ (lineEnd ++ rest)) := by simp
  have place := labelPlace_append allBlank isQuote start (cs ++ (quote' ++ (lineEnd ++ rest)))
  rw [← front] at place
  have isLabel : labelOf (blanks ++ (quote ++ (c :: cs ++ (quote' ++ lineEnd))) ++ rest) = c :: cs := by
    have ends := isLabelContinue_lineEnd isQuote' isLineEnd rest
    rw [labelOf, place, front, ← List.append_assoc blanks, List.drop_left, labelAt_of_start start, ← take_countWhile,
      countWhile_append_of_stop more ends, List.take_left]
  refine ⟨isLabel, ?_⟩
  rw [opening?, unopened, isLabel, place, if_neg (List.cons_ne_nil _ _), back, ← List.length_append, List.drop_left,
    labelLineEnd?_append isQuote' isLineEnd, Option.map_some]
  simp only [List.length_append, Nat.add_assoc]

/-- In front of the place of the label stand white space and a quote, or none. -/
theorem exists_place (cs : Text) : ∃ blanks quote, blanks.all isLabelBlank = true ∧ IsQuote quote ∧
    cs = blanks ++ (quote ++ cs.drop (labelPlace cs)) ∧ (blanks ++ quote).length = labelPlace cs := by
  have cut := List.take_append_drop (countWhile isLabelBlank cs) cs
  have blanks : (cs.takeWhile isLabelBlank).length = countWhile isLabelBlank cs := rfl
  -- A quote counts only if a label begins behind it.
  obtain ⟨quote, isQuote, behind, extent⟩ : ∃ quote, IsQuote quote ∧
      cs.drop (countWhile isLabelBlank cs) = quote ++ cs.drop (labelPlace cs) ∧
      quote.length = labelQuote (cs.drop (countWhile isLabelBlank cs)) := by
    rw [labelPlace, ← List.drop_drop]
    generalize cs.drop (countWhile isLabelBlank cs) = after
    rw [labelQuote.eq_def]
    split
    · rename_i q d ds
      split
      · rename_i quoted
        exact ⟨[q], .inr ⟨q, rfl, (Bool.and_eq_true_iff.mp quoted).1⟩, rfl, rfl⟩
      · exact ⟨[], .inl rfl, rfl, rfl⟩
    · exact ⟨[], .inl rfl, rfl, rfl⟩
  refine ⟨cs.takeWhile isLabelBlank, quote, List.all_takeWhile, isQuote, ?_, ?_⟩
  · rw [← behind, ← take_countWhile, cut]
  · rw [List.length_append, blanks, extent, labelPlace]

/-- What is read as a label is one. -/
theorem labelAt_cases (cs : Text) : labelAt cs = [] ∨ IsLabel (labelAt cs) := by
  cases cs with
  | nil => exact .inl rfl
  | cons c cs =>
      by_cases start : isLabelStart c = true
      · exact .inr ⟨c, _, labelAt_of_start start cs, start, List.all_takeWhile⟩
      · exact .inl (by rw [labelAt, if_neg start])

/-- The label stands in its place. -/
theorem labelAt_append_drop (cs : Text) : labelAt cs ++ cs.drop (labelAt cs).length = cs := by
  have begins : labelAt cs <+: cs := by
    cases cs with
    | nil => exact List.nil_prefix
    | cons c cs =>
        rw [labelAt]
        split
        · exact List.takeWhile_prefix _
        · exact List.nil_prefix
  obtain ⟨rest, whole⟩ := begins
  have behind : (labelAt cs ++ rest).drop (labelAt cs).length = rest := List.drop_left
  rw [whole] at behind
  rw [behind, whole]

/-- So a text begins with white space, a quote and a label; each may be missing. -/
theorem exists_unopened (cs : Text) : ∃ blanks quote, blanks.all isLabelBlank = true ∧ IsQuote quote ∧
    cs = blanks ++ (quote ++ (labelOf cs ++ cs.drop (unopened cs))) ∧
    (blanks ++ (quote ++ labelOf cs)).length = unopened cs := by
  obtain ⟨blanks, quote, allBlank, isQuote, whole, place⟩ := exists_place cs
  refine ⟨blanks, quote, allBlank, isQuote, ?_, ?_⟩
  · rw [unopened, ← List.drop_drop, labelOf, labelAt_append_drop]
    exact whole
  · rw [← List.append_assoc, List.length_append, place, unopened]

/-- What is found as an opening line is one. -/
theorem opens_of_opening? {cs : Text} {n : Nat} (found : opening? cs = some n) :
    ∃ opening rest, cs = opening ++ rest ∧ opening.length = n ∧ Opens (labelOf cs) opening := by
  rw [opening?] at found
  split at found
  · cases found
  · rename_i some
    have isLabel : IsLabel (labelOf cs) := (labelAt_cases _).resolve_left some
    obtain ⟨k, ends, rfl⟩ := Option.map_eq_some_iff.mp found
    obtain ⟨blanks, quote, allBlank, isQuote, whole, extent⟩ := exists_unopened cs
    obtain ⟨quote', lineEnd, rest, behind, rfl, isQuote', isLineEnd⟩ := exists_of_labelLineEnd? ends
    rw [behind] at whole
    refine ⟨blanks ++ (quote ++ (labelOf cs ++ (quote' ++ lineEnd))), rest, ?_, ?_,
      blanks, quote, quote', lineEnd, rfl, allBlank, isQuote, isLabel, isQuote', isLineEnd⟩
    · exact whole.trans (by simp only [List.append_assoc])
    · rw [← extent]
      simp only [List.length_append, Nat.add_assoc]

/-! ## (5) The token that an opening line begins -/

/-- A text is one line, or its first line ends at a line feed. -/
theorem lines_cases (body : Text) : ('\n' ∉ body ∧ body.splitOn '\n' = [body]) ∨
    ∃ first rest, body = first ++ '\n' :: rest ∧ '\n' ∉ first ∧ body.splitOn '\n' = first :: rest.splitOn '\n' := by
  by_cases mem : '\n' ∈ body
  · obtain ⟨first, rest, rfl, apart⟩ := List.eq_append_cons_of_mem mem
    exact .inr ⟨first, rest, rfl, apart, List.splitOn_append_cons_self_of_not_mem apart rest⟩
  · exact .inl ⟨mem, List.splitOn_eq_singleton mem⟩

/-- A text of which the first lines are known. -/
theorem exists_of_splitOn_lines {body : Text} {front others : List Text}
    (lines : body.splitOn '\n' = front ++ line :: others) :
    (∀ known ∈ front ++ [line], '\n' ∉ known) ∧
      ∃ behind, body = closedLines front ++ (line ++ behind) ∧ ∀ c ∈ behind.head?, c = '\n' := by
  -- The known lines are taken off the text from the first one on.
  induction front generalizing body with
  | nil =>
      rcases lines_cases body with ⟨apart, single⟩ | ⟨first, rest, rfl, apart, more⟩
      · rw [single] at lines
        obtain ⟨rfl, -⟩ := List.cons.inj lines
        refine ⟨by simpa using apart, [], by simp [closedLines], ?_⟩
        rintro c ⟨⟩
      · rw [more] at lines
        obtain ⟨rfl, -⟩ := List.cons.inj lines
        refine ⟨by simpa using apart, '\n' :: rest, rfl, ?_⟩
        rintro c ⟨⟩
        rfl
  | cons known front ih =>
      rcases lines_cases body with ⟨-, single⟩ | ⟨first, rest, rfl, apart, more⟩
      · rw [single] at lines
        simp at lines
      · rw [more] at lines
        obtain ⟨rfl, rest⟩ := List.cons.inj lines
        obtain ⟨inside, behind, rfl, stops⟩ := ih rest
        refine ⟨List.forall_mem_cons.mpr ⟨apart, inside⟩, behind, ?_, stops⟩
        simp [closedLines]

/-- Lines followed by line feeds are lines of the text. -/
theorem splitOn_lines {front : List Text} {behind : Text} (apart : ∀ known ∈ front ++ [line], '\n' ∉ known)
    (stops : ∀ c ∈ behind.head?, c = '\n') :
    ∃ others, (closedLines front ++ (line ++ behind)).splitOn '\n' = front ++ line :: others := by
  induction front with
  | nil =>
      have apart : '\n' ∉ line := apart line (by simp)
      cases behind with
      | nil => exact ⟨[], by simp [closedLines, List.splitOn_eq_singleton apart]⟩
      | cons c rest =>
          obtain rfl := stops c rfl
          exact ⟨rest.splitOn '\n', List.splitOn_append_cons_self_of_not_mem apart rest⟩
  | cons known front ih =>
      obtain ⟨here, there⟩ := List.forall_mem_cons.mp apart
      obtain ⟨others, lines⟩ := ih there
      refine ⟨others, ?_⟩
      have cut : closedLines (known :: front) ++ (line ++ behind) =
          known ++ '\n' :: (closedLines front ++ (line ++ behind)) := by simp [closedLines]
      rw [cut, List.splitOn_append_cons_self_of_not_mem here, lines]
      rfl

/-- `EndsLabel rest`: what follows a label does not make a longer word of it. -/
def EndsLabel (rest : Text) : Prop := ∀ c ∈ rest.head?, (isLetterOrNumber c || c == '_') = false

/-- `ClosingAt label front white`: a string with the label consists of these lines and ends behind this white space. -/
structure ClosingAt (label : Text) (front : List Text) (white : Text) : Prop where
  /-- The lines are lines. -/
  apart : ∀ known ∈ front, '\n' ∉ known
  /-- So are the white space and the label. -/
  inLine : '\n' ∉ white ++ label
  /-- No line closes the string earlier. -/
  open_ : ∀ earlier ∈ front, ¬IsClosingLine label earlier
  /-- Nothing else stands in front of the label. -/
  blank : white.all isBlank = true

/-- The first closing line cuts a text behind its label. -/
theorem exists_closing {body white : Text} {front others : List Text}
    (lines : body.splitOn '\n' = front ++ line :: others) (open_ : ∀ earlier ∈ front, ¬IsClosingLine label earlier)
    (closes : ClosesAfter label white line) :
    ∃ rest, body = closedLines front ++ (white ++ label) ++ rest ∧ ClosingAt label front white ∧ EndsLabel rest := by
  obtain ⟨apart, behind, rfl, stops⟩ := exists_of_splitOn_lines lines
  obtain ⟨after, rfl, blank, ends⟩ := closes
  have inLine := apart _ (List.mem_append_right _ List.mem_cons_self)
  rw [← List.append_assoc, List.mem_append, not_or] at inLine
  refine ⟨after ++ behind, by simp only [List.append_assoc],
    ⟨fun known mem => apart known (List.mem_append_left _ mem), inLine.1, open_, blank⟩, ?_⟩
  intro c head
  cases after with
  | nil =>
      rw [stops c head]
      decide
  | cons d after => exact ends c head

/-- A text that is cut in this way has a first closing line. -/
theorem ClosingAt.exists_lines {front : List Text} {white rest : Text} (closing : ClosingAt label front white)
    (ends : EndsLabel rest) : ∃ line others,
      (closedLines front ++ (white ++ label) ++ rest).splitOn '\n' = front ++ line :: others ∧
        ClosesAfter label white line := by
  obtain ⟨after, behind, rfl, inAfter, sameHead, stops⟩ : ∃ after behind, rest = after ++ behind ∧ '\n' ∉ after ∧
      (∀ c ∈ after.head?, c ∈ rest.head?) ∧ ∀ c ∈ behind.head?, c = '\n' := by
    rcases lines_cases rest with ⟨apart, -⟩ | ⟨after, others, rfl, apart, -⟩
    · refine ⟨rest, [], (List.append_nil rest).symm, apart, fun c head => head, ?_⟩
      rintro c ⟨⟩
    · refine ⟨after, '\n' :: others, rfl, apart, fun c head => ?_, ?_⟩
      · cases after with
        | nil => cases head
        | cons d after => exact head
      · rintro c ⟨⟩
        rfl
  -- The line that closes the string goes on to the next line break, or to the end of the text.
  have apart : ∀ known ∈ front ++ [white ++ label ++ after], '\n' ∉ known := by
    intro known mem
    rcases List.mem_append.mp mem with inFront | last
    · exact closing.apart known inFront
    · rw [List.mem_singleton.mp last, List.mem_append, not_or]
      exact ⟨closing.inLine, inAfter⟩
  obtain ⟨others, lines⟩ := splitOn_lines apart stops
  refine ⟨white ++ label ++ after, others, ?_, after, List.append_assoc _ _ _, closing.blank,
    fun c head => ends c (sameHead c head)⟩
  rw [← lines]
  simp only [List.append_assoc]

section Extent

variable {body : Text} (opens : Opens label opening)
include opens

/-- A label has the form of one. -/
theorem Opens.isLabel : IsLabel label := by
  obtain ⟨-, -, -, -, -, -, -, isLabel, -, -⟩ := opens
  exact isLabel

/-- **The string lasts through the label in the first line that closes it.** -/
theorem scanLabelled_of_closed {front others : List Text} {white : Text}
    (lines : body.splitOn '\n' = front ++ line :: others) (open_ : ∀ earlier ∈ front, ¬IsClosingLine label earlier)
    (closes : ClosesAfter label white line) :
    scanLabelled (opening ++ body) = (.string, (opening ++ (closedLines front ++ (white ++ label))).length) := by
  obtain ⟨isLabel, found⟩ := opening?_of_opens opens body
  rw [scanLabelled_eq, isLabel, found]
  simp only [List.drop_left, lines, labelledEnd?_eq_some opens.isLabel open_ closes, List.length_append]

/-- **Without such a line the opening line is an error.** -/
theorem scanLabelled_of_unclosed (open_ : ∀ line ∈ body.splitOn '\n', ¬IsClosingLine label line) :
    scanLabelled (opening ++ body) = (.error, opening.length) := by
  obtain ⟨isLabel, found⟩ := opening?_of_opens opens body
  rw [scanLabelled_eq, isLabel, found]
  simp only [List.drop_left, (labelledEnd?_eq_none_iff opens.isLabel).mpr open_]

end Extent

/-- The text of the string: the opening line, the lines in front of the closing one, and the label there. -/
theorem take_of_closed (opening : Text) {body white : Text} {front others : List Text}
    (lines : body.splitOn '\n' = front ++ line :: others) (open_ : ∀ earlier ∈ front, ¬IsClosingLine label earlier)
    (closes : ClosesAfter label white line) :
    (opening ++ body).take (opening ++ (closedLines front ++ (white ++ label))).length =
      opening ++ (closedLines front ++ (white ++ label)) := by
  obtain ⟨rest, rfl, -, -⟩ := exists_closing lines open_ closes
  rw [← List.append_assoc opening _ rest, List.take_left]

/-- A text after which there is no opening line. -/
theorem scanLabelled_of_unopened {cs : Text} (none : opening? cs = none) : scanLabelled cs = (.error, unopened cs) := by
  rw [scanLabelled_eq, none]

end PhpMembers
