import PhpMembers.Proofs.Syntax.LabelledStrings

/-! # Tokens tile the source

Each token takes up a part of the text that is not empty, the next one starts behind it, and none reaches beyond the
end. What no token begins with, an unfinished string or comment and the opening line of a string that is never closed
are tokens of their own, so nothing of a damaged text is lost.

* `Complete` : tokens that are no damage.
* `IsDamage` : what an error token consists of.
* `Placed`, `scan_placed` : how far a token reaches.
* `ExtendsName`, `EndsAtLabel` : the extents that need to look at more than one character.
* `tokenize_tiles` : the tokens of any text. -/

namespace PhpMembers

variable {c : Char} {cs : Text}

/-! ## (1) Tokens that are no damage -/

/-- `Complete found cs`: the token is no damage, and it lies within the text. -/
def Complete (found : Kind × Nat) (cs : Text) : Prop := found.1 ≠ .error ∧ found.2 ≤ cs.length

theorem countWhile_le (p : Char → Bool) (cs : Text) : countWhile p cs ≤ cs.length :=
  (List.takeWhile_sublist p).length_le

theorem scanHash_complete (cs : Text) : Complete (scanHash cs) cs := by
  unfold scanHash
  split
  · exact ⟨Kind.noConfusion, by simp⟩
  · exact ⟨Kind.noConfusion, countWhile_le _ _⟩

theorem scanGreater_complete (cs : Text) : Complete (scanGreater cs) cs := by
  unfold scanGreater
  split <;> exact ⟨Kind.noConfusion, by simp⟩

theorem scanQuestion_complete (cs : Text) : Complete (scanQuestion cs) cs := by
  unfold scanQuestion
  split <;> exact ⟨Kind.noConfusion, by simp⟩

theorem scanEqual_complete (cs : Text) : Complete (scanEqual cs) cs := by
  unfold scanEqual
  split <;> exact ⟨Kind.noConfusion, by simp⟩

theorem scanBang_complete (cs : Text) : Complete (scanBang cs) cs := by
  unfold scanBang
  split <;> exact ⟨Kind.noConfusion, by simp⟩

theorem scanStar_complete (cs : Text) : Complete (scanStar cs) cs := by
  unfold scanStar
  split <;> exact ⟨Kind.noConfusion, by simp⟩

theorem scanMinus_complete (cs : Text) : Complete (scanMinus cs) cs := by
  unfold scanMinus
  split <;> exact ⟨Kind.noConfusion, by simp⟩

theorem scanColon_complete (cs : Text) : Complete (scanColon cs) cs := by
  unfold scanColon
  split <;> exact ⟨Kind.noConfusion, by simp⟩

theorem scanDoubled_complete (c : Char) {single double : Kind} (known : single ≠ .error) (known' : double ≠ .error)
    (cs : Text) : Complete (scanDoubled c single double cs) cs := by
  unfold scanDoubled
  split
  · split
    · exact ⟨known', by simp⟩
    · split
      · exact ⟨Kind.noConfusion, by simp⟩
      · exact ⟨known, by simp⟩
  · exact ⟨known, by simp⟩

theorem scanAssigning_complete {single : Kind} (known : single ≠ .error) (cs : Text) :
    Complete (scanAssigning single cs) cs := by
  unfold scanAssigning
  split
  · exact ⟨Kind.noConfusion, by simp⟩
  · exact ⟨known, by simp⟩

theorem scanVariable_complete (cs : Text) : Complete (scanVariable cs) cs := by
  unfold scanVariable
  split
  · rename_i c cs
    split
    · refine ⟨Kind.noConfusion, ?_⟩
      have within := countWhile_le isNameContinue cs
      simp only [List.length_cons]
      omega
    · exact ⟨Kind.noConfusion, by simp⟩
  · exact ⟨Kind.noConfusion, by simp⟩

/-- A name lies within the text. -/
theorem scanName_complete (start : isNameStart c = true) (cs : Text) : Complete (scanName c cs) cs := by
  obtain ⟨first, more, rest, rfl, word, words, ends⟩ := exists_segments start cs
  rw [scanName_eq word words ends]
  constructor
  · split
    · cases found : keyword? (c :: first) with
      | none => exact Kind.noConfusion
      | some kind =>
          rintro (rfl : kind = .error)
          cases isKeyword_of_keyword? found
    · exact Kind.noConfusion
  · simp only [List.length_append]
    omega

theorem scanRooted_complete (cs : Text) : Complete (scanRooted cs) cs := by
  cases cs with
  | nil => exact ⟨Kind.noConfusion, Nat.le_refl _⟩
  | cons c cs =>
      by_cases start : isNameStart c = true
      · obtain ⟨first, more, rest, rfl, word, words, ends⟩ := exists_segments start cs
        rw [scanRooted_eq word words ends]
        refine ⟨Kind.noConfusion, ?_⟩
        simp only [List.length_append, List.length_cons]
        omega
      · rw [scanRooted, if_neg start]
        exact ⟨Kind.noConfusion, Nat.zero_le _⟩

/-- An exponent lies within the text. -/
theorem exponent_le (cs : Text) : exponent cs ≤ cs.length := by
  unfold exponent
  split
  · rename_i e rest
    split
    · cases rest with
      | nil => exact Nat.zero_le _
      | cons c rest =>
          have digits := countWhile_le isDigit (c :: rest)
          have further := countWhile_le isDigit rest
          simp only [List.length_cons] at digits ⊢
          by_cases sign : (c == '+' || c == '-') = true
          · simp only [if_pos sign, List.drop_succ_cons, List.drop_zero]
            split <;> omega
          · simp only [if_neg sign, List.drop_zero]
            split <;> omega
    · exact Nat.zero_le _
  · exact Nat.zero_le _

theorem add_exponent_drop_le {n : Nat} (within : n ≤ cs.length) : n + exponent (cs.drop n) ≤ cs.length := by
  have rest := exponent_le (cs.drop n)
  rw [List.length_drop] at rest
  omega

/-- An integer lies within the text. -/
theorem integerLength_le (c : Char) (cs : Text) : integerLength c cs ≤ cs.length := by
  unfold integerLength
  split
  · rename_i x ds
    have decimal := countWhile_le (fun d => isDigit d || d == '_') (x :: ds)
    have hex := countWhile_le isHexDigit ds
    have binary := countWhile_le isBinaryDigit ds
    simp only [List.length_cons] at decimal ⊢
    split <;> split <;> first | omega | (split <;> omega)
  · exact countWhile_le _ _

/-- Decimal places and an exponent lie within the text. -/
theorem places_le (cs : Text) : countWhile isDigit cs + exponent (cs.drop (countWhile isDigit cs)) ≤ cs.length :=
  add_exponent_drop_le (countWhile_le _ _)

theorem scanNumber_complete (c : Char) (cs : Text) : Complete (scanNumber c cs) cs := by
  have whole := countWhile_le isDigit cs
  have rest : (cs.drop (countWhile isDigit cs)).length = cs.length - countWhile isDigit cs := List.length_drop
  unfold scanNumber
  simp only
  split
  · rename_i digits behind
    refine ⟨Kind.noConfusion, ?_⟩
    have places := places_le digits
    rw [behind, List.length_cons] at rest
    simp only
    omega
  · split
    · exact ⟨Kind.noConfusion, integerLength_le c cs⟩
    · exact ⟨Kind.noConfusion, add_exponent_drop_le whole⟩

theorem scanPoint_complete (cs : Text) : Complete (scanPoint cs) cs := by
  unfold scanPoint
  split
  · exact ⟨Kind.noConfusion, by simp⟩
  · exact ⟨Kind.noConfusion, by simp⟩
  · simp only
    split
    · exact ⟨Kind.noConfusion, Nat.zero_le _⟩
    · exact ⟨Kind.noConfusion, places_le _⟩

/-! ## (2) Damage -/

/-- `StringBody quote body`: the quote does not occur in the body unless a backslash stands in front of it. -/
inductive StringBody (quote : Char) : Text → Prop
  | nil : StringBody quote []
  | plain {c : Char} {cs : Text} : c ≠ quote → c ≠ '\\' → StringBody quote cs → StringBody quote (c :: cs)
  | escaped {c : Char} {cs : Text} : StringBody quote cs → StringBody quote ('\\' :: c :: cs)

/-- The marks with which tokens begin. -/
def marks : List Char :=
  ['/', '#', '<', '>', '?', '=', '!', '*', '-', '.', ':', '+', '&', '|', '%', '^', '\\', '$', '"', '\x27', '\x60',
    '\x7b', '\x7d', '[', ']', '(', ')', ';', ',', '@', '~']

/-- `IsDamage text rest`: an error token may consist of this text in front of the rest. -/
inductive IsDamage : Text → Text → Prop
  /-- A character with which no token begins. -/
  | stray {c : Char} {rest : Text} : c ∉ marks → isSpace c = false → isDigit c = false → isNameStart c = false →
      IsDamage [c] rest
  /-- A string that is not closed. A backslash at the very end of the text does not belong to it. -/
  | string {quote : Char} {body rest : Text} : quote = '"' ∨ quote = '\x27' → StringBody quote body →
      rest = [] ∨ rest = ['\\'] → IsDamage (quote :: body) rest
  /-- A shell string that is not closed. -/
  | shellString {body : Text} : '\x60' ∉ body → IsDamage ('\x60' :: body) []
  /-- A block comment that is not closed. -/
  | comment {body : Text} : (∀ front behind, body ≠ front ++ '*' :: '/' :: behind) → IsDamage ('/' :: '*' :: body) []
  /-- The opening line of a string that is not closed. -/
  | unclosed {label opening rest : Text} : Opens label opening → IsDamage ('<' :: '<' :: '<' :: opening) rest
  /-- The beginning of such a line, as far as it goes: white space, a quote and a label. -/
  | unopened {blanks quote label rest : Text} : blanks.all isLabelBlank = true → IsQuote quote →
      label = [] ∨ IsLabel label → IsDamage ('<' :: '<' :: '<' :: (blanks ++ (quote ++ label))) rest

/-- `Placed c found cs`: the token lies within the text, and if it is an error it is damage. -/
def Placed (c : Char) (found : Kind × Nat) (cs : Text) : Prop :=
  found.2 ≤ cs.length ∧ (found.1 = .error → IsDamage (c :: cs.take found.2) (cs.drop found.2))

theorem Complete.placed {found : Kind × Nat} (complete : Complete found cs) : Placed c found cs :=
  ⟨complete.2, fun isError => absurd isError complete.1⟩

/-- A character that is no backslash ends the string or is passed over. -/
theorem stringEnd_of_ne (quote : Char) (plain : c ≠ '\\') (cs : Text) :
    stringEnd quote (c :: cs) = if c = quote then .closed 1 else (stringEnd quote cs).later 1 := by
  rw [stringEnd]
  · exact fun backslash _ => plain backslash
  · exact fun _ _ backslash _ => plain backslash

/-- A backslash stands in front of another character or at the end. -/
theorem ne_backslash (notEnd : c = '\\' → cs = [] → False) (notEscape : ∀ d ds, c = '\\' → cs = d :: ds → False) :
    c ≠ '\\' := by
  intro backslash
  cases cs with
  | nil => exact notEnd backslash rfl
  | cons d ds => exact notEscape d ds backslash rfl

/-- A quoted string ends at a quote, or it reaches to the end of the text. -/
theorem stringEnd_cases (quote : Char) (cs : Text) :
    (∃ n, stringEnd quote cs = .closed n ∧ n ≤ cs.length) ∨
      ∃ body rest, stringEnd quote cs = .unclosed body.length ∧ cs = body ++ rest ∧ StringBody quote body ∧
        (rest = [] ∨ rest = ['\\']) := by
  -- An escaped character never ends the string, so the text is read in steps of one or two.
  induction cs using stringEnd.induct quote with
  | case1 => exact .inr ⟨[], [], rfl, rfl, .nil, .inl rfl⟩
  | case2 => exact .inr ⟨[], ['\\'], rfl, rfl, .nil, .inr rfl⟩
  | case3 c cs ih =>
      rcases ih with ⟨n, closed, within⟩ | ⟨body, rest, open_, rfl, isBody, toEnd⟩
      · refine .inl ⟨n + 2, by rw [stringEnd, closed]; rfl, ?_⟩
        simp only [List.length_cons]
        omega
      · exact .inr ⟨'\\' :: c :: body, rest, by rw [stringEnd, open_]; rfl, rfl, .escaped isBody, toEnd⟩
  | case4 cs notEnd notEscape =>
      exact .inl ⟨1, by rw [stringEnd_of_ne _ (ne_backslash notEnd notEscape), if_pos rfl], by simp⟩
  | case5 c cs notEnd notEscape other ih =>
      have plain := ne_backslash notEnd notEscape
      have later := stringEnd_of_ne quote plain cs
      rw [if_neg other] at later
      rcases ih with ⟨n, closed, within⟩ | ⟨body, rest, open_, rfl, isBody, toEnd⟩
      · refine .inl ⟨n + 1, by rw [later, closed]; rfl, ?_⟩
        simp only [List.length_cons]
        omega
      · exact .inr ⟨c :: body, rest, by rw [later, open_]; rfl, rfl, .plain other plain isBody, toEnd⟩

theorem stringEnd_placed (isQuote : c = '"' ∨ c = '\x27') (cs : Text) : Placed c (stringEnd c cs).token cs := by
  rcases stringEnd_cases c cs with ⟨n, closed, within⟩ | ⟨body, rest, open_, rfl, isBody, toEnd⟩
  · rw [closed]
    exact ⟨within, Kind.noConfusion⟩
  · rw [open_]
    refine ⟨by simp [StringEnd.token], fun _ => ?_⟩
    rw [StringEnd.token, List.take_left, List.drop_left]
    exact .string isQuote isBody toEnd

theorem shellStringEnd_placed (cs : Text) : Placed '\x60' (shellStringEnd cs).token cs := by
  have within := countWhile_le (· != '\x60') cs
  unfold shellStringEnd
  simp only
  split
  · exact ⟨by assumption, Kind.noConfusion⟩
  · rename_i notBefore
    have all : countWhile (· != '\x60') cs = cs.length := by omega
    rw [all]
    refine ⟨Nat.le_refl _, fun _ => ?_⟩
    rw [StringEnd.token, List.take_length, List.drop_length]
    refine .shellString fun mem => ?_
    have whole : cs.takeWhile (· != '\x60') = cs := by
      rw [← take_countWhile, all, List.take_length]
    rw [← whole] at mem
    simpa using List.mem_takeWhile_imp mem

/-- A block comment ends at its first `*/`, or there is none. -/
theorem commentEnd?_cases (cs : Text) :
    (∃ n, commentEnd? cs = some n ∧ n ≤ cs.length) ∨
      (commentEnd? cs = none ∧ ∀ front behind, cs ≠ front ++ '*' :: '/' :: behind) := by
  induction cs using commentEnd?.induct with
  | case1 cs => exact .inl ⟨2, rfl, by simp⟩
  | case2 c cs notEnd ih =>
      have later : commentEnd? (c :: cs) = (commentEnd? cs).map (· + 1) := by
        rw [commentEnd?]
        exact notEnd
      rcases ih with ⟨n, closed, within⟩ | ⟨open_, apart⟩
      · refine .inl ⟨n + 1, by rw [later, closed]; rfl, ?_⟩
        simp only [List.length_cons]
        omega
      · refine .inr ⟨by rw [later, open_]; rfl, fun front behind same => ?_⟩
        cases front with
        | nil =>
            obtain ⟨rfl, rfl⟩ := List.cons.inj same
            exact notEnd behind rfl rfl
        | cons d front => exact apart front behind (List.cons.inj same).2
  | case3 => exact .inr ⟨rfl, by simp⟩

theorem commentKind_ne_error (cs : Text) : commentKind cs ≠ .error := by
  unfold commentKind
  split <;> exact Kind.noConfusion

theorem scanSlash_placed (cs : Text) : Placed '/' (scanSlash cs) cs := by
  unfold scanSlash
  split
  · rename_i cs
    have within := countWhile_le (· != '\n') cs
    refine ⟨?_, Kind.noConfusion⟩
    simp only [List.length_cons]
    omega
  · rename_i cs
    rcases commentEnd?_cases cs with ⟨n, closed, within⟩ | ⟨open_, apart⟩
    · rw [closed]
      refine ⟨?_, fun isError => absurd isError (commentKind_ne_error cs)⟩
      simp only [List.length_cons]
      omega
    · rw [open_]
      have extent : 1 + cs.length = ('*' :: cs).length := by
        rw [List.length_cons, Nat.add_comm]
      refine ⟨by rw [extent], fun _ => ?_⟩
      simp only [extent, List.take_length, List.drop_length]
      exact .comment apart
  · exact ⟨by simp, Kind.noConfusion⟩
  · exact ⟨Nat.zero_le _, Kind.noConfusion⟩

/-- A labelled string lies within the text, and what is none is an opening line or the beginning of one. -/
theorem scanLabelled_placed (cs : Text) :
    Placed '<' ((scanLabelled cs).1, 2 + (scanLabelled cs).2) ('<' :: '<' :: cs) := by
  have shifted (n : Nat) : ('<' :: '<' :: cs).take (2 + n) = '<' :: '<' :: cs.take n ∧
      ('<' :: '<' :: cs).drop (2 + n) = cs.drop n := by
    rw [Nat.add_comm]
    exact ⟨rfl, rfl⟩
  suffices placed : (scanLabelled cs).2 ≤ cs.length ∧ ((scanLabelled cs).1 = .error →
      IsDamage ('<' :: '<' :: '<' :: cs.take (scanLabelled cs).2) (cs.drop (scanLabelled cs).2)) by
    refine ⟨?_, fun isError => ?_⟩
    · have within := placed.1
      simp only [List.length_cons]
      omega
    · simp only [(shifted _).1, (shifted _).2]
      exact placed.2 isError
  -- There may be no opening line, or no closing one; otherwise the string ends behind its label.
  cases found : opening? cs with
  | none =>
      obtain ⟨blanks, quote, allBlank, isQuote, whole, extent⟩ := exists_unopened cs
      have isLabel : labelOf cs = [] ∨ IsLabel (labelOf cs) := labelAt_cases _
      rw [scanLabelled_of_unopened found, ← extent]
      generalize cs.drop (unopened cs) = rest at whole
      generalize labelOf cs = label at whole isLabel
      have cut : cs = blanks ++ (quote ++ label) ++ rest := by
        rw [whole]
        simp only [List.append_assoc]
      rw [cut]
      refine ⟨by simp, fun _ => ?_⟩
      rw [List.take_left, List.drop_left]
      exact .unopened allBlank isQuote isLabel
  | some n =>
      obtain ⟨opening, body, rfl, rfl, opens⟩ := opens_of_opening? found
      rcases closing_cases (labelOf (opening ++ body)) (body.splitOn '\n') with
        open_ | ⟨front, line, others, white, lines, open_, closes⟩
      · rw [scanLabelled_of_unclosed opens open_]
        refine ⟨by simp, fun _ => ?_⟩
        rw [List.take_left, List.drop_left]
        exact .unclosed opens
      · have taken := take_of_closed opening lines open_ closes
        rw [scanLabelled_of_closed opens lines open_ closes]
        refine ⟨?_, Kind.noConfusion⟩
        rw [← taken]
        exact List.length_take_le' _ _

theorem scanLess_placed (cs : Text) : Placed '<' (scanLess cs) cs := by
  unfold scanLess
  split
  · exact ⟨by simp, Kind.noConfusion⟩
  · split
    · exact ⟨by simp, Kind.noConfusion⟩
    · exact ⟨Nat.zero_le _, Kind.noConfusion⟩
  · exact scanLabelled_placed _
  all_goals exact ⟨by simp, Kind.noConfusion⟩

/-- **No token reaches beyond the text, and what is an error token is damage.** -/
theorem scan_placed (c : Char) (cs : Text) : Placed c (scan c cs) cs := by
  -- One case for each character with which a token can begin, then spaces, numbers and names.
  unfold scan
  split
  · exact scanSlash_placed cs
  · exact (scanHash_complete cs).placed
  · exact scanLess_placed cs
  · exact (scanGreater_complete cs).placed
  · exact (scanQuestion_complete cs).placed
  · exact (scanEqual_complete cs).placed
  · exact (scanBang_complete cs).placed
  · exact (scanStar_complete cs).placed
  · exact (scanMinus_complete cs).placed
  · exact (scanPoint_complete cs).placed
  · exact (scanColon_complete cs).placed
  · exact (scanDoubled_complete '+' Kind.noConfusion Kind.noConfusion cs).placed
  · exact (scanDoubled_complete '&' Kind.noConfusion Kind.noConfusion cs).placed
  · exact (scanDoubled_complete '|' Kind.noConfusion Kind.noConfusion cs).placed
  · exact (scanAssigning_complete Kind.noConfusion cs).placed
  · exact (scanAssigning_complete Kind.noConfusion cs).placed
  · exact (scanRooted_complete cs).placed
  · exact (scanVariable_complete cs).placed
  · exact stringEnd_placed (.inl rfl) cs
  · exact stringEnd_placed (.inr rfl) cs
  · exact shellStringEnd_placed cs
  iterate 10 exact ⟨Nat.zero_le _, Kind.noConfusion⟩
  · split
    · exact ⟨countWhile_le _ _, Kind.noConfusion⟩
    · rename_i notSpace
      split
      · exact (scanNumber_complete c cs).placed
      · rename_i notDigit
        split
        · rename_i start
          exact (scanName_complete start cs).placed
        · rename_i notName
          have noMark : c ∉ marks := by
            simp only [marks, List.mem_cons, List.not_mem_nil, or_false, not_or]
            and_intros <;> assumption
          exact ⟨Nat.zero_le _, fun _ => .stray noMark (Bool.not_eq_true _ ▸ notSpace) (Bool.not_eq_true _ ▸ notDigit)
            (Bool.not_eq_true _ ▸ notName)⟩

/-! ## (3) The tokens of a text -/

/-- Each token is found where the ones in front of it end, and the ones behind it cover the rest. -/
theorem tokenizeFrom_append {offset : Nat} {source : Text} {before after : List Token} {t : Token}
    (tokens : tokenizeFrom offset source = before ++ t :: after) :
    ∃ c cs, source = before.flatMap Token.text ++ c :: cs ∧
      t = ⟨(scan c cs).1, c :: cs.take (scan c cs).2, offset + utf8Length (before.flatMap Token.text)⟩ ∧
      after.flatMap Token.text = cs.drop (scan c cs).2 := by
  -- The tokens in front are cut off one by one, with their texts.
  induction before generalizing offset source with
  | nil =>
      cases source with
      | nil =>
          rw [tokenizeFrom] at tokens
          cases tokens
      | cons c cs =>
          rw [tokenizeFrom] at tokens
          obtain ⟨rfl, rfl⟩ := List.cons.inj tokens
          exact ⟨c, cs, rfl, rfl, tokenizeFrom_texts _ _⟩
  | cons first before ih =>
      cases source with
      | nil =>
          rw [tokenizeFrom] at tokens
          cases tokens
      | cons d ds =>
          rw [tokenizeFrom] at tokens
          obtain ⟨rfl, others⟩ := List.cons.inj tokens
          obtain ⟨c, cs, rest, rfl, behind⟩ := ih others
          refine ⟨c, cs, ?_, ?_, behind⟩
          · rw [List.flatMap_cons, List.append_assoc, ← rest, List.cons_append, List.take_append_drop]
          · rw [List.flatMap_cons, utf8Length_append, ← Nat.add_assoc]

/-- `ExtendsName t rest`: if the token begins as a name, perhaps with a separator in front, it takes all segments of
the name, and its kind tells whether there are several. -/
def ExtendsName (t : Token) (rest : Text) : Prop :=
  ∀ root c cs, root = [] ∨ root = ['\\'] → isNameStart c = true → t.text ++ rest = root ++ c :: cs →
    ∃ first more, isWord first = true ∧ (∀ piece ∈ more, isWord piece = true) ∧
      t.text = root ++ (first ++ separated more) ∧ EndsName rest ∧
      t.kind = if root = [] ∧ more = [] then (keyword? first).getD .ident else .qualifiedName

/-- `EndsAtLabel t rest`: if the token begins with the opening line of a labelled string, it lasts through the label in
the first line that closes the string; if there is none, it is an error token that consists of the opening line. -/
def EndsAtLabel (t : Token) (rest : Text) : Prop :=
  ∀ label opening body, Opens label opening → t.text ++ rest = '<' :: '<' :: '<' :: (opening ++ body) →
    (∃ front line others white, body.splitOn '\n' = front ++ line :: others ∧
      (∀ earlier ∈ front, ¬IsClosingLine label earlier) ∧ ClosesAfter label white line ∧
      t.kind = .string ∧ t.text = '<' :: '<' :: '<' :: (opening ++ (closedLines front ++ (white ++ label)))) ∨
    ((∀ line ∈ body.splitOn '\n', ¬IsClosingLine label line) ∧
      t.kind = .error ∧ t.text = '<' :: '<' :: '<' :: opening)

/-- The token that is found at a place of the text. -/
def foundAt (start : Nat) (c : Char) (cs : Text) : Token := ⟨(scan c cs).1, c :: cs.take (scan c cs).2, start⟩

/-- A token and what is left over behind it are the text. -/
theorem foundAt_text_append (start : Nat) (c : Char) (cs : Text) :
    (foundAt start c cs).text ++ cs.drop (scan c cs).2 = c :: cs := by
  rw [foundAt, List.cons_append, List.take_append_drop]

theorem extendsName_foundAt (start : Nat) (c : Char) (cs : Text) :
    ExtendsName (foundAt start c cs) (cs.drop (scan c cs).2) := by
  rintro root d ds (rfl | rfl) isStart whole
  · -- A name that stands alone.
    rw [foundAt_text_append] at whole
    obtain ⟨rfl, rfl⟩ := List.cons.inj whole
    obtain ⟨first, more, rest, rfl, word, words, ends⟩ := exists_segments isStart cs
    have found := (scan_of_isNameStart isStart (first ++ (separated more ++ rest))).trans (scanName_eq word words ends)
    rw [← List.append_assoc] at found ⊢
    refine ⟨c :: first, more, word, words, ?_, ?_, ?_⟩
    · rw [foundAt, found, List.take_left]
      rfl
    · rw [found, List.drop_left]
      exact ends
    · rw [foundAt, found]
      simp
  · -- A name behind a separator.
    rw [foundAt_text_append, List.singleton_append] at whole
    obtain ⟨rfl, rfl⟩ := List.cons.inj whole
    obtain ⟨first, more, rest, rfl, word, words, ends⟩ := exists_segments isStart ds
    have found : scan '\\' (d :: (first ++ (separated more ++ rest))) = _ := scanRooted_eq word words ends
    rw [← List.append_assoc, Nat.add_comm] at found
    rw [← List.append_assoc]
    refine ⟨d :: first, more, word, words, ?_, ?_, ?_⟩
    · rw [foundAt, found, List.take_succ_cons, List.take_left]
      rfl
    · rw [found, List.drop_succ_cons, List.drop_left]
      exact ends
    · rw [foundAt, found]
      simp

theorem endsAtLabel_foundAt (start : Nat) (c : Char) (cs : Text) :
    EndsAtLabel (foundAt start c cs) (cs.drop (scan c cs).2) := by
  intro label opening body opens whole
  rw [foundAt_text_append] at whole
  obtain ⟨rfl, rfl⟩ := List.cons.inj whole
  have found : scan '<' ('<' :: '<' :: (opening ++ body)) =
    ((scanLabelled (opening ++ body)).1, 2 + (scanLabelled (opening ++ body)).2) := rfl
  have taken (n : Nat) : ('<' :: '<' :: (opening ++ body)).take (2 + n) = '<' :: '<' :: (opening ++ body).take n := by
    rw [Nat.add_comm]
    rfl
  rcases closing_cases label (body.splitOn '\n') with open_ | ⟨front, line, others, white, lines, open_, closes⟩
  · rw [scanLabelled_of_unclosed opens open_] at found
    refine .inr ⟨open_, by rw [foundAt, found], ?_⟩
    rw [foundAt, found, taken, List.take_left]
  · rw [scanLabelled_of_closed opens lines open_ closes] at found
    refine .inl ⟨front, line, others, white, lines, open_, closes, by rw [foundAt, found], ?_⟩
    rw [foundAt, found, taken, take_of_closed opening lines open_ closes]

/-- **Tokens tile the source.** The lexer comes to its end on every text. No token reaches beyond the text, and the
texts of the tokens make up the source. No token is empty, and each starts as many bytes from the beginning as the
tokens in front of it are long. An error token is a stray character, an unfinished string or comment, which reaches to
the end, or an opening line of a labelled string. Names are extended segment by segment, and labelled strings last
through the closing label of the first line that has it. -/
theorem tokenize_tiles (source : Text) :
    (tokenize source).flatMap Token.text = source ∧
    (∀ c cs, (scan c cs).2 ≤ cs.length) ∧
    ∀ before t after, tokenize source = before ++ t :: after →
      t.text ≠ [] ∧
      t.start = utf8Length (before.flatMap Token.text) ∧
      source = before.flatMap Token.text ++ (t.text ++ after.flatMap Token.text) ∧
      (t.kind = .error → IsDamage t.text (after.flatMap Token.text)) ∧
      ExtendsName t (after.flatMap Token.text) ∧
      EndsAtLabel t (after.flatMap Token.text) := by
  refine ⟨tokenizeFrom_texts 0 source, fun c cs => (scan_placed c cs).1, fun before t after tokens => ?_⟩
  obtain ⟨c, cs, whole, rfl, behind⟩ := tokenizeFrom_append tokens
  rw [behind, Nat.zero_add]
  refine ⟨List.cons_ne_nil _ _, rfl, ?_, (scan_placed c cs).2, extendsName_foundAt _ c cs, endsAtLabel_foundAt _ c cs⟩
  exact whole.trans (congrArg _ (foundAt_text_append 0 c cs).symm)

/-- A labelled string, a point, a qualified name with a separator behind it, an opening line and a name. -/
def labelledText : Text := "<<<A\nAB\n A.\\x\\y\\<<<'B'\nC".toList

/-- The tokens of the text. The string passes over the line that begins with a longer word, and the opening line is an
error because the line behind it does not begin with its label. -/
theorem tokenize_tiles_labelledText :
    (tokenize labelledText).map (fun t => (t.kind, t.start)) =
      [(.string, 0), (.dot, 10), (.qualifiedName, 11), (.backslash, 15), (.error, 16), (.ident, 23)] ∧
    IsDamage "<<<'B'\n".toList ['C'] ∧ ¬IsClosingLine ['B'] ['C'] := by
  have opens : Opens ['B'] ['\x27', 'B', '\x27', '\n'] :=
    ⟨[], ['\x27'], ['\x27'], ['\n'], rfl, rfl, .inr ⟨_, rfl, rfl⟩, ⟨'B', [], rfl, rfl, rfl⟩, .inr ⟨_, rfl, rfl⟩,
      .inl rfl⟩
  have facts : tokenize labelledText = (tokenize labelledText).take 4 ++
        ⟨.error, "<<<'B'\n".toList, 16⟩ :: [⟨.ident, ['C'], 23⟩] ∧
      (tokenize labelledText).map (fun t => (t.kind, t.start)) =
        [(.string, 0), (.dot, 10), (.qualifiedName, 11), (.backslash, 15), (.error, 16), (.ident, 23)] := by
    decide +kernel
  obtain ⟨-, -, each⟩ := tokenize_tiles labelledText
  obtain ⟨-, -, -, damage, -, ends⟩ := each _ _ _ facts.1
  refine ⟨facts.2, damage rfl, ?_⟩
  rcases ends ['B'] _ ['C'] opens rfl with ⟨-, -, -, -, -, -, -, isString, -⟩ | ⟨open_, -, -⟩
  · cases isString
  · exact open_ ['C'] (by decide)

end PhpMembers
