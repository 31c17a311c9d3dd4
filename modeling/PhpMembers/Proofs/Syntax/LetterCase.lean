import PhpMembers.Proofs.Syntax.Tiling

/-! # The lexer and letter case

Reserved words, the prefixes and exponents of numbers and the opening tag are recognised in any letter case, and what
else the lexer looks at are marks, digits and line ends. So it finds the same tokens in a text and in the text in lower
case. The only exception are labelled strings: a label is closed by the same letters in the same case.

* `toLower_invariant` : what does not tell upper from lower case.
* `CaseFree` : functions of a text with this property.
* `scan_toLower` : the lexer, except for labelled strings. -/

namespace PhpMembers

variable {c d : Char} {cs ds : Text}

/-! ## (1) Characters -/

/-- Only capital letters have another lower case. -/
theorem toLower_eq_self (notUpper : c.isUpper = false) : c.toLower = c := by
  have outside : ¬(c.val ≥ 'A'.val ∧ c.val ≤ 'Z'.val) := of_decide_eq_false notUpper
  exact dif_neg outside

/-- **What is the same for each letter of the alphabet in both cases is the same for every character and its lower
case.** -/
theorem toLower_invariant {α : Type} (g : Char → α)
    (letters : ∀ n < 26, g (Char.ofNat (97 + n)) = g (Char.ofNat (65 + n))) (c : Char) : g c.toLower = g c := by
  by_cases upper : c.isUpper = true
  · have range := isUpper_iff.mp upper
    have lower : ∀ n < 26, (Char.ofNat (65 + n)).toLower = Char.ofNat (97 + n) := by decide
    obtain ⟨n, small, same⟩ : ∃ n < 26, c = Char.ofNat (65 + n) := by
      refine ⟨c.toNat - 65, by omega, ?_⟩
      rw [Nat.add_sub_cancel' range.1, Char.ofNat_toNat]
    rw [same, lower n small, letters n small]
  · rw [toLower_eq_self (Bool.not_eq_true _ ▸ upper)]

/-- A mark or a digit is only its own lower case. -/
theorem toLower_eq_iff (noLetter : d.isAlpha = false) : c.toLower = d ↔ c = d := by
  have same : (c.toLower == d) = (c == d) := by
    refine toLower_invariant (· == d) (fun n small => ?_) c
    have lower : ∀ n < 26, (Char.ofNat (97 + n)).isAlpha = true := by decide
    have upper : ∀ n < 26, (Char.ofNat (65 + n)).isAlpha = true := by decide
    have differs {e : Char} (letter : e.isAlpha = true) : (e == d) = false := by
      rw [beq_eq_false_iff_ne]
      rintro rfl
      rw [letter] at noLetter
      cases noLetter
    rw [differs (lower n small), differs (upper n small)]
  rw [← beq_iff_eq, same, beq_iff_eq]

/-! ## (2) Texts -/

theorem lowerCase_cons (c : Char) (cs : Text) : lowerCase (c :: cs) = c.toLower :: lowerCase cs := rfl

/-- What stands in the text in lower case and is no letter stands in the text, too. -/
theorem eq_cons_of_lowerCase (same : lowerCase cs = d :: ds) (noLetter : d.isAlpha = false) :
    ∃ rest, cs = d :: rest ∧ lowerCase rest = ds := by
  obtain ⟨c, rest, rfl, first, behind⟩ := List.map_eq_cons_iff.mp same
  rw [toLower_eq_iff noLetter] at first
  exact ⟨rest, by rw [first], behind⟩

/-- So do several such characters. -/
theorem eq_append_of_lowerCase {mark : Text} (same : lowerCase cs = mark ++ ds)
    (noLetters : mark.all (fun d => !d.isAlpha) = true) : ∃ rest, cs = mark ++ rest ∧ lowerCase rest = ds := by
  induction mark generalizing cs with
  | nil => exact ⟨cs, rfl, same⟩
  | cons d mark ih =>
      obtain ⟨noLetter, noLetters⟩ := Bool.and_eq_true_iff.mp noLetters
      obtain ⟨others, rfl, behind⟩ := eq_cons_of_lowerCase same (by simpa using noLetter)
      obtain ⟨rest, rfl, last⟩ := ih behind noLetters
      exact ⟨rest, rfl, last⟩

/-- So do two such characters. -/
theorem eq_cons_cons_of_lowerCase {e : Char} (same : lowerCase cs = d :: e :: ds) (noLetter : d.isAlpha = false)
    (noLetter' : e.isAlpha = false) : ∃ rest, cs = d :: e :: rest ∧ lowerCase rest = ds := by
  obtain ⟨more, rfl, others⟩ := eq_cons_of_lowerCase same noLetter
  obtain ⟨rest, rfl, behind⟩ := eq_cons_of_lowerCase others noLetter'
  exact ⟨rest, rfl, behind⟩

/-- Letters have the same length in both cases. -/
@[simp] theorem utf8Length_lowerCase (cs : Text) : utf8Length (lowerCase cs) = utf8Length cs := by
  induction cs with
  | nil => rfl
  | cons c cs ih =>
      have size : c.toLower.utf8Size = c.utf8Size := toLower_invariant Char.utf8Size (by decide) c
      rw [lowerCase_cons, utf8Length_cons, utf8Length_cons, ih, size]

/-- Lower case has no further lower case. -/
@[simp] theorem lowerCase_lowerCase (cs : Text) : lowerCase (lowerCase cs) = lowerCase cs := by
  have twice (c : Char) : c.toLower.toLower = c.toLower := toLower_invariant Char.toLower (by decide) c
  simp [lowerCase, Function.comp_def, twice]

/-- Marks and digits have no other lower case. -/
theorem lowerCase_of_noLetters (noLetters : cs.all (fun d => !d.isAlpha) = true) : lowerCase cs = cs := by
  refine (List.map_congr_left fun c mem => ?_).trans (List.map_id cs)
  have noLetter := List.all_eq_true.mp noLetters c mem
  exact (toLower_eq_iff (by simpa using noLetter)).mpr rfl

theorem lowerCase_append (cs ds : Text) : lowerCase (cs ++ ds) = lowerCase cs ++ lowerCase ds := List.map_append

theorem lowerCase_drop (n : Nat) (cs : Text) : lowerCase (cs.drop n) = (lowerCase cs).drop n := List.map_drop

theorem lowerCase_take (n : Nat) (cs : Text) : lowerCase (cs.take n) = (lowerCase cs).take n := List.map_take

/-- `CaseFree f`: the function does not tell a text from the text in lower case. -/
def CaseFree {α : Type} (f : Text → α) : Prop := ∀ cs, f (lowerCase cs) = f cs

/-- Counting is free of letter case if the test is. -/
theorem countWhile_caseFree {p : Char → Bool}
    (letters : ∀ n < 26, p (Char.ofNat (97 + n)) = p (Char.ofNat (65 + n))) : CaseFree (countWhile p) := by
  intro cs
  have same : p ∘ Char.toLower = p := funext (toLower_invariant p letters)
  rw [countWhile, countWhile, lowerCase, List.takeWhile_map, same, List.length_map]

theorem isNameStart_toLower (c : Char) : isNameStart c.toLower = isNameStart c :=
  toLower_invariant isNameStart (by decide) c

theorem isNameContinue_caseFree : CaseFree (countWhile isNameContinue) := countWhile_caseFree (by decide)

/-- A name is one in any letter case. -/
theorem isWord_caseFree : CaseFree isWord := by
  intro cs
  have goesOn : isNameContinue ∘ Char.toLower = isNameContinue := funext (toLower_invariant isNameContinue (by decide))
  cases cs with
  | nil => rfl
  | cons c cs => rw [lowerCase_cons, isWord, isWord, isNameStart_toLower, lowerCase, List.all_map, goesOn]

theorem isDigit_caseFree : CaseFree (countWhile isDigit) := countWhile_caseFree (by decide)

/-! ## (3) Tokens -/

theorem scanHash_caseFree : CaseFree scanHash := by
  intro cs
  fun_cases scanHash cs
  · rfl
  · rw [scanHash.eq_def]
    split
    · grind [eq_cons_of_lowerCase]
    · rw [countWhile_caseFree (by decide)]

theorem scanGreater_caseFree : CaseFree scanGreater := by
  intro cs
  fun_cases scanGreater cs
  · rfl
  · rw [lowerCase_cons, scanGreater.eq_def]
    split <;> grind [eq_cons_of_lowerCase]
  · rfl
  · rw [scanGreater.eq_def]
    split <;> grind [eq_cons_of_lowerCase]

theorem scanQuestion_caseFree : CaseFree scanQuestion := by
  intro cs
  fun_cases scanQuestion cs
  · rfl
  · rfl
  · rfl
  · rw [lowerCase_cons, scanQuestion.eq_def]
    split <;> grind [eq_cons_of_lowerCase]
  · rw [scanQuestion.eq_def]
    split <;> grind [eq_cons_of_lowerCase, eq_cons_cons_of_lowerCase]

theorem scanEqual_caseFree : CaseFree scanEqual := by
  intro cs
  fun_cases scanEqual cs
  · rfl
  · rw [lowerCase_cons, scanEqual.eq_def]
    split <;> grind [eq_cons_of_lowerCase]
  · rfl
  · rw [scanEqual.eq_def]
    split <;> grind [eq_cons_of_lowerCase]

theorem scanBang_caseFree : CaseFree scanBang := by
  intro cs
  fun_cases scanBang cs
  · rfl
  · rw [lowerCase_cons, scanBang.eq_def]
    split <;> grind [eq_cons_of_lowerCase]
  · rw [scanBang.eq_def]
    split <;> grind [eq_cons_of_lowerCase]

theorem scanStar_caseFree : CaseFree scanStar := by
  intro cs
  fun_cases scanStar cs
  · rfl
  · rw [lowerCase_cons, scanStar.eq_def]
    split <;> grind [eq_cons_of_lowerCase]
  · rfl
  · rw [scanStar.eq_def]
    split <;> grind [eq_cons_of_lowerCase]

theorem scanMinus_caseFree : CaseFree scanMinus := by
  intro cs
  fun_cases scanMinus cs
  · rfl
  · rfl
  · rfl
  · rw [scanMinus.eq_def]
    split <;> grind [eq_cons_of_lowerCase]

theorem scanColon_caseFree : CaseFree scanColon := by
  intro cs
  fun_cases scanColon cs
  · rfl
  · rw [scanColon.eq_def]
    split <;> grind [eq_cons_of_lowerCase]

theorem scanAssigning_caseFree (single : Kind) : CaseFree (scanAssigning single) := by
  intro cs
  fun_cases scanAssigning single cs
  · rfl
  · rw [scanAssigning.eq_def]
    split <;> grind [eq_cons_of_lowerCase]

theorem scanDoubled_caseFree (noLetter : c.isAlpha = false) (single double : Kind) :
    CaseFree (scanDoubled c single double) := by
  intro cs
  cases cs with
  | nil => rfl
  | cons d ds => simp only [lowerCase_cons, scanDoubled, toLower_eq_iff noLetter, toLower_eq_iff (d := '=') rfl]

/-- Where a function is free of letter case, so it is behind some characters. -/
theorem CaseFree.drop {α : Type} {f : Text → α} (free : CaseFree f) (n : Nat) (cs : Text) :
    f ((lowerCase cs).drop n) = f (cs.drop n) := by
  rw [← lowerCase_drop, free]

theorem exponent_caseFree : CaseFree exponent := by
  intro cs
  have mark (e : Char) : (e.toLower == 'e' || e.toLower == 'E') = (e == 'e' || e == 'E') :=
    toLower_invariant (fun e => e == 'e' || e == 'E') (by decide) e
  have sign (c : Char) : (c.toLower == '+' || c.toLower == '-') = (c == '+' || c == '-') :=
    toLower_invariant (fun c => c == '+' || c == '-') (by decide) c
  cases cs with
  | nil => rfl
  | cons e rest =>
      cases rest with
      | nil =>
          show exponent [e.toLower] = exponent [e]
          simp only [exponent, mark]
      | cons c rest =>
          have digits := fun n => isDigit_caseFree.drop n (c :: rest)
          rw [lowerCase_cons] at digits
          simp only [lowerCase_cons, exponent, mark, sign, digits]

theorem integerLength_caseFree (c : Char) : CaseFree (integerLength c) := by
  intro cs
  have decimal : CaseFree (countWhile fun d => isDigit d || d == '_') := countWhile_caseFree (by decide)
  have hex : CaseFree (countWhile isHexDigit) := countWhile_caseFree (by decide)
  have binary : CaseFree (countWhile isBinaryDigit) := countWhile_caseFree (by decide)
  have isX (x : Char) : (x.toLower == 'x' || x.toLower == 'X') = (x == 'x' || x == 'X') :=
    toLower_invariant (fun x => x == 'x' || x == 'X') (by decide) x
  have isB (x : Char) : (x.toLower == 'b' || x.toLower == 'B') = (x == 'b' || x == 'B') :=
    toLower_invariant (fun x => x == 'b' || x == 'B') (by decide) x
  cases cs with
  | nil => rfl
  | cons x ds =>
      have decimals := decimal (x :: ds)
      rw [lowerCase_cons] at decimals
      simp only [lowerCase_cons, integerLength, decimals, isX, isB, hex ds, binary ds]

/-- Behind digits and a point a number is a fraction. -/
theorem scanNumber_of_point (c : Char) {rest : Text} (point : cs.drop (countWhile isDigit cs) = '.' :: rest) :
    scanNumber c cs = (.float, countWhile isDigit cs + 1 + countWhile isDigit rest +
      exponent (rest.drop (countWhile isDigit rest))) := by
  rw [scanNumber]
  simp only [point]

/-- Without a point the exponent decides. -/
theorem scanNumber_of_noPoint (c : Char) (noPoint : ∀ rest, cs.drop (countWhile isDigit cs) ≠ '.' :: rest) :
    scanNumber c cs =
      if exponent (cs.drop (countWhile isDigit cs)) = 0 then (.integer, integerLength c cs)
      else (.float, countWhile isDigit cs + exponent (cs.drop (countWhile isDigit cs))) := by
  rw [scanNumber]
  split
  · rename_i rest point
    exact absurd point (noPoint rest)
  · rfl

theorem scanNumber_caseFree (c : Char) : CaseFree (scanNumber c) := by
  intro cs
  have digits := isDigit_caseFree cs
  have behind := (lowerCase_drop (countWhile isDigit cs) cs).symm
  by_cases point : ∃ rest, cs.drop (countWhile isDigit cs) = '.' :: rest
  · obtain ⟨rest, point⟩ := point
    have point' : (lowerCase cs).drop (countWhile isDigit (lowerCase cs)) = '.' :: lowerCase rest := by
      rw [digits, behind, point]
      rfl
    rw [scanNumber_of_point c point, scanNumber_of_point c point', digits, isDigit_caseFree, exponent_caseFree.drop]
  · rw [not_exists] at point
    have point' : ∀ rest, (lowerCase cs).drop (countWhile isDigit (lowerCase cs)) ≠ '.' :: rest := by
      intro rest same
      rw [digits, behind] at same
      obtain ⟨rest, found, -⟩ := eq_cons_of_lowerCase same rfl
      exact point rest found
    rw [scanNumber_of_noPoint c point, scanNumber_of_noPoint c point', digits, exponent_caseFree.drop,
      integerLength_caseFree]

/-- Without one of its marks a point may begin a fraction. -/
theorem scanPoint_of_noMark (noDots : ∀ rest, cs = '.' :: '.' :: rest → False)
    (noAssignment : ∀ rest, cs = '=' :: rest → False) :
    scanPoint cs = if countWhile isDigit cs = 0 then (.dot, 0)
      else (.float, countWhile isDigit cs + exponent (cs.drop (countWhile isDigit cs))) := by
  rw [scanPoint]
  · exact noDots
  · exact noAssignment

theorem scanPoint_caseFree : CaseFree scanPoint := by
  intro cs
  by_cases dots : ∃ rest, cs = '.' :: '.' :: rest
  · obtain ⟨rest, rfl⟩ := dots
    rfl
  by_cases assignment : ∃ rest, cs = '=' :: rest
  · obtain ⟨rest, rfl⟩ := assignment
    rfl
  rw [scanPoint_of_noMark (fun rest same => dots ⟨rest, same⟩) fun rest same => assignment ⟨rest, same⟩,
    scanPoint_of_noMark, isDigit_caseFree, exponent_caseFree.drop]
  · intro rest same
    obtain ⟨rest, found, -⟩ := eq_cons_cons_of_lowerCase same rfl rfl
    exact dots ⟨rest, found⟩
  · intro rest same
    obtain ⟨rest, found, -⟩ := eq_cons_of_lowerCase same rfl
    exact assignment ⟨rest, found⟩

/-- The extent of a block comment. -/
theorem commentEnd?_caseFree : CaseFree commentEnd? := by
  intro cs
  fun_induction commentEnd? cs with
  | case1 cs => rfl
  | case2 c cs notEnd ih =>
      rw [lowerCase_cons, commentEnd?, ih]
      intro rest first behind
      rw [toLower_eq_iff rfl] at first
      obtain ⟨rest, found, -⟩ := eq_cons_of_lowerCase behind rfl
      exact notEnd rest first found
  | case3 => rfl

theorem commentKind_caseFree : CaseFree commentKind := by
  intro cs
  fun_cases commentKind cs
  · rfl
  · rw [lowerCase_cons, commentKind.eq_def]
    split <;> grind [eq_cons_of_lowerCase]
  · rw [commentKind.eq_def]
    split <;> grind [eq_cons_of_lowerCase]

theorem scanSlash_caseFree : CaseFree scanSlash := by
  intro cs
  have line : CaseFree (countWhile (· != '\n')) := countWhile_caseFree (by decide)
  by_cases isLine : ∃ rest, cs = '/' :: rest
  · obtain ⟨rest, rfl⟩ := isLine
    show (Kind.lineComment, 1 + countWhile (· != '\n') (lowerCase rest)) = _
    rw [line rest]
    rfl
  by_cases isBlock : ∃ rest, cs = '*' :: rest
  · obtain ⟨rest, rfl⟩ := isBlock
    have lower : lowerCase ('*' :: rest) = '*' :: lowerCase rest := rfl
    have extent : (lowerCase rest).length = rest.length := List.length_map _
    rw [lower, scanSlash, scanSlash, commentEnd?_caseFree, commentKind_caseFree, extent]
  by_cases assignment : ∃ rest, cs = '=' :: rest
  · obtain ⟨rest, rfl⟩ := assignment
    rfl
  · rw [scanSlash.eq_def, scanSlash.eq_def]
    split <;> split <;> grind [eq_cons_of_lowerCase]

/-- Whether a name begins, and how far its first segment reaches, is the same in any letter case. -/
theorem segments_caseFree : CaseFree segments := by
  intro cs
  fun_induction segments cs with
  | case1 c cs start n ih =>
      have extent : countWhile isNameContinue (lowerCase cs) = n := isNameContinue_caseFree cs
      have lower : lowerCase ('\\' :: c :: cs) = '\\' :: c.toLower :: lowerCase cs := rfl
      rw [lower, segments, isNameStart_toLower, if_pos start]
      simp only [extent, ← lowerCase_drop, ih]
  | case2 c cs other =>
      have lower : lowerCase ('\\' :: c :: cs) = '\\' :: c.toLower :: lowerCase cs := rfl
      rw [lower, segments, isNameStart_toLower, if_neg other]
  | case3 cs other =>
      rw [segments.eq_def]
      split
      · rename_i d ds same
        obtain ⟨rest, rfl, behind⟩ := eq_cons_of_lowerCase same rfl
        obtain ⟨c, cs, rfl, -, -⟩ := List.map_eq_cons_iff.mp behind
        exact absurd rfl (other c cs)
      · rfl

theorem scanName_caseFree (c : Char) (cs : Text) : scanName c.toLower (lowerCase cs) = scanName c cs := by
  have word (n : Nat) : keyword? (c.toLower :: (lowerCase cs).take n) = keyword? (c :: cs.take n) := by
    rw [← lowerCase_take, ← lowerCase_cons, keyword?, keyword?, lowerCase_lowerCase]
  rw [scanName, scanName]
  simp only [isNameContinue_caseFree cs, segments_caseFree.drop, word]

theorem scanRooted_caseFree : CaseFree scanRooted := by
  intro cs
  cases cs with
  | nil => rfl
  | cons c cs =>
      rw [lowerCase_cons, scanRooted, scanRooted]
      simp only [isNameStart_toLower, isNameContinue_caseFree cs, segments_caseFree.drop]

theorem scanVariable_caseFree : CaseFree scanVariable := by
  intro cs
  cases cs with
  | nil => rfl
  | cons c cs =>
      rw [lowerCase_cons, scanVariable, scanVariable]
      simp only [isNameStart_toLower, isNameContinue_caseFree cs]

theorem stringEnd_caseFree (noLetter : c.isAlpha = false) : CaseFree (stringEnd c) := by
  intro cs
  fun_induction stringEnd c cs with
  | case1 => rfl
  | case2 => rfl
  | case3 d cs ih =>
      have lower : lowerCase ('\\' :: d :: cs) = '\\' :: d.toLower :: lowerCase cs := rfl
      rw [lower, stringEnd, ih]
  | case4 cs notEnd notEscape =>
      have plain := ne_backslash notEnd notEscape
      have same : c.toLower = c := (toLower_eq_iff noLetter).mpr rfl
      rw [lowerCase_cons, same, stringEnd_of_ne _ plain, if_pos rfl]
  | case5 d cs notEnd notEscape other ih =>
      have plain : d.toLower ≠ '\\' := mt (toLower_eq_iff rfl).mp (ne_backslash notEnd notEscape)
      rw [lowerCase_cons, stringEnd_of_ne _ plain, if_neg (mt (toLower_eq_iff noLetter).mp other), ih]

theorem shellStringEnd_caseFree : CaseFree shellStringEnd := by
  intro cs
  have inside : CaseFree (countWhile (· != '\x60')) := countWhile_caseFree (by decide)
  have extent : (lowerCase cs).length = cs.length := List.length_map _
  rw [shellStringEnd, shellStringEnd]
  simp only [inside cs, extent]

/-- The letters of an opening tag. -/
theorem tag_toLower (p h q : Char) :
    ((p.toLower == 'p' || p.toLower == 'P') && (h.toLower == 'h' || h.toLower == 'H') &&
        (q.toLower == 'p' || q.toLower == 'P')) =
      ((p == 'p' || p == 'P') && (h == 'h' || h == 'H') && (q == 'p' || q == 'P')) := by
  have isP (c : Char) : (c.toLower == 'p' || c.toLower == 'P') = (c == 'p' || c == 'P') :=
    toLower_invariant (fun c => c == 'p' || c == 'P') (by decide) c
  have isH (c : Char) : (c.toLower == 'h' || c.toLower == 'H') = (c == 'h' || c == 'H') :=
    toLower_invariant (fun c => c == 'h' || c == 'H') (by decide) c
  rw [isP, isH, isP]

/-- An opening tag, and the operators that begin in the same way. Labelled strings are left out. -/
theorem scanLess_lowerCase (noLabel : ∀ rest, cs ≠ '<' :: '<' :: rest) : scanLess (lowerCase cs) = scanLess cs := by
  -- Only the tag has letters; elsewhere the text is told by characters that stay as they are.
  fun_cases scanLess cs with
  | case1 => rfl
  | case2 p h q tail notShort isTag =>
      have lower : lowerCase ('?' :: p :: h :: q :: tail) =
        '?' :: p.toLower :: h.toLower :: q.toLower :: lowerCase tail := rfl
      rw [lower, scanLess, tag_toLower, if_pos isTag]
      exact fun same => notShort ((toLower_eq_iff rfl).mp same)
  | case3 p h q tail notShort noTag =>
      have lower : lowerCase ('?' :: p :: h :: q :: tail) =
        '?' :: p.toLower :: h.toLower :: q.toLower :: lowerCase tail := rfl
      rw [lower, scanLess, tag_toLower, if_neg noTag]
      exact fun same => notShort ((toLower_eq_iff rfl).mp same)
  | case4 rest => exact absurd rfl (noLabel rest)
  | case5 => rfl
  | case6 =>
      rw [lowerCase_cons, scanLess.eq_def]
      split <;> grind [eq_cons_of_lowerCase]
  | case7 => rfl
  | case8 =>
      rw [lowerCase_cons, scanLess.eq_def]
      split <;> grind [eq_cons_of_lowerCase]
  | case9 => rfl
  | case10 cs shortTag tag =>
      have noTag (p h q : Char) (tail : Text) : lowerCase cs ≠ '?' :: p :: h :: q :: tail := by
        intro same
        obtain ⟨rest, rfl, behind⟩ := eq_cons_of_lowerCase same rfl
        obtain ⟨p, rest, rfl, -, behind⟩ := List.map_eq_cons_iff.mp behind
        obtain ⟨h, rest, rfl, -, behind⟩ := List.map_eq_cons_iff.mp behind
        obtain ⟨q, rest, rfl, -, -⟩ := List.map_eq_cons_iff.mp behind
        exact tag p h q rest rfl
      rw [scanLess.eq_def]
      split <;> grind [eq_cons_of_lowerCase, eq_cons_cons_of_lowerCase]

/-- **The lexer finds the same token in any letter case**, if it is no labelled string. -/
theorem scan_toLower (noLabel : ∀ rest, c = '<' → cs ≠ '<' :: '<' :: rest) :
    scan c.toLower (lowerCase cs) = scan c cs := by
  -- A capital letter begins a name, and every other character stays as it is.
  by_cases upper : c.isUpper = true
  · have letter : c.isAlpha = true := isAlpha_iff.mpr (.inl (isUpper_iff.mp upper))
    have start : isNameStart c = true := by simp [isNameStart, letter]
    have start' : isNameStart c.toLower = true := by rw [isNameStart_toLower, start]
    rw [scan_of_isNameStart start, scan_of_isNameStart start', scanName_caseFree]
  · rw [toLower_eq_self (Bool.not_eq_true _ ▸ upper)]
    have same : c.toLower = c := toLower_eq_self (Bool.not_eq_true _ ▸ upper)
    unfold scan
    split
    · exact scanSlash_caseFree cs
    · exact scanHash_caseFree cs
    · exact scanLess_lowerCase fun rest => noLabel rest rfl
    · exact scanGreater_caseFree cs
    · exact scanQuestion_caseFree cs
    · exact scanEqual_caseFree cs
    · exact scanBang_caseFree cs
    · exact scanStar_caseFree cs
    · exact scanMinus_caseFree cs
    · exact scanPoint_caseFree cs
    · exact scanColon_caseFree cs
    · exact scanDoubled_caseFree rfl _ _ cs
    · exact scanDoubled_caseFree rfl _ _ cs
    · exact scanDoubled_caseFree rfl _ _ cs
    · exact scanAssigning_caseFree _ cs
    · exact scanAssigning_caseFree _ cs
    · exact scanRooted_caseFree cs
    · exact scanVariable_caseFree cs
    · exact congrArg StringEnd.token (stringEnd_caseFree rfl cs)
    · exact congrArg StringEnd.token (stringEnd_caseFree rfl cs)
    · exact congrArg StringEnd.token (shellStringEnd_caseFree cs)
    iterate 10 rfl
    · have spaces : CaseFree (countWhile isSpace) := countWhile_caseFree (by decide)
      have name : scanName c (lowerCase cs) = scanName c cs := by
        rw [← scanName_caseFree c cs, same]
      rw [spaces cs, scanNumber_caseFree c cs, name]

/-! ## (4) Labelled strings -/

theorem labelQuote_caseFree : CaseFree labelQuote := by
  intro cs
  have quoted (q c : Char) :
      (isLabelQuote q.toLower && isLabelStart c.toLower) = (isLabelQuote q && isLabelStart c) := by
    rw [toLower_invariant isLabelQuote (by decide), toLower_invariant isLabelStart (by decide)]
  cases cs with
  | nil => rfl
  | cons q cs =>
      cases cs with
      | nil => rfl
      | cons c cs =>
          show labelQuote (q.toLower :: c.toLower :: lowerCase cs) = _
          rw [labelQuote, labelQuote, quoted]

theorem labelAt_lowerCase (cs : Text) : labelAt (lowerCase cs) = lowerCase (labelAt cs) := by
  have goesOn : isLabelContinue ∘ Char.toLower = isLabelContinue :=
    funext (toLower_invariant isLabelContinue (by decide))
  cases cs with
  | nil => rfl
  | cons c cs =>
      rw [lowerCase_cons, labelAt, labelAt, toLower_invariant isLabelStart (by decide)]
      split
      · rw [← lowerCase_cons, lowerCase, List.takeWhile_map, goesOn]
        rfl
      · rfl

theorem labelPlace_caseFree : CaseFree labelPlace := by
  intro cs
  have blanks : CaseFree (countWhile isLabelBlank) := countWhile_caseFree (by decide)
  rw [labelPlace, labelPlace, blanks, labelQuote_caseFree.drop]

theorem labelOf_lowerCase (cs : Text) : labelOf (lowerCase cs) = lowerCase (labelOf cs) := by
  rw [labelOf, labelOf, labelPlace_caseFree, ← lowerCase_drop, labelAt_lowerCase]

theorem unopened_caseFree : CaseFree unopened := by
  intro cs
  rw [unopened, unopened, labelPlace_caseFree, labelOf_lowerCase, lowerCase, List.length_map]

/-- The end of an opening line has no letters. -/
theorem noLetters_lineEnd {quote lineEnd : Text} (isQuote : IsQuote quote) (isLineEnd : IsLineEnd lineEnd) :
    (quote ++ lineEnd).all (fun d => !d.isAlpha) = true := by
  rw [List.all_append, Bool.and_eq_true]
  constructor
  · rcases isQuote with rfl | ⟨q, rfl, quote⟩
    · rfl
    · rcases isLabelQuote_iff.mp quote with rfl | rfl <;> rfl
  · rcases isLineEnd with rfl | rfl <;> rfl

theorem labelLineEnd?_caseFree : CaseFree labelLineEnd? := by
  intro cs
  cases found : labelLineEnd? cs with
  | some n =>
      obtain ⟨quote, lineEnd, rest, rfl, rfl, isQuote, isLineEnd⟩ := exists_of_labelLineEnd? found
      have kept : lowerCase (quote ++ lineEnd) = quote ++ lineEnd :=
        lowerCase_of_noLetters (noLetters_lineEnd isQuote isLineEnd)
      have lower : lowerCase (quote ++ (lineEnd ++ rest)) = quote ++ (lineEnd ++ lowerCase rest) := by
        rw [← List.append_assoc, lowerCase_append, kept, List.append_assoc]
      rw [lower, labelLineEnd?_append isQuote isLineEnd]
  | none =>
      cases found' : labelLineEnd? (lowerCase cs) with
      | none => rfl
      | some n =>
          -- The marks stand in the text, too, so they would have been found there.
          obtain ⟨quote, lineEnd, rest, same, -, isQuote, isLineEnd⟩ := exists_of_labelLineEnd? found'
          rw [← List.append_assoc] at same
          obtain ⟨rest, rfl, -⟩ := eq_append_of_lowerCase same (noLetters_lineEnd isQuote isLineEnd)
          rw [List.append_assoc, labelLineEnd?_append isQuote isLineEnd] at found
          cases found

/-- **Whether a text begins as an opening line does not depend on letter case.** -/
theorem opening?_caseFree : CaseFree opening? := by
  intro cs
  have noLabel : labelOf (lowerCase cs) = [] ↔ labelOf cs = [] := by
    rw [labelOf_lowerCase, lowerCase, List.map_eq_nil_iff]
  rw [opening?, opening?, unopened_caseFree, labelLineEnd?_caseFree.drop]
  simp only [noLabel]

end PhpMembers
