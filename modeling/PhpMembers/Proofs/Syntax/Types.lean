import Mathlib.Data.List.Chain
import PhpMembers.Proofs.Search.Names
import PhpMembers.Proofs.Source.Parts
import PhpMembers.Proofs.Syntax.Fronts

/-! # The parts of declared types

In the tree of every text, damaged or not, a declared type consists of names and of signs between them. A name is one
token, or is missing. So the names in a type can be read off its text: where one name stands alone, behind a question
mark or in front of a bar and another name, these are the names of the type.

* `Kind.isTypeSign`, `Kind.isTypeName` : the tokens of types.
* `TypeParts`, `Parse.typed_ofTokens` : the parts of types.
* `Tree.names_of_plain`, `Tree.names_of_nullable`, `Tree.names_of_union` : the names in a type, by its text. -/

namespace PhpMembers

/-! ## (1) Tokens of types -/

/-- The characters of class names, the separator included. -/
def isPathCharacter (c : Char) : Bool := c == '\\' || c == '_' || isXidStart c || isXidContinue c

/-- The tokens that can stand between the names of a type. -/
def Kind.isTypeSign (kind : Kind) : Bool := kind.isTrivia || [question, pipe, amp, lParen, rParen].contains kind

/-- The tokens that are names in a type. -/
def Kind.isTypeName (kind : Kind) : Bool := [ident, qualifiedName, staticKw, arrayKw].contains kind

/-- The tokens that are recorded as names. -/
def Kind.isPath (kind : Kind) : Bool := kind.isMemberName || kind == .qualifiedName

/-- What begins as a class name can do is scanned as a name or number, or as a single character. -/
theorem scan_of_isPathCharacter {c : Char} (path : isPathCharacter c = true) (cs : Text) :
    (c = '\\' ∧ scan c cs = scanRooted cs) ∨ scan c cs = scanNumber c cs ∨
      (isNameStart c = true ∧ scan c cs = scanName c cs) ∨ scan c cs = (.error, 0) := by
  unfold scan
  split
  case h_17 => exact .inl ⟨rfl, rfl⟩
  case h_32 =>
    split
    · rename_i space
      -- White space is no character of a name.
      simp only [isSpace, Bool.or_eq_true, beq_iff_eq] at space
      rcases space with ((rfl | rfl) | rfl) | rfl
      all_goals exact absurd path (by decide)
    · split
      · exact .inr (.inl rfl)
      · split
        · rename_i start
          exact .inr (.inr (.inl ⟨start, rfl⟩))
        · exact .inr (.inr (.inr rfl))
  all_goals exact absurd path (by decide)

/-- Numbers are numbers. -/
theorem scanNumber_kind (c : Char) (cs : Text) : (scanNumber c cs).1 = .integer ∨ (scanNumber c cs).1 = .float := by
  unfold scanNumber
  simp only
  split
  · exact .inr rfl
  · split
    · exact .inl rfl
    · exact .inr rfl

/-- What is scanned as a name is a name. -/
theorem isPath_scanName (c : Char) (cs : Text) : (scanName c cs).1.isPath = true := by
  unfold scanName
  simp only
  split
  · cases found : keyword? (c :: cs.take (countWhile isNameContinue cs)) with
    | none => rfl
    | some kind =>
        show kind.isPath = true
        rw [Kind.isPath, Kind.isMemberName, isKeyword_of_keyword? found, Bool.or_true, Bool.true_or]
  · rfl

/-- What begins with a separator is a name, or a separator. -/
theorem scanRooted_kind (cs : Text) : (scanRooted cs).1 = .qualifiedName ∨ (scanRooted cs).1 = .backslash := by
  unfold scanRooted
  split
  · split
    · exact .inl rfl
    · exact .inr rfl
  · exact .inr rfl

set_option maxRecDepth 4000 in
/-- No sign begins as a class name can do. -/
theorem isPathCharacter_of_isTypeSign {c : Char} {cs : Text} (sign : (scan c cs).1.isTypeSign = true) :
    isPathCharacter c = false := by
  have names : ∀ kind ∈ Kind.all, kind.isPath = true → kind.isTypeSign = false := by decide
  refine Bool.eq_false_iff.mpr fun path => ?_
  suffices none : (scan c cs).1.isTypeSign = false by
    rw [sign] at none
    cases none
  rcases scan_of_isPathCharacter path cs with ⟨-, scanned⟩ | scanned | ⟨-, scanned⟩ | scanned
  · rw [scanned]
    rcases scanRooted_kind cs with kind | kind <;> rw [kind] <;> rfl
  · rw [scanned]
    rcases scanNumber_kind c cs with kind | kind <;> rw [kind] <;> rfl
  · rw [scanned]
    exact names _ (Kind.mem_all _) (isPath_scanName c cs)
  · rw [scanned]
    rfl

/-- The characters in the names of a text. -/
def IsSegmented (text : Text) : Prop := ∀ d ∈ text, d = '\\' ∨ isNameContinue d = true

/-- The characters that continue a name are such. -/
theorem isSegmented_takeWhile (cs : Text) : IsSegmented (cs.takeWhile isNameContinue) :=
  fun d mem => .inr (List.all_eq_true.mp List.all_takeWhile d mem)

/-- So are the further segments of a name. -/
theorem isSegmented_segments (cs : Text) : IsSegmented (cs.take (segments cs)) := by
  induction cs using segments.induct with
  | case1 c cs start n ih =>
      rw [segments, if_pos start]
      show IsSegmented (('\\' :: c :: cs).take (n + 2 + segments (cs.drop n)))
      rw [show n + 2 + segments (cs.drop n) = n + segments (cs.drop n) + 1 + 1 by omega, List.take_succ_cons,
        List.take_succ_cons, List.take_add, take_countWhile]
      refine List.forall_mem_cons.mpr ⟨.inl rfl, List.forall_mem_cons.mpr ⟨.inr ?_, ?_⟩⟩
      · rw [isNameContinue, start, Bool.true_or]
      · exact List.forall_mem_append.mpr ⟨isSegmented_takeWhile cs, ih⟩
  | case2 c cs other =>
      rw [segments, if_neg other]
      exact List.forall_mem_nil _
  | case3 cs other =>
      rw [segments.eq_2 cs other]
      exact List.forall_mem_nil _

/-- A name with its further segments. -/
theorem isSegmented_name (cs : Text) :
    IsSegmented (cs.take (countWhile isNameContinue cs + segments (cs.drop (countWhile isNameContinue cs)))) := by
  rw [List.take_add, take_countWhile]
  exact List.forall_mem_append.mpr ⟨isSegmented_takeWhile cs, isSegmented_segments _⟩

/-- What is scanned as a name has the characters of names. -/
theorem isSegmented_scanName (c : Char) (cs : Text) : IsSegmented (cs.take (scanName c cs).2) := by
  unfold scanName
  simp only
  split
  · rw [take_countWhile]
    exact isSegmented_takeWhile cs
  · exact isSegmented_name cs

/-- So has what is scanned behind a separator. -/
theorem isSegmented_scanRooted (cs : Text) : IsSegmented (cs.take (scanRooted cs).2) := by
  unfold scanRooted
  split
  · rename_i c cs
    split
    · rename_i start
      show IsSegmented ((c :: cs).take (1 + _ + _))
      rw [Nat.add_assoc, Nat.add_comm 1, List.take_succ_cons]
      refine List.forall_mem_cons.mpr ⟨.inr ?_, isSegmented_name cs⟩
      rw [isNameContinue, start, Bool.true_or]
    · exact List.forall_mem_nil _
  · exact List.forall_mem_nil _

namespace Token

variable {source : Text} {t : Token}

/-- A name that begins as a class name can do has the characters of names. -/
theorem isSegmented_text (mem : t ∈ tokenize source) (isPath : t.kind.isPath = true) {c : Char} {rest : Text}
    (text : t.text = c :: rest) (path : isPathCharacter c = true) : IsSegmented t.text := by
  obtain ⟨d, cs, kind, found⟩ := exists_scan_of_mem_tokenizeFrom mem
  obtain ⟨rfl, -⟩ := List.cons.inj (text.symm.trans found)
  rw [kind] at isPath
  rw [found]
  rcases scan_of_isPathCharacter path cs with ⟨rfl, scanned⟩ | scanned | ⟨start, scanned⟩ | scanned
  · rw [scanned]
    exact List.forall_mem_cons.mpr ⟨.inl rfl, isSegmented_scanRooted cs⟩
  · rw [scanned] at isPath
    rcases scanNumber_kind c cs with number | number <;> rw [number] at isPath <;> cases isPath
  · rw [scanned]
    refine List.forall_mem_cons.mpr ⟨.inr ?_, isSegmented_scanName c cs⟩
    rw [isNameContinue, start, Bool.true_or]
  · rw [scanned] at isPath
    cases isPath

/-- No name begins with a question mark. -/
theorem ne_question (mem : t ∈ tokenize source) (isPath : t.kind.isPath = true) {c : Char} {rest : Text}
    (text : t.text = c :: rest) : c ≠ '?' := by
  rintro rfl
  obtain ⟨d, cs, kind, found⟩ := exists_scan_of_mem_tokenizeFrom mem
  obtain ⟨rfl, -⟩ := List.cons.inj (text.symm.trans found)
  have none : (scanQuestion cs).1.isPath = false := by
    unfold scanQuestion
    split <;> rfl
  rw [kind, show scan '?' cs = scanQuestion cs from rfl, none] at isPath
  cases isPath

/-- **Signs begin with characters that no class name has.** A bar is nothing more, and a question mark either, unless
it begins a closing tag. -/
theorem exists_sign (mem : t ∈ tokenize source) (sign : t.kind.isTypeSign = true) :
    ∃ c rest, t.text = c :: rest ∧ isPathCharacter c = false ∧ (c = '|' → rest = []) ∧
      (c = '?' → t.kind = .question ∧ rest = [] ∨ rest = ['>']) := by
  obtain ⟨c, cs, kind, text⟩ := exists_scan_of_mem_tokenizeFrom mem
  rw [kind] at sign ⊢
  refine ⟨c, _, text, isPathCharacter_of_isTypeSign sign, ?_, ?_⟩
  · -- A second bar or an equals sign would make another token of it.
    rintro rfl
    rw [show scan '|' cs = scanDoubled '|' .pipe .pipePipe cs from rfl] at sign ⊢
    unfold scanDoubled at sign ⊢
    split at sign
    · split at sign
      · cases sign
      · rename_i notBar
        split at sign
        · cases sign
        · rename_i notAssign
          simp only [if_neg notBar, if_neg notAssign]
          rfl
    · rfl
  · rintro rfl
    rw [show scan '?' cs = scanQuestion cs from rfl] at sign ⊢
    unfold scanQuestion at sign ⊢
    split at sign
    · exact .inr rfl
    · cases sign
    · cases sign
    · cases sign
    · exact .inl ⟨rfl, rfl⟩

end Token

/-! ## (2) The parts of types -/

/-- A part of a type. -/
inductive Tree.IsTypePart : Tree → Prop
  /-- A sign, or trivia. -/
  | sign {kind : Kind} {text : Text} (sign : kind.isTypeSign = true) : IsTypePart (.leaf kind text)
  /-- A name. -/
  | name {kind : Kind} {text : Text} (isName : kind.isTypeName = true) : IsTypePart (.node .nameRef [.leaf kind text])
  /-- The place of a name that is missing. -/
  | missing : IsTypePart (.node .nameRef [])

/-- `part.Precedes next`: one part of a type can stand in front of another one. Between two names there is a sign, and a
question mark stands at the front only. -/
def Tree.Precedes (part next : Tree) : Prop := (part.isLeaf = true ∨ next.isLeaf = true) ∧ next.kind ≠ .question

/-- The parts of a type. -/
structure TypeParts (parts : List Tree) : Prop where
  /-- Each of them is a sign or a name. -/
  each : ∀ part ∈ parts, part.IsTypePart
  /-- One can stand behind the other. -/
  apart : parts.IsChain Tree.Precedes

/-- The condition on the parts of nodes. -/
def Typed (kind : Kind) (parts : List Tree) : Prop := kind = .type → TypeParts parts

namespace Parsing

variable {s : Parsing}

/-- While a type is read, there are parts of a type in the open construct. -/
structure InType (s : Parsing) : Prop where
  /-- The tokens ahead are as they should be. -/
  tidy : s.Tidy
  /-- So are the parts. -/
  parts : TypeParts s.built.reverse

/-- `s.AtSign`: the latest part is a sign, or there is none yet. -/
def AtSign (s : Parsing) : Prop := ∀ part ∈ s.built.head?, part.isLeaf = true

/-- A part more. -/
theorem typeParts_reverse_cons {part : Tree} {built : List Tree} (parts : TypeParts built.reverse)
    (isPart : part.IsTypePart) (behind : ∀ last ∈ built.head?, last.Precedes part) :
    TypeParts (part :: built).reverse := by
  rw [List.reverse_cons]
  refine ⟨List.forall_mem_append.mpr ⟨parts.each, List.forall_mem_singleton.mpr isPart⟩, ?_⟩
  rw [← List.reverse_cons, List.isChain_reverse]
  exact List.isChain_cons.mpr ⟨behind, List.isChain_reverse.mp parts.apart⟩

/-- A sign more that is no question mark. -/
theorem typeParts_reverse_cons_leaf {kind : Kind} {text : Text} {built : List Tree} (parts : TypeParts built.reverse)
    (sign : kind.isTypeSign = true) (notQuestion : kind ≠ .question) :
    TypeParts (.leaf kind text :: built).reverse :=
  typeParts_reverse_cons parts (.sign sign) fun _ _ => ⟨.inr rfl, notQuestion⟩

/-- Trivia is a sign. -/
theorem InType.flush (inType : s.InType) : s.flush.InType := by
  have trivia : ∀ (gap : List Token) (built : List Tree), (∀ t ∈ gap, t.isTrivia = true) → TypeParts built.reverse →
      TypeParts ((gap.map Token.leaf).reverse ++ built).reverse := by
    intro gap
    induction gap with
    | nil => exact fun built _ parts => parts
    | cons t gap ih =>
        intro built silent parts
        obtain ⟨first, others⟩ := List.forall_mem_cons.mp silent
        rw [List.map_cons, List.reverse_cons, List.append_assoc]
        refine ih _ others (typeParts_reverse_cons_leaf parts ?_ ?_)
        · exact Bool.or_eq_true_iff.mpr (.inl first)
        · intro question
          rw [Token.isTrivia, question] at first
          cases first
  exact ⟨⟨List.forall_mem_nil _, inType.tidy.2⟩, trivia s.gap s.built inType.tidy.1 inType.parts⟩

/-- Trivia is a sign at the end, too. -/
theorem AtSign.flush (atSign : s.AtSign) : s.flush.AtSign := by
  intro part last
  rcases reversed : (s.gap.map Token.leaf).reverse with _ | ⟨first, rest⟩
  · rw [Parsing.flush, reversed] at last
    exact atSign part last
  · rw [Parsing.flush, reversed] at last
    obtain rfl := Option.some.inj last
    obtain ⟨t, -, rfl⟩ := List.mem_map.mp (List.mem_reverse.mp (reversed ▸ List.mem_cons_self))
    rfl

/-- A sign is taken. -/
theorem InType.take (inType : s.InType) (sign : (s.kindAt 0).isTypeSign = true) (notQuestion : s.kindAt 0 ≠ .question) :
    (s.take id).InType ∧ (s.take id).AtSign := by
  cases ahead : s.ahead with
  | nil =>
      rw [kindAt, ahead] at sign
      cases sign
  | cons next rest =>
      have kind : s.kindAt 0 = next.token.kind := by rw [kindAt, ahead]; rfl
      rw [kind] at sign notQuestion
      obtain ⟨tidy, parts⟩ := inType.flush
      have here := inType.tidy.2 next (ahead ▸ List.mem_cons_self)
      have later : ∀ l ∈ rest, _ := fun l mem => inType.tidy.2 l (ahead ▸ List.mem_cons_of_mem _ mem)
      have taken : s.take id = { s.flush with
          gap := next.after, ahead := rest, built := .leaf next.token.kind next.token.text :: s.flush.built } := by
        rw [Parsing.take, show s.flush.ahead = s.ahead from rfl, ahead]
        rfl
      rw [taken]
      refine ⟨⟨⟨here.2, later⟩, typeParts_reverse_cons_leaf parts sign notQuestion⟩, ?_⟩
      rintro _ ⟨⟩
      rfl

end Parsing

namespace Grammar

open Production

variable {depth : Nat} {s : Parsing}

/-- A name is a token that can be one, a reserved word that is taken for one, or a fault. -/
theorem exists_cases_nameRef : ∃ cases : Kind → Grammar, nameRef = node .nameRef (byKind cases) ∧
    ∀ kind, cases kind = bump ∧ kind.isTypeName = true ∨ cases kind = bumpAs .ident ∧ kind.isKeyword = true ∨
      cases kind = fault .expectedName := by
  refine ⟨_, rfl, fun kind => ?_⟩
  split
  case h_5 =>
    split
    · rename_i keyword
      exact .inr (.inl ⟨rfl, keyword⟩)
    · exact .inr (.inr rfl)
  all_goals exact .inl ⟨rfl, rfl⟩

/-- The first token of a construct. -/
theorem built_take_opened (more : s.kindAt 0 ≠ .error) (rename : Kind → Kind) :
    ∃ text, (s.flush.fresh.take rename).built = [.leaf (rename (s.kindAt 0)) text] := by
  cases ahead : s.ahead with
  | nil =>
      rw [Parsing.kindAt, ahead] at more
      exact absurd rfl more
  | cons next rest =>
      refine ⟨next.token.text, ?_⟩
      rw [Parsing.take, show s.flush.fresh.flush.ahead = s.ahead from rfl, ahead, Parsing.kindAt, ahead]
      rfl

set_option maxRecDepth 4000 in
/-- A name is one part. -/
theorem inType_nameRef (inType : s.InType) (atSign : s.AtSign) : (nameRef.run (Rule.follow depth) s).2.InType := by
  have part : ∃ name : Tree, name.IsTypePart ∧ name.kind = .nameRef ∧
      (nameRef.run (Rule.follow depth) s).2.built = name :: s.flush.built := by
    obtain ⟨cases, shape, each⟩ := exists_cases_nameRef
    have names : ∀ kind ∈ Kind.all, kind.isTypeName = true ∨ kind.isKeyword = true → kind ≠ .error := by
      decide
    rw [shape, run, run, show s.flush.fresh.kindAt 0 = s.kindAt 0 from rfl]
    refine ⟨_, ?_, rfl, rfl⟩
    rcases each (s.kindAt 0) with ⟨taken, isName⟩ | ⟨taken, keyword⟩ | missing
    · obtain ⟨text, built⟩ := built_take_opened (names _ (Kind.mem_all _) (.inl isName)) id
      rw [taken, run, built]
      exact .name isName
    · obtain ⟨text, built⟩ := built_take_opened (names _ (Kind.mem_all _) (.inr keyword)) fun _ => .ident
      rw [taken, run, built]
      exact .name rfl
    · rw [missing, run]
      exact .missing
  obtain ⟨name, isPart, isName, built⟩ := part
  refine ⟨tidy_run (Rule.tidy_follow depth) nameRef inType.tidy, ?_⟩
  rw [built]
  refine Parsing.typeParts_reverse_cons inType.flush.parts isPart fun last mem => ⟨.inl (atSign.flush last mem), ?_⟩
  rw [isName]
  exact Kind.noConfusion

/-- A token is eaten, or nothing happens. -/
theorem run_eat (follow : Rule → Parsing → Bool × Parsing) (kind : Kind) (s : Parsing) :
    (eat kind).run follow s = (true, s.take id) ∧ s.kindAt 0 = kind ∨ (eat kind).run follow s = (false, s) := by
  rw [eat, next, nthIs, run, run, Lookahead.holds]
  cases found : s.kindAt 0 == kind with
  | true => exact .inl ⟨rfl, beq_iff_eq.mp found⟩
  | false => exact .inr rfl

/-- A sign in front of a name. -/
theorem inType_branch_eat {kind : Kind} (sign : kind.isTypeSign = true) (notQuestion : kind ≠ .question)
    {yes no : Grammar}
    (onSign : ∀ t : Parsing, t.InType → t.AtSign → (yes.run (Rule.follow depth) t).2.InType)
    (otherwise : (no.run (Rule.follow depth) s).2.InType) (inType : s.InType) :
    ((branch (eat kind) yes no).run (Rule.follow depth) s).2.InType := by
  rw [run]
  rcases run_eat (Rule.follow depth) kind s with ⟨eaten, rfl⟩ | left
  · rw [eaten]
    obtain ⟨taken, atSign⟩ := inType.take sign notQuestion
    exact onSign _ taken atSign
  · rw [left]
    exact otherwise

/-- An alternative of a type consists of parts of types. -/
theorem inType_typeAtom (depth : Nat) {s : Parsing} (inType : s.InType) (atSign : s.AtSign) :
    (Rule.follow depth .typeAtom s).2.InType := by
  induction depth generalizing s with
  | zero => exact inType
  | succ depth ih =>
      show (typeAtom.run (Rule.follow depth) s).2.InType
      refine inType_branch_eat rfl (by decide) (fun t inType atSign => ?_) (inType_nameRef inType atSign) inType
      have first : (Rule.follow depth .typeAtom t).2.InType := ih inType atSign
      have others := @iterate_induction Parsing.InType
        ((branch (eat .amp) (also (call .typeAtom)) stop : Grammar).run (Rule.follow depth))
        (fun t inType => inType_branch_eat rfl (by decide) (fun _ => ih) inType inType)
        ((Rule.follow depth .typeAtom t).2.ahead.length + 1) _ first
      exact inType_branch_eat rfl (by decide) (fun _ inType _ => inType) ⟨others.tidy, others.parts⟩ others

/-- A sign between two alternatives. -/
theorem run_typeJoinAhead (follow : Rule → Parsing → Bool × Parsing) (s : Parsing) :
    (typeJoinAhead.run follow s).2 = s ∧
      ((typeJoinAhead.run follow s).1 = true → s.kindAt 0 = .pipe ∨ s.kindAt 0 = .amp) := by
  simp only [typeJoinAhead, either, both, next, nthIs, run, Lookahead.holds]
  cases bar : s.kindAt 0 == .pipe with
  | true => exact ⟨rfl, fun _ => .inl (beq_iff_eq.mp bar)⟩
  | false =>
      simp only
      cases amp : s.kindAt 0 == .amp with
      | true => exact ⟨rfl, fun _ => .inr (beq_iff_eq.mp amp)⟩
      | false => exact ⟨rfl, fun none => by cases none⟩

/-- What is read in front of the first alternative. -/
theorem inType_question (tidy : s.Tidy) :
    ((eat .question : Grammar).run (Rule.follow depth) s.flush.fresh).2.InType ∧
      ((eat .question : Grammar).run (Rule.follow depth) s.flush.fresh).2.AtSign := by
  have tidied := tidy_run (Rule.tidy_follow depth) (eat .question : Grammar) tidy.opened
  rcases run_eat (Rule.follow depth) .question s.flush.fresh with ⟨eaten, found⟩ | left
  · have isQuestion : s.kindAt 0 = .question := found
    obtain ⟨text, built⟩ := built_take_opened (by rw [isQuestion]; decide) id
    rw [isQuestion] at built
    rw [eaten] at tidied ⊢
    refine ⟨⟨tidied, ?_⟩, ?_⟩
    · rw [built]
      exact ⟨List.forall_mem_singleton.mpr (.sign rfl), .singleton _⟩
    · rw [Parsing.AtSign, built]
      rintro _ ⟨⟩
      rfl
  · rw [left]
    exact ⟨⟨tidy.opened, ⟨List.forall_mem_nil _, .nil⟩⟩, fun _ none => by cases none⟩

/-- A type consists of parts of types. -/
theorem inType_declaredType (tidy : s.Tidy) : ∃ body : Grammar, declaredType = node .type body ∧
    body.yields Kind.isPlainName (fun kind => kind != .type) = true ∧
      (body.run (Rule.follow depth) s.flush.fresh).2.InType := by
  refine ⟨_, rfl, by decide, ?_⟩
  obtain ⟨inType, atSign⟩ := @inType_question depth s tidy
  have first := inType_typeAtom depth inType atSign
  refine @iterate_induction Parsing.InType
    ((branch typeJoinAhead (also (andThen bump (call .typeAtom))) stop : Grammar).run (Rule.follow depth))
    (fun t inType => ?_) _ _ first
  obtain ⟨unchanged, sign⟩ := run_typeJoinAhead (Rule.follow depth) t
  refine branch_cases (P := fun result => result.2.InType) (fun goesOn => ?_) fun _ => ?_
  · rw [unchanged]
    obtain ⟨isSign, notQuestion⟩ : (t.kindAt 0).isTypeSign = true ∧ t.kindAt 0 ≠ .question := by
      rcases sign goesOn with kind | kind <;> rw [kind] <;> decide
    obtain ⟨taken, atSign⟩ := inType.take isSign notQuestion
    exact inType_typeAtom depth taken atSign
  · rw [unchanged]
    exact inType

end Grammar

set_option maxRecDepth 2000 in
/-- Only the rule for types builds types. -/
theorem Rule.yields_ne_type (rule : Rule) (other : rule ≠ .type) :
    rule.production.yields Kind.isPlainName (fun kind => kind != .type) = true := by
  cases rule with
  | type => exact absurd rfl other
  | expression power => exact Grammar.yields_operatorChain rfl (by decide) power
  | _ => decide

/-- Other nodes may have any parts. -/
theorem Typed.of_ne (kind : Kind) (parts : List Tree) (other : (kind != .type) = true) : Typed kind parts :=
  fun isType => absurd isType (bne_iff_ne.mp other)

/-- **All rules build types of parts of types.** -/
theorem Rule.typed_follow (depth : Nat) (rule : Rule) (s : Parsing) (tidy : s.Tidy) (built : s.BuiltWith Typed) :
    (Rule.follow depth rule s).2.BuiltWith Typed := by
  induction depth generalizing rule s with
  | zero => exact built
  | succ depth ih =>
      by_cases isType : rule = .type
      · subst isType
        obtain ⟨body, shape, yields, inType⟩ := @Grammar.inType_declaredType depth s tidy
        have inside := Production.builtWith_run Typed.of_ne (Rule.tidy_follow depth) ih body yields tidy.opened .fresh
        rw [Rule.follow, show Rule.type.production = .node .type body from shape, Production.run]
        exact built.flush.node inside fun _ => inType.parts
      · exact Production.builtWith_run Typed.of_ne (Rule.tidy_follow depth) ih rule.production
          (rule.yields_ne_type isType) tidy built

/-- **In the tree of every text types have parts of types.** -/
theorem Parse.typed_ofTokens (tokens : List Token) : (Parse.ofTokens tokens).tree.Everywhere Typed := by
  let start := Parsing.ofTokens tokens
  let depth := ruleDepth start.ahead.length
  have yields : Grammar.sourceFile.yields Kind.isPlainName (fun kind => kind != .type) = true :=
    Grammar.yields_sourceFile rfl
  have built : (Grammar.sourceFile.run (Rule.follow depth) start).2.BuiltWith Typed :=
    Production.builtWith_run Typed.of_ne (Rule.tidy_follow depth) (Rule.typed_follow depth) Grammar.sourceFile yields
      (Parsing.tidy_split tokens) fun _ mem => absurd mem List.not_mem_nil
  exact .node (Typed.of_ne _ _ rfl) fun part mem => built.flush part (List.mem_reverse.mp mem)

/-! ## (3) The names in a type -/

/-- What the text of a part of a type tells. -/
structure Tree.Written (part : Tree) : Prop where
  /-- A sign begins with a character that no class name has. A bar is nothing more, and a question mark either, unless
  it begins a closing tag. -/
  sign : part.isLeaf = true → ∃ c rest, part.text = c :: rest ∧ isPathCharacter c = false ∧ (c = '|' → rest = []) ∧
    (c = '?' → part.kind = .question ∧ rest = [] ∨ rest = ['>'])
  /-- A name is spelled as it is written. -/
  name : part.isLeaf = false → part.kind = .nameRef ∧ part.nameText = part.text
  /-- It does not begin with a question mark, and has no bar if it begins as a class name can do. -/
  plain : part.isLeaf = false → ∀ c rest, part.text = c :: rest → c ≠ '?' ∧ (isPathCharacter c = true → '|' ∉ part.text)

namespace Cursor

variable {source : Text} {hint part : Cursor}

set_option maxRecDepth 4000 in
/-- The name that a leaf is recorded as. -/
theorem isPath_of_recorded {before : List Token} {t : Token} {kind : Kind} (recorded : Recorded before t kind)
    (isName : kind.isTypeName = true) : t.kind.isPath = true := by
  have names : ∀ kind ∈ Kind.all, kind.isTypeName = true → kind.isPath = true := by decide
  cases recorded with
  | own => exact names _ (Kind.mem_all _) isName
  | reserved keyword => rw [Kind.isPath, Kind.isMemberName, keyword, Bool.or_true, Bool.true_or]
  | relative name _ => rw [Kind.isPath, name, Bool.true_or]

/-- A sign is recorded as it is. -/
theorem kind_eq_of_recorded {before : List Token} {t : Token} {kind : Kind} (recorded : Recorded before t kind)
    (sign : kind.isTypeSign = true) : t.kind = kind := by
  cases recorded with
  | own => rfl
  | reserved _ => cases sign
  | relative _ _ => cases sign

/-- The token of a leaf. -/
theorem exists_token_of_leaf {d : Cursor} (mem : d ∈ (ofText source).elements) {kind : Kind} {text : Text}
    (leaf : d.tree = .leaf kind text) :
    ∃ before, ∃ t ∈ tokenize source, t.text = text ∧ Recorded before t kind := by
  have isLeaf : d.isLeaf = true := by rw [Cursor.isLeaf, leaf]; rfl
  have found := exists_token (List.mem_filter.mpr ⟨mem, isLeaf⟩)
  rwa [text_eq, Cursor.kind, leaf, Tree.text_leaf] at found

set_option maxRecDepth 4000 in
/-- The parts of a type are written as they should be. -/
theorem written_of_mem_children (mem : hint ∈ (ofText source).elements) (isType : hint.kind = .type)
    (inHint : part ∈ hint.children) : part.tree.Written := by
  have node : hint.isLeaf = false := by
    refine Bool.eq_false_iff.mpr fun leaf => ?_
    rw [children_of_isLeaf leaf] at inHint
    cases inHint
  have all : (ofText source).tree.Everywhere Typed := Parse.typed_ofTokens (tokenize source)
  have isPart := ((everywhere_of_mem_elements all mem).here node isType).each _ (tree_mem_of_mem_childrenFrom inHint)
  have inFile := children_subset_elements mem inHint
  generalize written : part.tree = tree at isPart
  -- A part is a sign, a name, or it stands for a name that is missing.
  cases isPart with
  | sign sign =>
      obtain ⟨before, t, inTokens, same, recorded⟩ := exists_token_of_leaf inFile written
      have kind := kind_eq_of_recorded recorded sign
      rw [← kind] at sign ⊢
      have found := Token.exists_sign inTokens sign
      rw [same] at found
      refine ⟨fun _ => ?_, fun node => absurd node.symm Bool.false_ne_true,
        fun node => absurd node.symm Bool.false_ne_true⟩
      rwa [Tree.text_leaf]
  | @name kind text isName =>
      obtain ⟨token, inName, leaf⟩ := exists_mem_childrenFrom (List.mem_singleton_self (Tree.leaf kind text)) part []
        part.start
      have inPart : token ∈ part.children := by rwa [Cursor.children, written]
      obtain ⟨before, t, inTokens, same, recorded⟩ :=
        exists_token_of_leaf (children_subset_elements inFile inPart) leaf
      have isPath := isPath_of_recorded recorded isName
      have silent : kind.isTrivia = false := by
        have names : ∀ kind ∈ Kind.all, kind.isTypeName = true → kind.isTrivia = false := by decide
        exact names _ (Kind.mem_all _) isName
      have spelled : (Tree.node .nameRef [.leaf kind text]).text = text := by
        rw [Tree.text_node, Tree.textOfAll_cons, Tree.textOfAll_nil, Tree.text_leaf, List.append_nil]
      refine ⟨fun leaf => absurd leaf Bool.false_ne_true, fun _ => ⟨rfl, ?_⟩, fun _ c rest begins => ?_⟩
      · rw [spelled, Tree.nameText, Tree.children, List.filter_cons_of_pos, List.filter_nil, List.flatMap_singleton,
          Tree.text_leaf]
        rw [Tree.kind, silent]
        rfl
      · rw [spelled] at begins ⊢
        rw [← same] at begins ⊢
        refine ⟨Token.ne_question inTokens isPath begins, fun path bar => ?_⟩
        rcases Token.isSegmented_text inTokens isPath begins path _ bar with separator | goesOn
        · exact absurd separator (by decide)
        · cases goesOn
  | missing =>
      refine ⟨fun leaf => absurd leaf Bool.false_ne_true, fun _ => ⟨rfl, ?_⟩, fun _ c rest begins => ?_⟩
      · rw [Tree.text_node, Tree.textOfAll_nil]
        rfl
      · rw [Tree.text_node, Tree.textOfAll_nil] at begins
        cases begins

end Cursor

namespace Tree

variable {parts : List Tree} (written : ∀ part ∈ parts, part.Written) (apart : parts.IsChain Precedes)

/-- One name spells itself. -/
theorem names_singleton {name : Tree} {t : Text} (isWritten : name.Written) (node : name.isLeaf = false)
    (text : name.text = t) : (nodesAmong .nameRef [name]).map nameText = [t] := by
  obtain ⟨kind, spelled⟩ := isWritten.name node
  rw [nodesAmong, List.filter_cons_of_pos (by rw [kind, node]; rfl), List.filter_nil, List.map_singleton, spelled, text]

include written apart

/-- Behind a name there is a sign. -/
theorem exists_sign_behind {name next : Tree} {rest : List Tree} (all : parts = name :: next :: rest)
    (node : name.isLeaf = false) :
    next.isLeaf = true ∧ next.kind ≠ .question ∧ ∃ c more, next.text = c :: more ∧ isPathCharacter c = false ∧
      (c = '|' → more = []) ∧ (c = '?' → next.kind = .question ∧ more = [] ∨ more = ['>']) := by
  subst all
  obtain ⟨oneSign, notQuestion⟩ := (List.isChain_cons_cons.mp apart).1
  have leaf : next.isLeaf = true := oneSign.resolve_left (by rw [node]; exact Bool.false_ne_true)
  exact ⟨leaf, notQuestion, (written next (List.mem_cons_of_mem _ List.mem_cons_self)).sign leaf⟩

/-- Where the text begins as a class name can do, a name stands in front. -/
theorem exists_name_in_front {d : Char} {tail : Text} (path : isPathCharacter d = true)
    (text : textOfAll parts = d :: tail) :
    ∃ name rest more, parts = name :: rest ∧ name.isLeaf = false ∧ name.text = d :: more := by
  -- The first sign has no place in front of the name.
  have noSign : ∀ (sign : Tree) (others : List Tree) (c : Char) (more : Text), sign.text = c :: more →
      isPathCharacter c = false → textOfAll (sign :: others) ≠ d :: tail := by
    intro sign others c more begins plain same
    rw [textOfAll_cons, begins] at same
    obtain ⟨rfl, -⟩ := List.cons.inj same
    rw [path] at plain
    cases plain
  rcases parts with _ | ⟨name, rest⟩
  · cases text
  by_cases leaf : name.isLeaf = true
  · obtain ⟨c, more, begins, plain, -⟩ := (written name List.mem_cons_self).sign leaf
    exact absurd text (noSign name rest c more begins plain)
  · have node := Bool.eq_false_iff.mpr leaf
    rcases spelled : name.text with _ | ⟨c, more⟩
    · rw [textOfAll_cons, spelled, List.nil_append] at text
      rcases rest with _ | ⟨next, rest⟩
      · cases text
      · obtain ⟨-, -, c, more, begins, plain, -⟩ := exists_sign_behind written apart rfl node
        exact absurd text (noSign next rest c more begins plain)
    · rw [textOfAll_cons, spelled] at text
      obtain ⟨rfl, -⟩ := List.cons.inj text
      exact ⟨name, rest, more, rfl, node, spelled⟩

/-- **A type that is spelled as a name has this name.** -/
theorem names_of_plain {t : Text} (path : ∀ c ∈ t, isPathCharacter c = true) (ne : t ≠ [])
    (text : textOfAll parts = t) : (nodesAmong .nameRef parts).map nameText = [t] := by
  obtain ⟨d, tail, rfl⟩ := List.exists_cons_of_ne_nil ne
  obtain ⟨name, rest, more, rfl, node, -⟩ :=
    exists_name_in_front written apart (path d List.mem_cons_self) text
  rcases rest with _ | ⟨next, rest⟩
  · rw [textOfAll_cons, textOfAll_nil, List.append_nil] at text
    exact names_singleton (written name List.mem_cons_self) node text
  · obtain ⟨-, -, c, more, begins, plain, -⟩ := exists_sign_behind written apart rfl node
    have inText : c ∈ d :: tail := by
      rw [← text, textOfAll_cons, textOfAll_cons, begins]
      exact List.mem_append_right _ (List.mem_append_left _ List.mem_cons_self)
    rw [path c inText] at plain
    cases plain

/-- **A type that is spelled as a question mark and a name has this name.** -/
theorem names_of_nullable {t : Text} (path : ∀ c ∈ t, isPathCharacter c = true) (ne : t ≠ [])
    (text : textOfAll parts = '?' :: t) : (nodesAmong .nameRef parts).map nameText = [t] := by
  -- The question mark is no part of a closing tag, because its other character is in no name.
  have noTag : ∀ (sign : Tree) (others : List Tree), sign.text = ['?', '>'] →
      textOfAll (sign :: others) ≠ '?' :: t := by
    intro sign others tag same
    rw [textOfAll_cons, tag] at same
    have inText : '>' ∈ t := by
      rw [← (List.cons.inj same).2]
      exact List.mem_cons_self
    exact absurd (path _ inText) (by decide)
  rcases parts with _ | ⟨first, rest⟩
  · cases text
  by_cases leaf : first.isLeaf = true
  · obtain ⟨c, more, begins, -, -, question⟩ := (written first List.mem_cons_self).sign leaf
    have whole := text
    rw [textOfAll_cons, begins] at text
    obtain ⟨rfl, behind⟩ := List.cons.inj text
    rcases question rfl with ⟨-, rfl⟩ | rfl
    · rw [nodesAmong_cons_leaf leaf]
      exact names_of_plain (fun part mem => written part (List.mem_cons_of_mem _ mem)) apart.tail path ne behind
    · exact absurd whole (noTag first rest begins)
  · have node := Bool.eq_false_iff.mpr leaf
    rcases spelled : first.text with _ | ⟨c, more⟩
    · rw [textOfAll_cons, spelled, List.nil_append] at text
      rcases rest with _ | ⟨next, rest⟩
      · cases text
      · obtain ⟨-, notQuestion, c, more, begins, -, -, question⟩ := exists_sign_behind written apart rfl node
        have whole := text
        rw [textOfAll_cons, begins] at text
        obtain ⟨rfl, -⟩ := List.cons.inj text
        rcases question rfl with ⟨isQuestion, -⟩ | rfl
        · exact absurd isQuestion notQuestion
        · exact absurd whole (noTag next rest begins)
    · rw [textOfAll_cons, spelled] at text
      obtain ⟨rfl, -⟩ := List.cons.inj text
      exact absurd rfl ((written first List.mem_cons_self).plain node '?' more spelled).1

/-- **A type that is spelled as two names with a bar in between has these names.** -/
theorem names_of_union {t word : Text} (path : ∀ c ∈ t, isPathCharacter c = true) (ne : t ≠ [])
    (path' : ∀ c ∈ word, isPathCharacter c = true) (ne' : word ≠ []) (text : textOfAll parts = t ++ '|' :: word) :
    (nodesAmong .nameRef parts).map nameText = [t, word] := by
  obtain ⟨d, tail, rfl⟩ := List.exists_cons_of_ne_nil ne
  obtain ⟨name, rest, more, rfl, node, spelled⟩ :=
    exists_name_in_front written apart (path d List.mem_cons_self) text
  have isWritten := written name List.mem_cons_self
  have noBar := (isWritten.plain node d more spelled).2 (path d List.mem_cons_self)
  rcases rest with _ | ⟨next, rest⟩
  · -- The name would have the bar.
    rw [textOfAll_cons, textOfAll_nil, List.append_nil] at text
    rw [text] at noBar
    exact absurd (List.mem_append_right _ List.mem_cons_self) noBar
  obtain ⟨leaf, -, c, more', begins, plain, bar, -⟩ := exists_sign_behind written apart rfl node
  rw [textOfAll_cons, textOfAll_cons, begins, List.cons_append] at text
  -- The name ends where the first character stands that is in no name, and that is the bar.
  obtain ⟨same, rfl, behind⟩ : name.text = d :: tail ∧ c = '|' ∧ more' ++ textOfAll rest = word := by
    rcases List.append_eq_append_iff.mp text with ⟨between, whole, other⟩ | ⟨between, whole, other⟩
    · rcases between with _ | ⟨e, between⟩
      · rw [List.append_nil] at whole
        exact ⟨whole.symm, List.cons.inj other⟩
      · obtain ⟨rfl, -⟩ := List.cons.inj other
        have inText : c ∈ d :: tail := by
          rw [whole]
          exact List.mem_append_right _ List.mem_cons_self
        rw [path c inText] at plain
        cases plain
    · rcases between with _ | ⟨e, between⟩
      · rw [List.append_nil] at whole
        obtain ⟨isBar, behind⟩ := List.cons.inj other
        exact ⟨whole, isBar.symm, behind.symm⟩
      · obtain ⟨rfl, -⟩ := List.cons.inj other
        rw [whole] at noBar
        exact absurd (List.mem_append_right _ List.mem_cons_self) noBar
  rw [bar rfl, List.nil_append] at behind
  have later : ∀ part ∈ rest, part.Written :=
    fun part mem => written part (List.mem_cons_of_mem _ (List.mem_cons_of_mem _ mem))
  have others := names_of_plain later apart.tail.tail path' ne' behind
  have first := names_singleton isWritten node same
  rw [← List.singleton_append, nodesAmong_append, List.map_append, first, nodesAmong_cons_leaf leaf, others]
  rfl

end Tree

/-- The parts of a type, and their text. -/
theorem Cursor.written_children {source : Text} {hint : Cursor} (mem : hint ∈ (ofText source).elements)
    (isType : hint.kind = .type) (node : hint.isLeaf = false) :
    (∀ part ∈ hint.tree.children, part.Written) ∧ hint.tree.children.IsChain Tree.Precedes ∧
      Tree.textOfAll hint.tree.children = hint.text := by
  have all : (ofText source).tree.Everywhere Typed := Parse.typed_ofTokens (tokenize source)
  refine ⟨fun part inParts => ?_, ((everywhere_of_mem_elements all mem).here node isType).apart, ?_⟩
  · obtain ⟨place, inHint, rfl⟩ := exists_mem_childrenFrom inParts hint [] hint.start
    exact written_of_mem_children mem isType inHint
  · rw [text_eq]
    cases tree : hint.tree with
    | leaf kind text =>
        rw [Cursor.isLeaf, tree] at node
        cases node
    | node kind parts => rw [Tree.text_node, Tree.children]

end PhpMembers
