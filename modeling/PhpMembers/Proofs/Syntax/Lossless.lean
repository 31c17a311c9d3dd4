import PhpMembers.Proofs.Syntax.Leaves
import PhpMembers.Proofs.Syntax.Progress
import PhpMembers.Proofs.Syntax.Tokens

/-! # A syntax tree keeps every token

The leaves of the tree of a file are its tokens, each once and in order, whatever damage the parser had to
skip. A leaf has the kind of its token with two exceptions: a reserved word that is used as a name is
recorded as an identifier, and a name after `namespace` and a separator as a qualified name.

* `Recorded`, `Records` : the leaves that stand for a list of tokens.
* `Reads` : what a parse has moved from the tokens into the tree.
* `Moves.reads` : every change of a parse moves tokens and loses none.
* `parse_lossless` : the tree of a text records all its tokens. -/

namespace PhpMembers

/-! ## (1) Leaves that stand for tokens -/

/-- The kinds of the tokens that are not trivia, latest first. -/
def kindsRead (tokens : List Token) : List Kind :=
  ((tokens.filter fun t => !t.isTrivia).map Token.kind).reverse

/-- The kinds under which a token may stand in the tree, from all tokens before it. -/
inductive Recorded (before : List Token) (t : Token) : Kind → Prop
  /-- Its own kind. -/
  | own : Recorded before t t.kind
  /-- A reserved word is recorded as an identifier where it is used as a name. -/
  | reserved (keyword : t.kind.isKeyword = true) : Recorded before t .ident
  /-- An identifier or reserved word after `namespace` and a separator is recorded as a qualified name. -/
  | relative (name : t.kind.isMemberName = true)
      (after : (kindsRead before).take 2 = [.backslash, .namespaceKw]) :
      Recorded before t .qualifiedName

/-- `Records before tokens leaves`: the leaves stand for the tokens, one for one and in order, when the
tokens `before` stand in front of them. -/
inductive Records : List Token → List Token → List (Kind × Text) → Prop
  /-- No leaf stands for no token. -/
  | nil {before : List Token} : Records before [] []
  /-- The first leaf has the text of the first token. -/
  | cons {before tokens : List Token} {t : Token} {kind : Kind} {leaves : List (Kind × Text)}
      (first : Recorded before t kind) (rest : Records (before ++ [t]) tokens leaves) :
      Records before (t :: tokens) ((kind, t.text) :: leaves)

theorem kindsRead_append (tokens others : List Token) :
    kindsRead (tokens ++ others) = kindsRead others ++ kindsRead tokens := by
  rw [kindsRead, List.filter_append, List.map_append, List.reverse_append, kindsRead, kindsRead]

/-- Trivia does not count as read. -/
theorem kindsRead_trivia {tokens : List Token} (trivia : ∀ t ∈ tokens, t.isTrivia = true) :
    kindsRead tokens = [] := by
  have none : tokens.filter (fun t => !t.isTrivia) = [] := by
    rw [List.filter_eq_nil_iff]
    intro t mem
    rw [trivia t mem]
    decide
  rw [kindsRead, none]
  rfl

namespace Records

/-- Leaves for tokens, followed by leaves for the tokens after them. -/
theorem append {before tokens others : List Token} {leaves more : List (Kind × Text)}
    (first : Records before tokens leaves) (second : Records (before ++ tokens) others more) :
    Records before (tokens ++ others) (leaves ++ more) := by
  induction first with
  | nil =>
      rw [List.append_nil] at second
      exact second
  | cons recorded _ ih =>
      rw [List.append_cons] at second
      exact .cons recorded (ih second)

/-- Tokens recorded as they are. -/
theorem own (before tokens : List Token) :
    Records before tokens (tokens.map fun t => (t.kind, t.text)) := by
  induction tokens generalizing before with
  | nil => exact .nil
  | cons t tokens ih => exact .cons .own (ih (before ++ [t]))

/-- The leaves have the texts of the tokens. -/
theorem texts_eq {before tokens : List Token} {leaves : List (Kind × Text)}
    (records : Records before tokens leaves) : leaves.map (·.2) = tokens.map Token.text := by
  induction records with
  | nil => rfl
  | cons _ _ ih => rw [List.map_cons, List.map_cons, ih]

/-- Each leaf stands for some token. -/
theorem exists_token {before tokens : List Token} {leaves : List (Kind × Text)}
    (records : Records before tokens leaves) {kind : Kind} {text : Text}
    (mem : (kind, text) ∈ leaves) :
    ∃ earlier, ∃ t ∈ tokens, t.text = text ∧ Recorded earlier t kind := by
  induction records with
  | nil => cases mem
  | @cons before tokens t _ _ recorded _ ih =>
      rcases List.mem_cons.mp mem with same | mem
      · obtain ⟨rfl, rfl⟩ := Prod.mk.inj same
        exact ⟨before, t, List.mem_cons_self, rfl, recorded⟩
      · obtain ⟨earlier, u, inTokens, text, recorded⟩ := ih mem
        exact ⟨earlier, u, List.mem_cons_of_mem _ inTokens, text, recorded⟩

end Records

/-! ## (2) Moving tokens into the tree -/

namespace Parsing

/-- The tokens that are left to read, trivia included. -/
def rest (s : Parsing) : List Token := s.gap ++ s.ahead.flatMap fun l => l.token :: l.after

/-- The tokens ahead are not trivia, and all tokens between them are. -/
def Tidy (s : Parsing) : Prop :=
  (∀ t ∈ s.gap, t.isTrivia = true) ∧
    ∀ l ∈ s.ahead, l.token.isTrivia = false ∧ ∀ t ∈ l.after, t.isTrivia = true

/-- The finished parts of the open construct, as leaves. -/
def leaves (s : Parsing) : List (Kind × Text) := Tree.leavesOfAll s.built.reverse

/-- Splitting tokens loses none. -/
theorem split_eq (tokens : List Token) :
    (split tokens).1 ++ (split tokens).2.flatMap (fun l => l.token :: l.after) = tokens := by
  induction tokens with
  | nil => rfl
  | cons t tokens ih =>
      rw [split]
      split
      · rw [List.cons_append, ih]
      · rw [List.nil_append, List.flatMap_cons, List.cons_append, ih]

/-- Splitting tokens tells trivia from other tokens. -/
theorem tidy_split (tokens : List Token) :
    (∀ t ∈ (split tokens).1, t.isTrivia = true) ∧
      ∀ l ∈ (split tokens).2, l.token.isTrivia = false ∧ ∀ t ∈ l.after, t.isTrivia = true := by
  induction tokens with
  | nil => exact ⟨fun _ mem => absurd mem List.not_mem_nil, fun _ mem => absurd mem List.not_mem_nil⟩
  | cons t tokens ih =>
      rw [split]
      split
      · rename_i trivia
        exact ⟨List.forall_mem_cons.mpr ⟨trivia, ih.1⟩, ih.2⟩
      · rename_i notTrivia
        refine ⟨fun _ mem => absurd mem List.not_mem_nil, List.forall_mem_cons.mpr ⟨?_, ih.2⟩⟩
        exact ⟨Bool.eq_false_iff.mpr notTrivia, ih.1⟩

end Parsing

/-- `Reads before s after t`: when the tokens `before` have been read at `s`, those `after` have been read at
`t`, and leaves for the tokens in between have been built. -/
def Reads (before : List Token) (s : Parsing) (after : List Token) (t : Parsing) : Prop :=
  ∃ taken new, after = before ++ taken ∧ s.rest = taken ++ t.rest ∧ t.leaves = s.leaves ++ new ∧
    Records before taken new

namespace Reads

variable {before middle after : List Token} {s t u : Parsing}

/-- Nothing has been read. -/
theorem refl (sameRest : s.rest = t.rest) (sameLeaves : t.leaves = s.leaves) :
    Reads before s before t :=
  ⟨[], [], (List.append_nil before).symm, sameRest, by rw [sameLeaves, List.append_nil], .nil⟩

/-- Reading one after the other. -/
theorem trans (first : Reads before s middle t) (second : Reads middle t after u) :
    Reads before s after u := by
  obtain ⟨taken₁, new₁, rfl, rest₁, leaves₁, records₁⟩ := first
  obtain ⟨taken₂, new₂, rfl, rest₂, leaves₂, records₂⟩ := second
  refine ⟨taken₁ ++ taken₂, new₁ ++ new₂, ?_, ?_, ?_, records₁.append records₂⟩
  · rw [List.append_assoc]
  · rw [rest₁, rest₂, List.append_assoc]
  · rw [leaves₂, leaves₁, List.append_assoc]

/-- The trivia in front of the next token is recorded as it is. -/
theorem flush (before : List Token) (s : Parsing) : Reads before s (before ++ s.gap) s.flush := by
  refine ⟨s.gap, s.gap.map fun t => (t.kind, t.text), rfl, rfl, ?_, Records.own before s.gap⟩
  have own : Tree.leavesOfAll (s.gap.map Token.leaf) = s.gap.map fun t => (t.kind, t.text) := by
    induction s.gap with
    | nil => rw [List.map_nil, Tree.leavesOfAll_nil, List.map_nil]
    | cons t gap ih =>
        rw [List.map_cons, Tree.leavesOfAll_cons, ih, Token.leaf, Tree.leaves_leaf, List.map_cons,
          List.singleton_append]
  rw [Parsing.leaves, Parsing.flush, List.reverse_append, List.reverse_reverse,
    Tree.leavesOfAll_append, own, Parsing.leaves]

/-- What is read inside a construct is read by the parse around it. -/
theorem inside (parts : List Tree) (inner : Reads before s.fresh after t)
    (sameLeaves : Tree.leavesOfAll parts.reverse = t.leaves) :
    Reads before s after { t with built := parts ++ s.built } := by
  obtain ⟨taken, new, rfl, rest, leaves, records⟩ := inner
  refine ⟨taken, new, rfl, rest, ?_, records⟩
  have new_eq : t.leaves = new := by simpa [Parsing.leaves, Parsing.fresh] using leaves
  rw [Parsing.leaves, List.reverse_append, Tree.leavesOfAll_append, sameLeaves, new_eq, Parsing.leaves]

end Reads

/-- The kind under which a token may be recorded, from what was read. -/
theorem Recorded.of_mayRecord {before : List Token} {t : Token} {kind : Kind} {o : Outlook}
    (read : kindsRead before = o.past) (next : o.kindAt 0 = t.kind) (may : o.MayRecord kind) :
    Recorded before t kind := by
  rw [Outlook.MayRecord, next, ← read] at may
  rcases may with own | ⟨rfl, name⟩ | ⟨rfl, name, after⟩
  · rw [own]
    exact .own
  · have name : (t.kind == .ident || t.kind.isKeyword) = true := name
    rw [Bool.or_eq_true, beq_iff_eq] at name
    rcases name with ident | keyword
    · rw [← ident]
      exact .own
    · exact .reserved keyword
  · exact .relative name after

namespace Parsing.Tidy

variable {s : Parsing} {past : List Kind} {before : List Token}

/-- Nothing that counts stands in front of the next token. -/
theorem kindsRead_gap (tidy : s.Tidy) (read : kindsRead before = past) :
    kindsRead (before ++ s.gap) = past := by
  rw [kindsRead_append, kindsRead_trivia tidy.1, List.nil_append, read]

/-- Opening a construct leaves the tokens ahead alone. -/
theorem opened (tidy : s.Tidy) : s.flush.fresh.Tidy :=
  ⟨fun _ mem => absurd mem List.not_mem_nil, tidy.2⟩

/-- Taking a token records it and the trivia in front of it. -/
theorem reads_take (tidy : s.Tidy) (read : kindsRead before = past) {next : Lexeme}
    {rest : List Lexeme} {kind : Kind} (ahead : s.ahead = next :: rest)
    (may : (s.outlook past).MayRecord kind) :
    ∃ after, Reads before s after (s.take fun _ => kind) ∧
      kindsRead after = next.token.kind :: past ∧ (s.take fun _ => kind).Tidy := by
  have significant : next.token.isTrivia = false ∧ ∀ t ∈ next.after, t.isTrivia = true :=
    tidy.2 next (by rw [ahead]; exact List.mem_cons_self)
  have taken := Parsing.take_eq (fun _ => kind) ahead
  -- The trivia in front comes first and is recorded as it is; the token may get another kind.
  refine ⟨before ++ s.gap ++ [next.token], (Reads.flush before s).trans ?_, ?_, ?_⟩
  · refine ⟨[next.token], [(kind, next.token.text)], rfl, ?_, ?_, ?_⟩
    · rw [taken]
      simp [Parsing.rest, Parsing.flush, ahead]
    · rw [taken]
      simp [Parsing.leaves]
    · refine .cons (.of_mayRecord (tidy.kindsRead_gap read) ?_ may) .nil
      rw [Parsing.kindAt_outlook, Parsing.kindAt, ahead]
      rfl
  · have single : kindsRead [next.token] = [next.token.kind] := by
      simp [kindsRead, significant.1]
    rw [kindsRead_append, single, tidy.kindsRead_gap read, List.singleton_append]
  · rw [taken]
    refine ⟨significant.2, fun l mem => tidy.2 l ?_⟩
    rw [ahead]
    exact List.mem_cons_of_mem _ mem

end Parsing.Tidy

/-- **Every change of a parse moves tokens into the tree and loses none.** -/
theorem Moves.reads {past past' : List Kind} {s t : Parsing} (move : Moves past s past' t)
    (tidy : s.Tidy) {before : List Token} (read : kindsRead before = past) :
    ∃ after, Reads before s after t ∧ kindsRead after = past' ∧ t.Tidy := by
  -- The induction is on the move. What was read before it differs from case to case.
  induction move generalizing before with
  | stay => exact ⟨before, .refl rfl rfl, read, tidy⟩
  | trans _ _ ih₁ ih₂ =>
      obtain ⟨middle, reads₁, read₁, tidy₁⟩ := ih₁ tidy read
      obtain ⟨after, reads₂, read₂, tidy₂⟩ := ih₂ tidy₁ read₁
      exact ⟨after, reads₁.trans reads₂, read₂, tidy₂⟩
  | @flush past s =>
      exact ⟨before ++ s.gap, .flush before s, tidy.kindsRead_gap read, tidy.opened⟩
  | take ahead may => exact tidy.reads_take read ahead may
  | report => exact ⟨before, .refl rfl rfl, read, tidy⟩
  | @node past past' s t kind _ ih =>
      obtain ⟨after, reads, read', tidy'⟩ := ih tidy.opened (tidy.kindsRead_gap read)
      have inside := reads.inside [.node kind t.built.reverse] (by simp [Parsing.leaves])
      exact ⟨after, (Reads.flush before s).trans inside, read', tidy'⟩
  | @group past past' s t _ ih =>
      obtain ⟨after, reads, read', tidy'⟩ := ih tidy.opened (tidy.kindsRead_gap read)
      have inside := reads.inside t.built rfl
      exact ⟨after, (Reads.flush before s).trans inside, read', tidy'⟩
  | wrap => exact ⟨before, .refl rfl (by simp [Parsing.leaves]), read, tidy⟩

/-! ## (3) The whole file -/

/-- Parsing tokens records all of them. -/
theorem Parse.records_ofTokens (tokens : List Token) :
    Records [] tokens (ofTokens tokens).tree.leaves := by
  let start := Parsing.ofTokens tokens
  let depth := ruleDepth start.ahead.length
  have tidy : start.Tidy := Parsing.tidy_split tokens
  have guarded : Grammar.sourceFile.Guarded Rule.Ready fun _ => True := Grammar.guarded_sourceFile
  obtain ⟨past', move⟩ := Grammar.run_moves guarded depth [] start
  have all := move.trans .flush
  have nothingRead : kindsRead [] = [] := rfl
  obtain ⟨after, ⟨taken, leaves, -, rest, leaves_eq, records⟩, -, -⟩ := all.reads tidy nothingRead
  have nothingLeft := Grammar.sourceFile_atEnd depth start
  -- Nothing is left to read, so all tokens were taken.
  have taken_eq : taken = tokens := by
    have left : (Grammar.sourceFile.run (Rule.follow depth) start).2.flush.rest = [] := by
      rw [Parsing.rest, Parsing.flush, nothingLeft]
      rfl
    have start_rest : start.rest = tokens := Parsing.split_eq tokens
    rw [left, List.append_nil, start_rest] at rest
    exact rest.symm
  have root : (ofTokens tokens).tree.leaves = leaves := by
    rw [ofTokens, Tree.leaves_node]
    have built : start.leaves = [] := Tree.leavesOfAll_nil
    rw [built, List.nil_append] at leaves_eq
    exact leaves_eq
  rw [root, ← taken_eq]
  exact records

/-- The text of the tree of a source is the source. -/
theorem Parse.text_ofText (source : Text) : (Parse.ofText source).tree.text = source := by
  have records : Records [] (tokenize source) (Parse.ofText source).tree.leaves :=
    Parse.records_ofTokens (tokenize source)
  rw [Tree.text, List.flatMap_def, records.texts_eq, ← List.flatMap_def]
  exact tokenizeFrom_texts 0 source

/-- **A syntax tree keeps every token of its text.** The root is a node of kind `Kind.sourceFile`. Its leaves
have the texts of the tokens, one for one and in order; each has the kind of its token, apart from reserved
words recorded as identifiers and names after `namespace` and a separator recorded as qualified names. So the
text of the tree is the source. -/
theorem parse_lossless (source : Text) :
    (∃ parts, (Parse.ofText source).tree = .node .sourceFile parts) ∧
      Records [] (tokenize source) (Parse.ofText source).tree.leaves ∧
      (Parse.ofText source).tree.leaves.map (·.2) = (tokenize source).map Token.text ∧
      (Parse.ofText source).tree.text = source := by
  have records : Records [] (tokenize source) (Parse.ofText source).tree.leaves :=
    Parse.records_ofTokens (tokenize source)
  exact ⟨⟨_, rfl⟩, records, records.texts_eq, Parse.text_ofText source⟩

end PhpMembers
