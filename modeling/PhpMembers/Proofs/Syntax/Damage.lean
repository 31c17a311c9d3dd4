import PhpMembers.Proofs.Syntax.Lossless
import PhpMembers.Proofs.Syntax.Naming
import PhpMembers.Proofs.Syntax.Places
import PhpMembers.Proofs.Syntax.Trivia
import PhpMembers.Search.Find

/-! # Syntax errors locate the damage

A fault is reported at the next token, and tokens are taken in order, so the errors of a parse come in the order of
the text. An error node begins at the next token, too, and it is opened only when a fault has been reported there.
The tokens of a text lie side by side, so the offsets in the tree are those of the tokens.

* `Tiled` : tokens that lie side by side.
* `Parsing.Orderly` : the errors so far are in order, and each is at a token or at the end.
* `Tree.errorStarts` : the offsets at which the error nodes of a tree begin.
* `Production.notes`, `Production.blames` : whether a fault is reported in front of each error node.
* `Parsing.Standing`, `Production.standing_run` : so an error begins where an error node begins.
* `syntaxErrors_locate` : the errors and the error nodes of a text. -/

namespace PhpMembers

/-! ## (1) Tokens side by side -/

/-- The offset at which the first token starts; without one, the end of the text. -/
def startOf (stop : Nat) : List Token → Nat
  | [] => stop
  | t :: _ => t.start

/-- Each token stops where the next one starts, and the last one at the end of the text. -/
def Tiled (stop : Nat) : List Token → Prop
  | [] => True
  | t :: ts => t.stop = startOf stop ts ∧ Tiled stop ts

namespace Tiled

variable {stop : Nat} {front tokens : List Token}

/-- The last tokens lie side by side if all do. -/
theorem behind (tiled : Tiled stop (front ++ tokens)) : Tiled stop tokens := by
  induction front with
  | nil => exact tiled
  | cons t front ih => exact ih tiled.2

/-- The offset behind the first tokens is the offset in front of them and their length. -/
theorem startOf_append (tiled : Tiled stop (front ++ tokens)) :
    startOf stop (front ++ tokens) + Tree.lengthOfAll (front.map Token.leaf) = startOf stop tokens := by
  induction front with
  | nil => rw [List.map_nil, Tree.lengthOfAll, List.nil_append, Nat.add_zero]
  | cons t front ih =>
      have first : startOf stop (t :: (front ++ tokens)) + t.leaf.length = startOf stop (front ++ tokens) := tiled.1
      rw [List.map_cons, Tree.lengthOfAll, ← Nat.add_assoc, List.cons_append, first]
      exact ih tiled.2

/-- The last token stops at the end of the text. -/
theorem getLast_stop (tiled : Tiled stop tokens) {t : Token} (last : tokens.getLast? = some t) : t.stop = stop := by
  induction tokens with
  | nil => cases last
  | cons u tokens ih =>
      cases tokens with
      | nil =>
          obtain rfl : u = t := Option.some.inj last
          exact tiled.1
      | cons v tokens =>
          rw [List.getLast?_cons_cons] at last
          exact ih tiled.2 last

end Tiled

/-- The tokens of a text lie side by side, and the first one starts where the text does. -/
theorem tiled_tokenizeFrom (offset : Nat) (source : Text) :
    Tiled (offset + utf8Length source) (tokenizeFrom offset source) ∧
      startOf (offset + utf8Length source) (tokenizeFrom offset source) = offset := by
  induction offset, source using tokenizeFrom.induct with
  | case1 offset =>
      rw [tokenizeFrom]
      exact ⟨trivial, by rw [utf8Length_nil]; rfl⟩
  | case2 offset c cs found text ih =>
      have all : text ++ cs.drop found.2 = c :: cs := by
        rw [List.cons_append, List.take_append_drop]
      have stop : offset + utf8Length text + utf8Length (cs.drop found.2) = offset + utf8Length (c :: cs) := by
        rw [← all, utf8Length_append, Nat.add_assoc]
      rw [stop] at ih
      rw [tokenizeFrom]
      exact ⟨⟨ih.2.symm, ih.1⟩, rfl⟩

/-! ## (2) The errors in order -/

namespace Parsing

variable {s t : Parsing}

/-- The offset behind what has been put into the tree. -/
def place (s : Parsing) : Nat := startOf s.stop s.rest

/-- Without trivia in front, a parse stands at the next token. -/
theorem place_flush (s : Parsing) : s.flush.place = s.here.start := by
  rw [place, rest, flush, here]
  cases s.ahead <;> rfl

/-- The tokens left lie side by side when the trivia in front of them is put into the tree. -/
theorem tiled_flush (tiled : Tiled s.stop s.rest) : Tiled s.flush.stop s.flush.rest :=
  tiled.behind

/-- The trivia in front of the next token reaches up to that token. -/
theorem place_gap (tiled : Tiled s.stop s.rest) :
    s.place + Tree.lengthOfAll (s.gap.map Token.leaf) = s.here.start := by
  rw [← place_flush]
  exact tiled.startOf_append

/-- The next token lies behind what has been put into the tree. -/
theorem place_le (tiled : Tiled s.stop s.rest) : s.place ≤ s.here.start := by
  rw [← place_gap tiled]
  exact Nat.le_add_right _ _

/-- When a token is taken, the parse stands behind it, and the tokens left lie side by side. -/
theorem tiled_take (tiled : Tiled s.stop s.rest) (rename : Kind → Kind) {next : Lexeme} {rest : List Lexeme}
    (ahead : s.ahead = next :: rest) :
    Tiled (s.take rename).stop (s.take rename).rest ∧ (s.take rename).place = next.token.stop := by
  have flushed := tiled_flush tiled
  rw [take_eq rename ahead]
  rw [Parsing.rest, flush, ahead] at flushed
  exact ⟨flushed.2, flushed.1.symm⟩

/-- The range of a token that is not trivia, or the empty range at the end of the text. -/
def Locates (tokens : List Token) (stop : Nat) (span : Span) : Prop :=
  (∃ t ∈ tokens, t.isTrivia = false ∧ span = t.span) ∨ span = ⟨stop, stop⟩

/-- The errors so far are in the order of the text, and each is at a token or at the end. -/
structure Orderly (tokens : List Token) (stop : Nat) (s : Parsing) : Prop where
  /-- The end of the text stays where it is. -/
  ends : s.stop = stop
  /-- The tokens left lie side by side. -/
  tiled : Tiled s.stop s.rest
  /-- The tokens ahead are among the tokens of the text and are not trivia. -/
  ahead : ∀ l ∈ s.ahead, l.token ∈ tokens ∧ l.token.isTrivia = false
  /-- Each error is at a token or at the end. -/
  located : ∀ e ∈ s.errors, Locates tokens stop e.span
  /-- No error lies behind the next token. -/
  noticed : ∀ e ∈ s.errors, e.span.start ≤ s.here.start
  /-- A later error does not lie in front of an earlier one. -/
  order : s.errors.Pairwise fun later earlier => earlier.span.start ≤ later.span.start

namespace Orderly

variable {tokens : List Token} {stop : Nat}

/-- An error is noticed at a token or at the end. -/
theorem locates_here (orderly : s.Orderly tokens stop) : Locates tokens stop s.here := by
  rw [here]
  split
  · rename_i l rest ahead
    obtain ⟨mem, significant⟩ := orderly.ahead l (by rw [ahead]; exact List.mem_cons_self)
    exact .inl ⟨l.token, mem, significant, rfl⟩
  · rw [orderly.ends]
    exact .inr rfl

/-- Reporting a fault keeps the errors in order. -/
theorem report (orderly : s.Orderly tokens stop) (fault : Fault) : (s.report fault).Orderly tokens stop where
  ends := orderly.ends
  tiled := orderly.tiled
  ahead := orderly.ahead
  located := List.forall_mem_cons.mpr ⟨orderly.locates_here, orderly.located⟩
  noticed := List.forall_mem_cons.mpr ⟨Nat.le_refl _, orderly.noticed⟩
  order := List.pairwise_cons.mpr ⟨orderly.noticed, orderly.order⟩

/-- Putting trivia into the tree keeps the errors in order. -/
theorem flush (orderly : s.Orderly tokens stop) : s.flush.Orderly tokens stop where
  ends := orderly.ends
  tiled := tiled_flush orderly.tiled
  ahead := orderly.ahead
  located := orderly.located
  noticed := orderly.noticed
  order := orderly.order

/-- Taking a token keeps the errors in order: the token after it lies behind it. -/
theorem take (orderly : s.Orderly tokens stop) (rename : Kind → Kind) : (s.take rename).Orderly tokens stop := by
  cases ahead : s.ahead with
  | nil =>
      rw [take_of_nil rename ahead]
      exact orderly.flush
  | cons next rest =>
      obtain ⟨tiled, place⟩ := tiled_take orderly.tiled rename ahead
      have later : s.here.start ≤ (s.take rename).here.start := by
        calc s.here.start = next.token.start := by rw [here, ahead]; rfl
          _ ≤ next.token.stop := Nat.le_add_right _ _
          _ = (s.take rename).place := place.symm
          _ ≤ (s.take rename).here.start := place_le tiled
      have errors : (s.take rename).errors = s.errors := s.errors_take rename
      refine ⟨?_, tiled, ?_, ?_, ?_, ?_⟩
      · rw [take_eq rename ahead]
        exact orderly.ends
      · rw [s.ahead_take rename]
        exact fun l mem => orderly.ahead l (List.mem_of_mem_tail mem)
      · rw [errors]
        exact orderly.located
      · rw [errors]
        exact fun e mem => (orderly.noticed e mem).trans later
      · rw [errors]
        exact orderly.order

/-- What has been built does not matter for the errors. -/
theorem withBuilt (orderly : s.Orderly tokens stop) (built : List Tree) :
    { s with built := built }.Orderly tokens stop where
  ends := orderly.ends
  tiled := orderly.tiled
  ahead := orderly.ahead
  located := orderly.located
  noticed := orderly.noticed
  order := orderly.order

/-- The errors are in order when a parse begins. -/
theorem ofTokens {stop : Nat} {tokens : List Token} (tiled : Tiled stop tokens)
    (last : (Parsing.ofTokens tokens).stop = stop) : (Parsing.ofTokens tokens).Orderly tokens stop where
  ends := last
  tiled := by
    have rest : (Parsing.ofTokens tokens).rest = tokens := split_eq tokens
    rw [last, rest]
    exact tiled
  ahead l mem := by
    have rest : (Parsing.ofTokens tokens).rest = tokens := split_eq tokens
    refine ⟨?_, ((tidy_split tokens).2 l mem).1⟩
    rw [← rest, Parsing.rest]
    exact List.mem_append_right _ (List.mem_flatMap.mpr ⟨l, mem, List.mem_cons_self⟩)
  located := List.forall_mem_nil _
  noticed := List.forall_mem_nil _
  order := .nil

end Orderly

end Parsing

/-- **Every change of a parse keeps the errors in order.** -/
theorem Moves.orderly {tokens : List Token} {stop : Nat} {past past' : List Kind} {s t : Parsing}
    (move : Moves past s past' t) (orderly : s.Orderly tokens stop) : t.Orderly tokens stop := by
  induction move with
  | stay => exact orderly
  | trans _ _ ih₁ ih₂ => exact ih₂ (ih₁ orderly)
  | flush => exact orderly.flush
  | take ahead may => exact orderly.take _
  | report => exact orderly.report _
  | node _ ih | group _ ih => exact (ih (orderly.flush.withBuilt [])).withBuilt _
  | wrap => exact orderly.withBuilt _

/-! ## (3) Where error nodes begin -/

namespace Tree

mutual

/-- The offsets at which the error nodes of a tree begin, when the tree begins at `start`. -/
def errorStarts (start : Nat) : Tree → List Nat
  | leaf _ _ => []
  | node kind children =>
    if kind == .error then start :: errorStartsOfAll start children else errorStartsOfAll start children

/-- The same for several trees, one behind the other. -/
def errorStartsOfAll (start : Nat) : List Tree → List Nat
  | [] => []
  | tree :: trees => errorStarts start tree ++ errorStartsOfAll (start + tree.length) trees

end

@[simp] theorem errorStarts_leaf (start : Nat) (kind : Kind) (text : Text) :
    (leaf kind text).errorStarts start = [] := by
  rw [errorStarts]

/-- A node that is no error node begins none. -/
theorem errorStarts_node {kind : Kind} (noError : kind ≠ .error) (start : Nat) (children : List Tree) :
    (node kind children).errorStarts start = errorStartsOfAll start children := by
  rw [errorStarts, if_neg (by rw [beq_iff_eq]; exact noError)]

/-- What begins an error node below a node, or is the node itself. -/
theorem eq_or_mem_of_mem_errorStarts_node {kind : Kind} {start offset : Nat} {children : List Tree}
    (mem : offset ∈ (node kind children).errorStarts start) :
    kind = .error ∧ offset = start ∨ offset ∈ errorStartsOfAll start children := by
  rw [errorStarts] at mem
  split at mem
  · rename_i isError
    exact (List.mem_cons.mp mem).imp_left fun same => ⟨beq_iff_eq.mp isError, same⟩
  · exact .inr mem

@[simp] theorem errorStartsOfAll_nil (start : Nat) : errorStartsOfAll start [] = [] := by
  rw [errorStartsOfAll]

@[simp] theorem errorStartsOfAll_cons (start : Nat) (tree : Tree) (trees : List Tree) :
    errorStartsOfAll start (tree :: trees) =
      tree.errorStarts start ++ errorStartsOfAll (start + tree.length) trees := by
  rw [errorStartsOfAll]

/-- Trees that stand behind others begin where those stop. -/
theorem errorStartsOfAll_append (start : Nat) (trees others : List Tree) :
    errorStartsOfAll start (trees ++ others) =
      errorStartsOfAll start trees ++ errorStartsOfAll (start + lengthOfAll trees) others := by
  induction trees generalizing start with
  | nil => rw [List.nil_append, errorStartsOfAll_nil, List.nil_append, lengthOfAll, Nat.add_zero]
  | cons tree trees ih =>
      rw [List.cons_append, errorStartsOfAll_cons, ih, errorStartsOfAll_cons, List.append_assoc, lengthOfAll,
        Nat.add_assoc]

/-- Tokens are no error nodes. -/
theorem errorStartsOfAll_leaves (start : Nat) (tokens : List Token) :
    errorStartsOfAll start (tokens.map Token.leaf) = [] := by
  induction tokens generalizing start with
  | nil => rw [List.map_nil, errorStartsOfAll_nil]
  | cons t tokens ih => rw [List.map_cons, errorStartsOfAll_cons, ih, Token.leaf, errorStarts_leaf, List.nil_append]

end Tree

namespace Cursor

/-- What begins an error node in a part begins one among the parts. -/
theorem mem_errorStartsOfAll {parent : Cursor} {left trees : List Tree} {start offset : Nat} {d : Cursor}
    (mem : d ∈ childrenFrom parent left start trees) (inside : offset ∈ d.tree.errorStarts d.start) :
    offset ∈ Tree.errorStartsOfAll start trees := by
  induction trees generalizing left start with
  | nil => cases mem
  | cons tree right ih =>
      rw [Tree.errorStartsOfAll_cons]
      rcases List.mem_cons.mp mem with rfl | mem
      · exact List.mem_append_left _ inside
      · exact List.mem_append_right _ (ih mem)

/-- **Every error node begins at an offset that is listed.** -/
theorem start_mem_errorStarts {c d : Cursor} (mem : d ∈ c.elements) (node : d.isLeaf = false)
    (isError : d.kind = .error) : d.start ∈ c.tree.errorStarts c.start := by
  induction c using inductionOn with
  | step c ih =>
      -- The node itself comes first in the list, and what is listed for its parts stands behind it.
      rcases mem_elements_iff.mp mem with rfl | ⟨part, inChildren, below⟩
      · rw [isLeaf] at node
        rw [kind] at isError
        cases tree : d.tree with
        | leaf kind text =>
            rw [tree] at node
            cases node
        | node kind children =>
            rw [tree] at isError
            rw [Tree.errorStarts, if_pos (by rw [beq_iff_eq]; exact isError)]
            exact List.mem_cons_self
      · have inside := mem_errorStartsOfAll inChildren (ih part inChildren below)
        cases tree : c.tree with
        | leaf kind text =>
            rw [tree, Tree.children, Tree.errorStartsOfAll_nil] at inside
            cases inside
        | node kind children =>
            rw [tree] at inside
            rw [Tree.errorStarts]
            split
            · exact List.mem_cons_of_mem _ inside
            · exact inside

end Cursor

/-! ## (4) A fault in front of each error node -/

namespace Production

variable {ρ : Type}

/-- Whether a fault has surely been reported at the next token after a production, when `noted` tells whether one had
been before it. A token that is taken brings the next one, at which nothing has been reported. -/
def notes : Production ρ → Bool → Bool
  | answer _, noted | look _, noted => noted
  | bump, _ | bumpAs _, _ => false
  | fault _, _ => true
  | andThen first second, noted => second.notes (first.notes noted)
  | branch condition yes no, noted => yes.notes (condition.notes noted) && no.notes (condition.notes noted)
  | byKind cases, noted => Kind.all.all fun kind => (cases kind).notes noted
  | node _ body, noted | group body, noted | wrap _ body, noted | advances body, noted => body.notes noted
  | loop _, _ | call _, _ => false

/-- Whether a production opens an error node only where a fault has been reported at the next token, and gathers
nothing into an error node that was read before. -/
def blames : Production ρ → Bool → Bool
  | answer _, _ | look _, _ | bump, _ | bumpAs _, _ | fault _, _ | call _, _ => true
  | andThen first second, noted => first.blames noted && second.blames (first.notes noted)
  | branch condition yes no, noted =>
    condition.blames noted && yes.blames (condition.notes noted) && no.blames (condition.notes noted)
  | byKind cases, noted => Kind.all.all fun kind => (cases kind).blames noted
  | node kind body, noted => (kind != .error || noted) && body.blames noted
  | wrap kind body, noted => kind != .error && body.blames noted
  | group body, noted | advances body, noted => body.blames noted
  | loop body, _ => body.blames false

end Production

namespace Parsing

variable {s t : Parsing}

/-- A fault has been reported at the next token. -/
def Noted (s : Parsing) : Prop := ∃ e ∈ s.errors, e.span.start = s.here.start

/-- The parts of the open construct begin at `base` and reach up to where the parse stands, and at the beginning of
each error node in them an error has been reported. -/
structure Standing (base : Nat) (s : Parsing) : Prop where
  /-- The tokens left lie side by side. -/
  tiled : Tiled s.stop s.rest
  /-- The parts reach up to where the parse stands. -/
  placed : base + Tree.lengthOfAll s.built.reverse = s.place
  /-- An error begins where an error node begins. -/
  located : ∀ offset ∈ Tree.errorStartsOfAll base s.built.reverse, ∃ e ∈ s.errors, e.span.start = offset

namespace Standing

variable {base : Nat}

/-- Trivia is put into the open construct. -/
theorem flush (standing : s.Standing base) : s.flush.Standing base := by
  have parts : s.flush.built.reverse = s.built.reverse ++ s.gap.map Token.leaf := by
    rw [Parsing.flush, List.reverse_append, List.reverse_reverse]
  refine ⟨tiled_flush standing.tiled, ?_, ?_⟩
  · rw [parts, Tree.lengthOfAll_append, ← Nat.add_assoc, standing.placed, place_gap standing.tiled, place_flush]
  · rw [parts, Tree.errorStartsOfAll_append, Tree.errorStartsOfAll_leaves, List.append_nil]
    exact standing.located

/-- A construct is opened behind the trivia. -/
theorem opened (standing : s.Standing base) : s.flush.fresh.Standing s.here.start where
  tiled := standing.flush.tiled
  placed := by rw [← place_flush]; rfl
  located := List.forall_mem_nil _

/-- Parts are added that have been read since the trivia was put into the open construct. -/
theorem close (standing : s.Standing base) (inside : t.Standing s.here.start) (grown : s.errors <:+ t.errors)
    (parts : List Tree) (same : Tree.lengthOfAll parts.reverse = Tree.lengthOfAll t.built.reverse)
    (located : ∀ offset ∈ Tree.errorStartsOfAll s.here.start parts.reverse,
      ∃ e ∈ t.errors, e.span.start = offset) :
    { t with built := parts ++ s.flush.built }.Standing base := by
  have behind : base + Tree.lengthOfAll s.flush.built.reverse = s.here.start := by
    rw [standing.flush.placed, place_flush]
  refine ⟨inside.tiled, ?_, ?_⟩
  · rw [List.reverse_append, Tree.lengthOfAll_append, ← Nat.add_assoc, behind, same]
    exact inside.placed
  · rw [List.reverse_append, Tree.errorStartsOfAll_append, behind]
    refine List.forall_mem_append.mpr ⟨fun offset mem => ?_, located⟩
    obtain ⟨e, reported, starts⟩ := standing.flush.located offset mem
    exact ⟨e, grown.subset reported, starts⟩

/-- A token is taken. -/
theorem take (standing : s.Standing base) (rename : Kind → Kind) : (s.take rename).Standing base := by
  cases ahead : s.ahead with
  | nil =>
      rw [take_of_nil rename ahead]
      exact standing.flush
  | cons next rest =>
      obtain ⟨tiled, place⟩ := tiled_take standing.tiled rename ahead
      have here : s.flush.place = next.token.start := by
        rw [place_flush, Parsing.here, ahead]
        rfl
      have built : (s.take rename).built.reverse =
          s.flush.built.reverse ++ [.leaf (rename next.token.kind) next.token.text] := by
        rw [take_eq rename ahead, List.reverse_cons]
      refine ⟨tiled, ?_, ?_⟩
      · rw [place, built, Tree.lengthOfAll_append, ← Nat.add_assoc, standing.flush.placed, here]
        simp only [Tree.lengthOfAll, Tree.length, Nat.add_zero]
        rfl
      · rw [built, Tree.errorStartsOfAll_append, Tree.errorStartsOfAll_cons, Tree.errorStarts_leaf,
          Tree.errorStartsOfAll_nil, List.append_nil, List.append_nil, s.errors_take rename]
        exact standing.flush.located

/-- A fault is reported. -/
theorem report (standing : s.Standing base) (fault : Fault) : (s.report fault).Standing base where
  tiled := standing.tiled
  placed := standing.placed
  located offset mem := by
    obtain ⟨e, reported, starts⟩ := standing.located offset mem
    exact ⟨e, List.mem_cons_of_mem _ reported, starts⟩

/-- A node is added. Where it is an error node, a fault has been reported at its beginning. -/
theorem node (standing : s.Standing base) (inside : t.Standing s.here.start) (grown : s.errors <:+ t.errors)
    {kind : Kind} (noted : kind = .error → s.Noted) :
    { t with built := .node kind t.built.reverse :: s.flush.built }.Standing base := by
  refine standing.close inside grown [.node kind t.built.reverse] ?_ fun offset mem => ?_
  · simp only [List.reverse_singleton, Tree.lengthOfAll, Tree.length, Nat.add_zero]
  · simp only [List.reverse_singleton, Tree.errorStartsOfAll_cons, Tree.errorStartsOfAll_nil, List.append_nil] at mem
    rcases Tree.eq_or_mem_of_mem_errorStarts_node mem with ⟨isError, rfl⟩ | below
    · obtain ⟨e, reported, starts⟩ := noted isError
      exact ⟨e, grown.subset reported, starts⟩
    · exact inside.located offset below

/-- Everything in the open construct is gathered into a node that is no error node. -/
theorem wrap (standing : s.Standing base) {kind : Kind} (noError : kind ≠ .error) :
    { s with built := [.node kind s.built.reverse] }.Standing base where
  tiled := standing.tiled
  placed := by
    simp only [List.reverse_singleton, Tree.lengthOfAll, Tree.length, Nat.add_zero]
    exact standing.placed
  located := by
    simp only [List.reverse_singleton, Tree.errorStartsOfAll_cons, Tree.errorStartsOfAll_nil, List.append_nil,
      Tree.errorStarts_node noError]
    exact standing.located

/-- A file begins at the first token. -/
theorem ofTokens {stop : Nat} {tokens : List Token} (tiled : Tiled stop tokens) (starts : startOf stop tokens = 0)
    (last : (Parsing.ofTokens tokens).stop = stop) : (Parsing.ofTokens tokens).Standing 0 where
  tiled := by
    have rest : (Parsing.ofTokens tokens).rest = tokens := split_eq tokens
    rw [last, rest]
    exact tiled
  placed := by
    have rest : (Parsing.ofTokens tokens).rest = tokens := split_eq tokens
    rw [place, last, rest, starts]
    rfl
  located := List.forall_mem_nil _

end Standing

end Parsing

namespace Production

variable {ρ : Type} {follow : ρ → Parsing → Bool × Parsing}

/-- **An error begins where an error node begins**, if every error node stands behind a fault. -/
theorem standing_run (errors : ∀ rule s, s.errors <:+ (follow rule s).2.errors)
    (rules : ∀ rule base (s : Parsing), s.Standing base → (follow rule s).2.Standing base) (p : Production ρ)
    {noted : Bool} (blames : p.blames noted = true) {base : Nat} {s : Parsing} (standing : s.Standing base)
    (known : noted = true → s.Noted) :
    (p.run follow s).2.Standing base ∧ (p.notes noted = true → (p.run follow s).2.Noted) := by
  -- What is noted goes along with the parse, so the induction is for all of it.
  induction p generalizing noted base s with
  | answer ok => exact ⟨standing, known⟩
  | look condition => exact ⟨standing, known⟩
  | bump => exact ⟨standing.take id, fun falsity => absurd falsity Bool.false_ne_true⟩
  | bumpAs kind => exact ⟨standing.take fun _ => kind, fun falsity => absurd falsity Bool.false_ne_true⟩
  | fault cause => exact ⟨standing.report cause, fun _ => ⟨_, List.mem_cons_self, rfl⟩⟩
  | andThen first second ih₁ ih₂ =>
      obtain ⟨blames₁, blames₂⟩ := Bool.and_eq_true_iff.mp blames
      obtain ⟨standing, known⟩ := ih₁ blames₁ standing known
      exact ih₂ blames₂ standing known
  | branch condition yes no ih ihYes ihNo =>
      obtain ⟨blames, blamesNo⟩ := Bool.and_eq_true_iff.mp blames
      obtain ⟨blames, blamesYes⟩ := Bool.and_eq_true_iff.mp blames
      obtain ⟨standing, known⟩ := ih blames standing known
      refine branch_cases (P := fun result => result.2.Standing base ∧
        ((branch condition yes no).notes noted = true → result.2.Noted)) (fun _ => ?_) (fun _ => ?_)
      · obtain ⟨standing, known⟩ := ihYes blamesYes standing known
        exact ⟨standing, fun both => known (Bool.and_eq_true_iff.mp both).1⟩
      · obtain ⟨standing, known⟩ := ihNo blamesNo standing known
        exact ⟨standing, fun both => known (Bool.and_eq_true_iff.mp both).2⟩
  | byKind cases ih =>
      obtain ⟨standing, known⟩ := ih (s.kindAt 0) (List.all_eq_true.mp blames _ (Kind.mem_all _)) standing known
      exact ⟨standing, fun all => known (List.all_eq_true.mp all _ (Kind.mem_all _))⟩
  | node kind body ih =>
      obtain ⟨isNoted, blames⟩ := Bool.and_eq_true_iff.mp blames
      have grown : s.errors <:+ (body.run follow s.flush.fresh).2.errors := errors_run errors body s.flush.fresh
      obtain ⟨inside, after⟩ := ih blames standing.opened known
      refine ⟨standing.node inside grown fun isError => known ?_, after⟩
      simpa [isError] using isNoted
  | group body ih =>
      have grown : s.errors <:+ (body.run follow s.flush.fresh).2.errors := errors_run errors body s.flush.fresh
      obtain ⟨inside, after⟩ := ih blames standing.opened known
      exact ⟨standing.close inside grown _ rfl inside.located, after⟩
  | wrap kind body ih =>
      obtain ⟨noError, blames⟩ := Bool.and_eq_true_iff.mp blames
      obtain ⟨standing, known⟩ := ih blames standing known
      exact ⟨standing.wrap (bne_iff_ne.mp noError), known⟩
  | loop body ih =>
      refine ⟨?_, fun falsity => absurd falsity Bool.false_ne_true⟩
      exact iterate_induction (P := Parsing.Standing base)
        (fun t standing => (ih blames standing fun falsity => absurd falsity Bool.false_ne_true).1) _ standing
  | advances body ih => exact ih blames standing known
  | call rule => exact ⟨rules rule base s standing, fun falsity => absurd falsity Bool.false_ne_true⟩

end Production

set_option maxRecDepth 2000 in
/-- A round over infix operators opens no error node. -/
theorem Grammar.blames_infixStep (power : Nat) : (infixStep power).blames false = true := by
  obtain ⟨cases, same, each⟩ := infixStep_induction power (fun _ p => p.blames false = true) (fun _ => rfl)
    (by decide)
  rw [same]
  exact List.all_eq_true.mpr each

/-- **Every rule reports a fault in front of each error node that it opens.** -/
theorem Rule.blames_all (rule : Rule) : rule.production.blames false = true := by
  cases rule with
  | expression power =>
      have round := Grammar.blames_infixStep power
      simp only [production, Grammar.operatorChain, Production.blames, Production.stop, round, Bool.and_true]
  | _ => decide +kernel

/-- An error begins where an error node begins, whichever rule is followed. -/
theorem Rule.standing_follow (depth : Nat) (rule : Rule) (base : Nat) (s : Parsing) (standing : s.Standing base) :
    (Rule.follow depth rule s).2.Standing base := by
  induction depth generalizing rule base s with
  | zero => exact standing
  | succ depth ih =>
      exact (Production.standing_run (Rule.errors_follow depth) ih rule.production rule.blames_all standing
        fun falsity => absurd falsity Bool.false_ne_true).1

/-! ## (5) The errors of a text -/

namespace Parse

/-- A parse of a text stands at its beginning, and its tokens lie side by side up to the end. -/
theorem tiled_tokenize (source : Text) : Tiled (utf8Length source) (tokenize source) ∧
    startOf (utf8Length source) (tokenize source) = 0 ∧
      (Parsing.ofTokens (tokenize source)).stop = utf8Length source := by
  have tiled := tiled_tokenizeFrom 0 source
  rw [Nat.zero_add] at tiled
  refine ⟨tiled.1, tiled.2, ?_⟩
  rw [Parsing.ofTokens]
  cases last : (tokenize source).getLast? with
  | some t => exact tiled.1.getLast_stop last
  | none =>
      -- Without tokens the end of the text is its beginning.
      have starts := tiled.2
      rw [← tokenize, List.getLast?_eq_none_iff.mp last] at starts
      exact starts.symm

/-- The errors of a text are in order, and each is at a token or at the end. -/
theorem errors_ordered (source : Text) :
    (ofText source).errors.Pairwise (fun earlier later => earlier.span.start ≤ later.span.start) ∧
      ∀ e ∈ (ofText source).errors, Parsing.Locates (tokenize source) (utf8Length source) e.span := by
  obtain ⟨tiled, -, last⟩ := tiled_tokenize source
  let start := Parsing.ofTokens (tokenize source)
  obtain ⟨_, move⟩ := Grammar.run_moves Grammar.guarded_sourceFile (ruleDepth start.ahead.length) [] start
  have done := (move.trans .flush).orderly (Parsing.Orderly.ofTokens tiled last)
  exact ⟨List.pairwise_reverse.mpr done.order, fun e mem => done.located e (List.mem_reverse.mp mem)⟩

/-- Where an error node begins, an error begins. -/
theorem exists_error_of_errorNode {source : Text} {c : Cursor}
    (mem : c ∈ (Cursor.root (ofText source).tree).descendants) (isError : c.kind = .error) :
    ∃ e ∈ (ofText source).errors, e.span.start = c.start := by
  obtain ⟨mem, node⟩ := List.mem_filter.mp mem
  obtain ⟨tiled, starts, last⟩ := tiled_tokenize source
  let start := Parsing.ofTokens (tokenize source)
  let depth := ruleDepth start.ahead.length
  have blames : Grammar.sourceFile.blames false = true := by decide
  have done := (Production.standing_run (Rule.errors_follow depth) (Rule.standing_follow depth) Grammar.sourceFile
    blames (Parsing.Standing.ofTokens tiled starts last) fun falsity => absurd falsity Bool.false_ne_true).1.flush
  have listed := Cursor.start_mem_errorStarts mem (Bool.not_eq_true' _ ▸ node) isError
  have noError : Kind.sourceFile ≠ .error := Kind.noConfusion
  rw [Cursor.tree, ofText, ofTokens, Tree.errorStarts_node noError] at listed
  obtain ⟨e, reported, same⟩ := done.located c.start listed
  exact ⟨e, List.mem_reverse.mpr reported, same⟩

end Parse

/-- **The errors of a text locate its damage.** They come in the order of the text. The range of each is that of a token
which is not trivia, or the empty one at the end of the text. Where an error node begins, one of them begins. So a text
without errors has no error node, and neither has one that is searched although damaged texts are refused. -/
theorem syntaxErrors_locate (source : Text) :
    (Parse.ofText source).errors.Pairwise (fun earlier later => earlier.span.start ≤ later.span.start) ∧
      (∀ e ∈ (Parse.ofText source).errors,
        (∃ t ∈ tokenize source, t.isTrivia = false ∧ e.span = t.span) ∨
          e.span = ⟨utf8Length source, utf8Length source⟩) ∧
      (∀ c ∈ (Cursor.root (Parse.ofText source).tree).descendants, c.kind = .error →
        ∃ e ∈ (Parse.ofText source).errors, e.span.start = c.start) ∧
      ((Parse.ofText source).errors = [] →
        ∀ c ∈ (Cursor.root (Parse.ofText source).tree).descendants, c.kind ≠ .error) ∧
      ∀ (analysis : Analysis) (q : Query) (options : SearchOptions) (report : SearchReport),
        options.strictSyntax = true → findMembers analysis source q options = .ok report →
          ∀ c ∈ (Cursor.root (Parse.ofText source).tree).descendants, c.kind ≠ .error := by
  obtain ⟨order, located⟩ := Parse.errors_ordered source
  have noErrorNode (clean : (Parse.ofText source).errors = []) :
      ∀ c ∈ (Cursor.root (Parse.ofText source).tree).descendants, c.kind ≠ .error := by
    intro c mem isError
    obtain ⟨e, reported, -⟩ := Parse.exists_error_of_errorNode mem isError
    rw [clean] at reported
    cases reported
  refine ⟨order, located, fun c mem isError => Parse.exists_error_of_errorNode mem isError, noErrorNode, ?_⟩
  intro analysis q options report strict found
  refine noErrorNode ?_
  rw [findMembers, strict] at found
  cases errors : (Parse.ofText source).errors with
  | nil => rfl
  | cons first others =>
      rw [errors] at found
      cases found

/-- A call and a class with damage in the arguments, among the members, in a member and behind the class. -/
def damagedText : Text := "<?php f(?, $x ]); class A \x7b & function \x7d \x7d x".toList

/-- Its errors and its error nodes. At the brace after `function` three things are missing, and no error node is
opened. -/
theorem syntaxErrors_locate_damagedText :
    (Parse.ofText damagedText).errors.map (·.span.start) = [8, 14, 28, 39, 39, 39, 41] ∧
      ((Cursor.root (Parse.ofText damagedText).tree).descendants.filter (·.kind == .error)).map Cursor.span =
        [⟨8, 9⟩, ⟨14, 15⟩, ⟨28, 29⟩, ⟨41, 44⟩] ∧
      ∀ c ∈ (Cursor.root (Parse.ofText damagedText).tree).descendants, c.kind = .error →
        ∃ e ∈ (Parse.ofText damagedText).errors, e.span.start = c.start := by
  have facts : (Parse.ofText damagedText).errors.map (·.span.start) = [8, 14, 28, 39, 39, 39, 41] ∧
      ((Cursor.root (Parse.ofText damagedText).tree).descendants.filter (·.kind == .error)).map Cursor.span =
        [⟨8, 9⟩, ⟨14, 15⟩, ⟨28, 29⟩, ⟨41, 44⟩] := by decide +kernel
  obtain ⟨-, -, located, -⟩ := syntaxErrors_locate damagedText
  exact ⟨facts.1, facts.2, located⟩

end PhpMembers
