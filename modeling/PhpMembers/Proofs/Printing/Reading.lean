import Mathlib.Data.List.Permutation
import PhpMembers.Proofs.Printing.Running
import PhpMembers.Proofs.Printing.Skeletons

/-! # How the parser reads a skeleton

The grammar is executed on the pieces of a skeleton, construct by construct, and each construct becomes the
tree that is expected. Nothing is found wrong on the way. What has a fixed number of tokens is evaluated, up to
the name in it: a name can be a reserved word, and then its kind is not that of an identifier.

* `MemberSkeleton.tree`, `ClassSkeleton.tree`, `fileTree` : the expected trees.
* `run_classMember`, `run_statement` : members and class-likes are read as expected.
* `Parse.ofText_sourceOf` : so is a whole file. -/

namespace PhpMembers

open Production

variable {gap : List Token} {built : List Tree} {rest : List Piece} {depth : Nat}

/-! ## (1) Members -/

/-- The leaves of the modifiers. -/
def modifierTrees (isStatic : Bool) : List Tree :=
  if isStatic then [Piece.publicKw.leaf, blankLeaf, Piece.staticKw.leaf] else [Piece.publicKw.leaf]

/-- The tree of a member. -/
def MemberSkeleton.tree (m : MemberSkeleton) : Tree :=
  .node m.form.declaration <|
    match m.form with
    | .method isStatic =>
      modifierTrees isStatic ++ [blankLeaf, Piece.functionKw.leaf, blankLeaf, m.name.leaf,
        .node .paramList [Piece.lParen.leaf, Piece.rParen.leaf], blankLeaf,
        .node .block [Piece.lBrace.leaf, Piece.rBrace.leaf]]
    | .property isStatic =>
      modifierTrees isStatic ++ [blankLeaf, .node .propertyElement [(Piece.sigiled m.name).leaf],
        Piece.semicolon.leaf]
    | .constant =>
      [Piece.constKw.leaf, blankLeaf, .node .constElement [m.name.leaf, blankLeaf, Piece.equals.leaf, blankLeaf,
        .node .literal [Piece.one.leaf]], Piece.semicolon.leaf]
    | .enumCase => [Piece.caseKw.leaf, blankLeaf, m.name.leaf, Piece.semicolon.leaf]

/-- The tree of a plain word as a name. -/
def PlainWord.tree (w : PlainWord) : Tree := .node .nameRef [w.leaf]

/-- The tree of the use of a trait. -/
def useTree (w : PlainWord) : Tree :=
  .node .traitUse [Piece.useKw.leaf, blankLeaf, w.tree, Piece.semicolon.leaf]

/-- The parser reads the use of a trait. -/
theorem run_use (w : PlainWord) :
    (call .classMember).run (Rule.follow (depth + 1)) (.facing gap built (usePieces w ++ rest)) =
      (true, .facing [blank] (useTree w :: behind gap built) rest) := by
  rfl

/-- The parser reads properties. -/
theorem run_property (w : Word) (isStatic : Bool) :
    (call .classMember).run (Rule.follow (depth + 1))
        (.facing gap built (MemberSkeleton.pieces ⟨.property isStatic, w⟩ ++ rest)) =
      (true, .facing [blank] (MemberSkeleton.tree ⟨.property isStatic, w⟩ :: behind gap built) rest) := by
  cases isStatic with
  | false => cbv
  | true => cbv

/-- The parser reads an empty list of parameters and an empty block. -/
theorem run_emptyFunction :
    (seq [call .paramList, Grammar.returnType, branch (next .lBrace) (call .block) Grammar.statementEnd]).run
        (Rule.follow (depth + 1))
        (.facing gap built (Piece.lParen.tight :: .rParen :: Piece.lBrace.tight :: .rBrace :: rest)) =
      (true, .facing [blank] (.node .block [Piece.lBrace.leaf, Piece.rBrace.leaf] :: blankLeaf ::
        .node .paramList [Piece.lParen.leaf, Piece.rParen.leaf] :: behind gap built) rest) := by
  cbv

/-- The parser reads a method after its modifiers. -/
theorem run_methodDecl (w : Word) :
    Grammar.method.run (Rule.follow (depth + 1)) (.facing gap built (Piece.functionKw ::
        (Piece.word w).tight :: Piece.lParen.tight :: .rParen :: Piece.lBrace.tight :: .rBrace :: rest)) =
      (true, .facing [blank] [.node .methodDecl ((behind gap built).reverse ++ [Piece.functionKw.leaf, blankLeaf,
        w.leaf, .node .paramList [Piece.lParen.leaf, Piece.rParen.leaf], blankLeaf,
        .node .block [Piece.lBrace.leaf, Piece.rBrace.leaf]])] rest) := by
  let named : Parsing := .facing [blank] (Piece.functionKw.leaf :: behind gap built)
    ((Piece.word w).tight :: Piece.lParen.tight :: .rParen :: Piece.lBrace.tight :: .rBrace :: rest)
  have name : (named.kindAt 0).isMemberName = true := w.isMemberName_kind
  have notAmp : named.kindAt 0 ≠ .amp := fun amp => by rw [amp] at name; cases name
  -- One step of the production after the other, each with its own lemma.
  have body : (seq [bump, eat .amp, memberName .expectedMethodName, call .paramList, Grammar.returnType,
      branch (next .lBrace) (call .block) Grammar.statementEnd]).run (Rule.follow (depth + 1))
        (.facing gap built (Piece.functionKw :: (Piece.word w).tight ::
          Piece.lParen.tight :: .rParen :: Piece.lBrace.tight :: .rBrace :: rest)) =
      (true, .facing [blank] (.node .block [Piece.lBrace.leaf, Piece.rBrace.leaf] :: blankLeaf ::
        .node .paramList [Piece.lParen.leaf, Piece.rParen.leaf] :: w.leaf :: blankLeaf ::
        Piece.functionKw.leaf :: behind gap built) rest) :=
    calc
      _ = (seq [eat .amp, memberName .expectedMethodName, call .paramList, Grammar.returnType,
          branch (next .lBrace) (call .block) Grammar.statementEnd]).run (Rule.follow (depth + 1)) named :=
        run_andThen rfl
      _ = (seq [memberName .expectedMethodName, call .paramList, Grammar.returnType,
          branch (next .lBrace) (call .block) Grammar.statementEnd]).run (Rule.follow (depth + 1)) named :=
        run_andThen (run_eat_of_ne notAmp)
      _ = _ := run_andThen (run_memberName name)
      _ = _ := run_emptyFunction
  rw [Grammar.method, run_wrap _ body]
  simp [Parsing.facing]

/-- The parser reads the modifiers of a method. -/
theorem run_modifiers (isStatic : Bool) :
    (eatWhile memberModifiers).run (Rule.follow depth)
        (.facing [] [] (modifierPieces isStatic ++ Piece.functionKw :: rest)) =
      (true, .facing [blank] (modifierTrees isStatic).reverse (Piece.functionKw :: rest)) := by
  cases isStatic with
  | false => cbv
  | true => cbv

/-- The parser reads methods. -/
theorem run_method (w : Word) (isStatic : Bool) :
    (call .classMember).run (Rule.follow (depth + 2))
        (.facing gap built (MemberSkeleton.pieces ⟨.method isStatic, w⟩ ++ rest)) =
      (true, .facing [blank] (MemberSkeleton.tree ⟨.method isStatic, w⟩ :: behind gap built) rest) := by
  let s : Parsing := .facing gap built (MemberSkeleton.pieces ⟨.method isStatic, w⟩ ++ rest)
  have attributes : Grammar.attributes.run (Rule.follow (depth + 1)) s = (true, s) := by
    cases isStatic <;> rfl
  have fresh : s.flush.fresh = .facing [] [] (modifierPieces isStatic ++ Piece.functionKw ::
      (Piece.word w).tight :: Piece.lParen.tight :: .rParen :: Piece.lBrace.tight :: .rBrace :: rest) := by
    cases isStatic <;> rfl
  have member : Grammar.modifiedMember.run (Rule.follow (depth + 1)) s =
      (true, .facing [blank] (MemberSkeleton.tree ⟨.method isStatic, w⟩ :: behind gap built) rest) := by
    -- The group starts without parts, so the modifiers and the method are all that it gathers.
    refine run_group (t := .facing [blank] [MemberSkeleton.tree ⟨.method isStatic, w⟩] rest) ?_
    rw [fresh, run_andThen (run_modifiers isStatic)]
    refine (run_methodDecl w).trans ?_
    simp [behind, MemberSkeleton.tree, MemberForm.declaration, blankLeaf, Piece.leaf, blank, Token.leaf]
  have first : s.kindAt 0 = .publicKw := by
    cases isStatic <;> rfl
  rw [run_call, Rule.production, Grammar.classMember, run_andThen attributes, run_byKind first]
  exact member

/-- The parser reads a constant with its value. -/
theorem run_constElement (w : Word) :
    Grammar.constElement.run (Rule.follow (depth + 4)) (.facing gap built
        (.word w :: .equals :: Piece.one.tight :: .semicolon :: rest)) =
      (true, .facing [] (.node .constElement [w.leaf, blankLeaf, Piece.equals.leaf, blankLeaf,
        .node .literal [Piece.one.leaf]] :: behind gap built) (.semicolon :: rest)) := by
  let s : Parsing := .facing gap built (.word w :: .equals :: Piece.one.tight :: .semicolon :: rest)
  have named : (s.flush.fresh.kindAt 0).isMemberName = true := w.isMemberName_kind
  have value : (when (expect .eq) Grammar.expression).run (Rule.follow (depth + 4))
        (s.flush.fresh.take fun _ => .ident) =
      (true, .facing [] [.node .literal [Piece.one.leaf], blankLeaf, Piece.equals.leaf, blankLeaf, w.leaf]
        (.semicolon :: rest)) := by
    rfl
  exact run_node (s := s) _ ((run_andThen (run_memberName named)).trans value)

/-- The parser reads constants. -/
theorem run_constant (w : Word) :
    (call .classMember).run (Rule.follow (depth + 5))
        (.facing gap built (MemberSkeleton.pieces ⟨.constant, w⟩ ++ rest)) =
      (true, .facing [blank] (MemberSkeleton.tree ⟨.constant, w⟩ :: behind gap built) rest) := by
  let s : Parsing := .facing gap built (MemberSkeleton.pieces ⟨.constant, w⟩ ++ rest)
  let inner : Parsing := .facing [blank] [Piece.constKw.leaf]
    (.word w :: .equals :: Piece.one.tight :: .semicolon :: rest)
  let element : Tree := .node .constElement [w.leaf, blankLeaf, Piece.equals.leaf, blankLeaf,
    .node .literal [Piece.one.leaf]]
  have attributes : Grammar.attributes.run (Rule.follow (depth + 4)) s = (true, s) := rfl
  -- Behind the name stands `=`, so what is read first is no type.
  have typeless : (either (look (.kind 1 fun kind => kind == .eq || kind == .comma)) Grammar.type).run
      (Rule.follow (depth + 4)) inner = (true, inner) := rfl
  have elements : (commaList Grammar.constElement).run (Rule.follow (depth + 4)) inner =
      (true, .facing [] [element, blankLeaf, Piece.constKw.leaf] (.semicolon :: rest)) :=
    (run_andThen (run_constElement w)).trans (run_loop (.last rfl))
  have ends : Grammar.statementEnd.run (Rule.follow (depth + 4))
      (.facing [] [element, blankLeaf, Piece.constKw.leaf] (.semicolon :: rest)) =
      (true, .facing [blank] [Piece.semicolon.leaf, element, blankLeaf, Piece.constKw.leaf] rest) := by
    rfl
  have body : (seq [bump, either (look (.kind 1 fun kind => kind == .eq || kind == .comma)) Grammar.type,
      commaList Grammar.constElement, Grammar.statementEnd]).run (Rule.follow (depth + 4)) s.flush.fresh =
      (true, .facing [blank] [Piece.semicolon.leaf, element, blankLeaf, Piece.constKw.leaf] rest) :=
    (run_andThen rfl).trans ((run_andThen typeless).trans ((run_andThen elements).trans ends))
  have unmodified : (eatWhile memberModifiers).run (Rule.follow (depth + 4)) s.flush.fresh =
      (true, s.flush.fresh) := rfl
  have member : Grammar.modifiedMember.run (Rule.follow (depth + 4)) s =
      (true, .facing [blank] (MemberSkeleton.tree ⟨.constant, w⟩ :: behind gap built) rest) := by
    refine run_group (t := .facing [blank] [MemberSkeleton.tree ⟨.constant, w⟩] rest) ?_
    refine (run_andThen unmodified).trans ((run_byKind (rfl : s.flush.fresh.kindAt 0 = .constKw)).trans ?_)
    exact run_wrap .classConstDecl body
  have first : s.kindAt 0 = .constKw := rfl
  rw [run_call, Rule.production, Grammar.classMember, run_andThen attributes, run_byKind first]
  exact member

/-- The parser reads cases of enums. -/
theorem run_enumCase (w : Word) :
    (call .classMember).run (Rule.follow (depth + 1))
        (.facing gap built (MemberSkeleton.pieces ⟨.enumCase, w⟩ ++ rest)) =
      (true, .facing [blank] (MemberSkeleton.tree ⟨.enumCase, w⟩ :: behind gap built) rest) := by
  let s : Parsing := .facing gap built (MemberSkeleton.pieces ⟨.enumCase, w⟩ ++ rest)
  let inner : Parsing := s.flush.fresh.take id
  have named : (inner.kindAt 0).isMemberName = true := w.isMemberName_kind
  have ends : (seq [Grammar.initializer, Grammar.statementEnd]).run (Rule.follow depth)
        (inner.take fun _ => .ident) =
      (true, .facing [blank] [Piece.semicolon.leaf, w.leaf, blankLeaf, Piece.caseKw.leaf] rest) := by
    rfl
  have body : (seq [bump, memberName .expectedCaseName, Grammar.initializer, Grammar.statementEnd]).run
        (Rule.follow depth) s.flush.fresh =
      (true, .facing [blank] [Piece.semicolon.leaf, w.leaf, blankLeaf, Piece.caseKw.leaf] rest) :=
    (run_andThen rfl).trans ((run_andThen (run_memberName named)).trans ends)
  have attributes : Grammar.attributes.run (Rule.follow depth) s = (true, s) := rfl
  have member : Grammar.enumCase.run (Rule.follow depth) s =
      (true, .facing [blank] (MemberSkeleton.tree ⟨.enumCase, w⟩ :: behind gap built) rest) :=
    run_node (s := s) _ body
  have first : s.kindAt 0 = .caseKw := rfl
  rw [run_call, Rule.production, Grammar.classMember, run_andThen attributes, run_byKind first]
  exact member

/-- **The parser reads every member.** -/
theorem run_classMember (m : MemberSkeleton) :
    (call .classMember).run (Rule.follow (depth + 5)) (.facing gap built (m.pieces ++ rest)) =
      (true, .facing [blank] (m.tree :: behind gap built) rest) := by
  obtain ⟨form, w⟩ := m
  cases form with
  | method isStatic => exact run_method w isStatic
  | property isStatic => exact run_property w isStatic
  | constant => exact run_constant w
  | enumCase => exact run_enumCase w

/-! ## (2) Lists of names -/

/-- The trees of names separated by commas. -/
def nameTrees : List PlainWord → List Tree
  | [] => []
  | [w] => [w.tree]
  | w :: ws => w.tree :: Piece.comma.leaf :: blankLeaf :: nameTrees ws

/-- The parser reads names up to the last one. -/
theorem repeats_names (ends : Lacks rest .comma) (w : PlainWord) (ws : List PlainWord) :
    Repeats ((branch (eat .comma) (also Grammar.nameRef) stop).run (Rule.follow depth))
      (Grammar.nameRef.run (Rule.follow depth) (.facing gap built (namePieces (w :: ws) ++ rest))).2
      (.facing [blank] ((nameTrees (w :: ws)).reverse ++ behind gap built) rest) := by
  -- The first name is read before the loop starts, so the loop is followed from behind it.
  induction ws generalizing w gap built with
  | nil =>
      have alone : Grammar.nameRef.run (Rule.follow depth) (.facing gap built (namePieces [w] ++ rest)) =
          (true, .facing [blank] (w.tree :: behind gap built) rest) := rfl
      rw [alone]
      exact .last (run_branch_false (run_eat_of_ne (kindAt_facing ends (by decide))))
  | cons v vs ih =>
      have first : Grammar.nameRef.run (Rule.follow depth)
            (.facing gap built (namePieces (w :: v :: vs) ++ rest)) =
          (true, .facing [] (w.tree :: behind gap built) (.comma :: namePieces (v :: vs) ++ rest)) := rfl
      have trees : (nameTrees (w :: v :: vs)).reverse ++ behind gap built =
          (nameTrees (v :: vs)).reverse ++ behind [blank] (Piece.comma.leaf :: w.tree :: behind gap built) := by
        simp [nameTrees, behind, blankLeaf, blank, Piece.leaf, Token.leaf]
      rw [first, trees]
      refine .next (run_branch_true rfl) ?_ (ih v)
      exact Nat.lt_succ_of_le (length_run_le (Rule.length_follow_le depth) Grammar.nameRef _)

/-- The parser reads a list of names. -/
theorem run_nameList (ends : Lacks rest .comma) {names : List PlainWord} (some : names ≠ []) :
    Grammar.nameList.run (Rule.follow depth) (.facing gap built (namePieces names ++ rest)) =
      (true, .facing [blank] ((nameTrees names).reverse ++ behind gap built) rest) := by
  cases names with
  | nil => exact (some rfl).elim
  | cons w ws => exact run_loop (repeats_names ends w ws)

/-- The trees of names behind a reserved word, with a blank in front. -/
def clauseTrees (kind : Kind) (keyword : Piece) (names : List PlainWord) : List Tree :=
  if names = [] then [] else [blankLeaf, .node kind (keyword.leaf :: blankLeaf :: nameTrees names)]

/-- The parser reads names behind a reserved word, if there are any. -/
theorem run_clause (kind : Kind) (keyword : Piece) (spaced : keyword.spaced = true)
    (known : keyword.kind ≠ .error) (noComma : Lacks rest .comma) (other : Lacks rest keyword.kind)
    (names : List PlainWord) :
    (when (next keyword.kind) (node kind (andThen bump Grammar.nameList))).run (Rule.follow depth)
        (.facing [blank] built (clausePieces keyword names ++ rest)) =
      (true, .facing [blank] ((clauseTrees kind keyword names).reverse ++ built) rest) := by
  rw [clausePieces, clauseTrees]
  -- Without names there is no keyword either.
  split
  case isTrue =>
    have absent : ((Parsing.facing [blank] built rest).kindAt 0 == keyword.kind) = false :=
      beq_eq_false_iff_ne.mpr (kindAt_facing other known)
    exact run_branch_false (congrArg (·, _) absent)
  case isFalse some =>
    let s : Parsing := .facing [blank] built (keyword :: namePieces names ++ rest)
    have present : (next keyword.kind).run (Rule.follow depth) s = (true, s) :=
      congrArg (·, _) (beq_self_eq_true keyword.kind)
    have taken : bump.run (Rule.follow depth) s.flush.fresh =
        (true, .facing [blank] [keyword.leaf] (namePieces names ++ rest)) :=
      congrArg (true, ·) (take_facing spaced id)
    have body : (andThen bump Grammar.nameList).run (Rule.follow depth) s.flush.fresh =
        (true, .facing [blank] ((nameTrees names).reverse ++ [blankLeaf, keyword.leaf]) rest) := by
      rw [run_andThen taken]
      exact run_nameList noComma some
    refine (run_branch_true present).trans ((run_node kind body).trans ?_)
    simp [s, Parsing.facing, Parsing.flush, blankLeaf, blank, Piece.leaf, Token.leaf]

/-! ## (3) Class-likes -/

/-- What stands between the braces of a class-like: traits and members with their trees. -/
def ClassSkeleton.items (s : ClassSkeleton) : List (List Piece × Tree) :=
  s.traits.map (fun w => (usePieces w, useTree w)) ++ s.members.map fun m => (m.pieces, m.tree)

/-- The tree of what stands in braces. -/
def ClassSkeleton.body (s : ClassSkeleton) : Tree :=
  .node .classBody (Piece.lBrace.leaf :: blankLeaf :: (s.items.flatMap fun i => [i.2, blankLeaf]) ++
    [Piece.rBrace.leaf])

/-- The kind of node that declares the class-like. -/
def ClassHead.declaration (head : ClassHead) : Kind := classLikeKind head.keyword.kind

/-- The tree of a class-like. -/
def ClassSkeleton.tree (s : ClassSkeleton) : Tree :=
  .node s.head.declaration ([s.head.keyword.leaf, blankLeaf, s.name.leaf]
    ++ clauseTrees .extendsClause .extendsKw s.head.extended
    ++ clauseTrees .implementsClause .implementsKw s.head.implemented ++ [blankLeaf, s.body])

/-- Every item of a class-like is read. -/
theorem reads_item {s : ClassSkeleton} {i : List Piece × Tree} (mem : i ∈ s.items) :
    Reading (Rule.follow (depth + 5)) (call .classMember) i := by
  rw [ClassSkeleton.items, List.mem_append, List.mem_map, List.mem_map] at mem
  rcases mem with ⟨w, -, rfl⟩ | ⟨m, -, rfl⟩
  case inl => exact ⟨⟨_, _, rfl, by decide⟩, fun _ _ _ => run_use w⟩
  case inr =>
    refine ⟨?_, fun _ _ _ => run_classMember m⟩
    obtain ⟨form, w⟩ := m
    cases form with
    | method isStatic => cases isStatic <;> exact ⟨_, _, rfl, by decide⟩
    | property isStatic => cases isStatic <;> exact ⟨_, _, rfl, by decide⟩
    | constant => exact ⟨_, _, rfl, by decide⟩
    | enumCase => exact ⟨_, _, rfl, by decide⟩

/-- The pieces between the braces. -/
theorem flatMap_items (s : ClassSkeleton) :
    s.items.flatMap Prod.fst = s.traits.flatMap usePieces ++ s.members.flatMap MemberSkeleton.pieces := by
  rw [ClassSkeleton.items, List.flatMap_append, List.flatMap_map, List.flatMap_map]

/-- **The parser reads what stands in braces.** -/
theorem run_classBody (s : ClassSkeleton) :
    (call .classBody).run (Rule.follow (depth + 6))
        (.facing gap built (.lBrace :: s.items.flatMap Prod.fst ++ .rBrace :: rest)) =
      (true, .facing [blank] (s.body :: behind gap built) rest) := by
  let start : Parsing := .facing gap built (.lBrace :: s.items.flatMap Prod.fst ++ .rBrace :: rest)
  let member : Grammar := branch (either atEnd (next .rBrace)) stop (unstuck .rBrace (call .classMember))
  -- Each item is one round, and the closing brace ends them.
  have each : ∀ i ∈ s.items, Reading (Rule.follow (depth + 5)) member i :=
    fun i mem => (reads_item mem).unstuck.inBraces
  have last (gap : List Token) (built : List Tree) : member.run (Rule.follow (depth + 5))
      (.facing gap built (.rBrace :: rest)) = (false, .facing gap built (.rBrace :: rest)) := rfl
  obtain ⟨gap', built', repeats, trees⟩ := repeats_items each last [blank] [Piece.lBrace.leaf]
  have closed : (expect .rBrace).run (Rule.follow (depth + 5)) (.facing gap' built' (.rBrace :: rest)) =
      (true, .facing [blank] (Piece.rBrace.leaf :: behind gap' built') rest) := by
    rfl
  have members : (andThen (untilClosed .rBrace (unstuck .rBrace (call .classMember))) (expect .rBrace)).run
        (Rule.follow (depth + 5))
        (.facing [blank] [Piece.lBrace.leaf] (s.items.flatMap Prod.fst ++ .rBrace :: rest)) =
      (true, .facing [blank] (Piece.rBrace.leaf :: behind gap' built') rest) :=
    (run_andThen (run_loop repeats)).trans closed
  have body : (when (expect .lBrace) (andThen (untilClosed .rBrace (unstuck .rBrace (call .classMember)))
        (expect .rBrace))).run (Rule.follow (depth + 5)) start.flush.fresh =
      (true, .facing [blank] (Piece.rBrace.leaf :: behind gap' built') rest) :=
    (run_branch_true rfl).trans members
  rw [run_call, Rule.production, Grammar.classBody, run_node (s := start) _ body, trees]
  simp [start, ClassSkeleton.body, Parsing.facing, Parsing.flush, behind, blankLeaf, blank, Piece.leaf,
    Token.leaf]

/-- Another piece comes next, whether there is a clause or not. -/
theorem lacks_clause {keyword : Piece} {kind : Kind} (ne : keyword.kind ≠ kind) (other : Lacks rest kind)
    (names : List PlainWord) : Lacks (clausePieces keyword names ++ rest) kind := by
  rw [clausePieces]
  split
  · exact other
  · exact lacks_cons ne

/-- **The parser reads a class-like from its keyword on.** -/
theorem run_classLikeAs (s : ClassSkeleton) :
    (Grammar.classLikeAs s.head.declaration).run (Rule.follow (depth + 6))
        (.facing [] [] (s.pieces ++ rest)) = (true, .facing [blank] [s.tree] rest) := by
  -- What is ahead at each step, from the last one on, and then what has been built there.
  let braces := .lBrace :: s.items.flatMap Prod.fst ++ .rBrace :: rest
  let implementing := clausePieces .implementsKw s.head.implemented ++ braces
  let extending := clausePieces .extendsKw s.head.extended ++ implementing
  let named := [s.name.leaf, blankLeaf, s.head.keyword.leaf]
  let above := (clauseTrees .extendsClause .extendsKw s.head.extended).reverse ++ named
  let header := (clauseTrees .implementsClause .implementsKw s.head.implemented).reverse ++ above
  have noBraces (kind : Kind) (ne : Kind.lBrace ≠ kind) : Lacks braces kind := lacks_cons ne
  have noImplements (kind : Kind) (ne : Kind.lBrace ≠ kind) (ne' : Kind.implementsKw ≠ kind) :
      Lacks implementing kind := lacks_clause ne' (noBraces kind ne) _
  have noExtends (kind : Kind) (ne : Kind.lBrace ≠ kind) (ne' : Kind.implementsKw ≠ kind)
      (ne'' : Kind.extendsKw ≠ kind) : Lacks extending kind := lacks_clause ne'' (noImplements kind ne ne') _
  have pieces : s.pieces ++ rest = s.head.keyword :: .name s.name :: extending := by
    simp [ClassSkeleton.pieces, extending, implementing, braces, flatMap_items]
  have spaced : s.head.keyword.spaced = true := by cases s.head <;> rfl
  have keyword : bump.run (Rule.follow (depth + 6)) (.facing [] [] (s.pieces ++ rest)) =
      (true, .facing [blank] [s.head.keyword.leaf] (.name s.name :: extending)) := by
    rw [pieces]
    exact congrArg (true, ·) (take_facing spaced id)
  have name : (memberName .expectedClassName).run (Rule.follow (depth + 6))
        (.facing [blank] [s.head.keyword.leaf] (.name s.name :: extending)) =
      (true, .facing [blank] named extending) :=
    (run_memberName rfl).trans (congrArg (true, ·) (take_facing rfl _))
  have unbacked : (if s.head.declaration == .enumDecl then when (eat .colon) Grammar.type else ok).run
        (Rule.follow (depth + 6)) (.facing [blank] named extending) =
      (true, .facing [blank] named extending) := by
    split
    · have noColon := noExtends .colon (by decide) (by decide) (by decide)
      exact run_branch_false (run_eat_of_ne (kindAt_facing noColon (by decide)))
    · rfl
  have extended : (Grammar.extendsClause Grammar.nameList).run (Rule.follow (depth + 6))
        (.facing [blank] named extending) = (true, .facing [blank] above implementing) :=
    run_clause .extendsClause .extendsKw rfl (by decide) (noImplements .comma (by decide) (by decide))
      (noImplements .extendsKw (by decide) (by decide)) _
  have implemented : Grammar.implementsClause.run (Rule.follow (depth + 6))
        (.facing [blank] above implementing) = (true, .facing [blank] header braces) :=
    run_clause .implementsClause .implementsKw rfl (by decide) (noBraces .comma (by decide))
      (noBraces .implementsKw (by decide)) _
  have contents : (seq [bump, memberName .expectedClassName,
      if s.head.declaration == .enumDecl then when (eat .colon) Grammar.type else ok,
      Grammar.extendsClause Grammar.nameList, Grammar.implementsClause, call .classBody]).run
        (Rule.follow (depth + 6)) (.facing [] [] (s.pieces ++ rest)) =
      (true, .facing [blank] (s.body :: behind [blank] header) rest) :=
    calc
      _ = _ := run_andThen keyword
      _ = _ := run_andThen name
      _ = _ := run_andThen unbacked
      _ = _ := run_andThen extended
      _ = _ := run_andThen implemented
      _ = _ := run_classBody s
  rw [Grammar.classLikeAs, run_wrap _ contents]
  simp [header, above, named, ClassSkeleton.tree, Parsing.facing, behind, blankLeaf, blank, Piece.leaf,
    Token.leaf]

/-- A class-like begins with its keyword and its name. -/
theorem ClassSkeleton.pieces_eq_cons (s : ClassSkeleton) :
    ∃ ps, s.pieces = s.head.keyword :: .name s.name :: ps := by
  simp only [pieces, List.cons_append, List.append_assoc]
  exact ⟨_, rfl⟩

/-- The parser reads a class-like. -/
theorem run_classLike (s : ClassSkeleton) :
    (call .classLike).run (Rule.follow (depth + 7)) (.facing gap built (s.pieces ++ rest)) =
      (true, .facing [blank] (s.tree :: behind gap built) rest) := by
  let start : Parsing := .facing gap built (s.pieces ++ rest)
  obtain ⟨ps, pieces⟩ := s.pieces_eq_cons
  have first : start.flush.fresh.kindAt 0 = s.head.keyword.kind := by
    simp only [start, pieces]
    rfl
  have unmodified : (eatWhile classModifiers).run (Rule.follow (depth + 6)) start.flush.fresh =
      (true, start.flush.fresh) := by
    refine run_loop (.last (run_branch_false (congrArg (·, _) ?_)))
    rw [Lookahead.holds, first]
    cases s.head <;> rfl
  rw [run_call, Rule.production, Grammar.classLike]
  refine run_group (t := .facing [blank] [s.tree] rest) ?_
  rw [run_andThen unmodified, run_byKind first]
  exact run_classLikeAs s

/-- **The parser reads a class-like as a statement.** -/
theorem run_statement (s : ClassSkeleton) :
    (call .statement).run (Rule.follow (depth + 8)) (.facing gap built (s.pieces ++ rest)) =
      (true, .facing [blank] (s.tree :: behind gap built) rest) := by
  let start : Parsing := .facing gap built (s.pieces ++ rest)
  obtain ⟨ps, pieces⟩ := s.pieces_eq_cons
  have first : start.kindAt 0 = s.head.keyword.kind := by
    simp only [start, pieces]
    rfl
  have second : start.kindAt 1 = .ident := by
    simp only [start, pieces]
    rfl
  rw [run_call, Rule.production, Grammar.anyStatement, run_byKind first]
  have classLike : (call .classLike).run (Rule.follow (depth + 7)) start =
      (true, .facing [blank] (s.tree :: behind gap built) rest) := run_classLike s
  rw [← classLike]
  -- Classes and enums have keywords that can begin other statements, too; there the name behind them decides.
  cases s.head with
  | plain parent interfaces =>
      refine run_branch_false (congrArg (·, start) ?_)
      rw [Lookahead.holds, second]
      rfl
  | interface parents => rfl
  | trait => rfl
  | enum interfaces =>
      refine run_branch_true (congrArg (·, start) ?_)
      rw [Lookahead.holds, second]
      rfl

/-! ## (4) Files -/

/-- The tree of a file. -/
def fileTree (skeletons : List ClassSkeleton) : Tree :=
  .node .sourceFile (openingTokens.map Token.leaf ++ skeletons.flatMap fun s => [s.tree, blankLeaf])

/-- **Class-likes that are written down are read again**: the tree is the expected one, and nothing is found
wrong. -/
theorem Parse.ofText_sourceOf (skeletons : List ClassSkeleton) :
    (ofText (sourceOf skeletons)).tree = fileTree skeletons ∧ (ofText (sourceOf skeletons)).errors = [] := by
  let items : List (List Piece × Tree) := skeletons.map fun s => (s.pieces, s.tree)
  let ps := skeletons.flatMap ClassSkeleton.pieces
  let statements : Grammar := branch atEnd stop (also (branch (next .rBrace) (recover .unmatchedBrace [])
    (either (advances (also Grammar.statement))
      (either atEnd (byKind fun kind => andThen (fault (.stuck kind)) bump)))))
  -- Each class-like is read by one round at the top, and the round at the end of the text is the last.
  have each : ∀ i ∈ items, Reading (Rule.follow (ruleDepth ps.length)) statements i := by
    intro i mem
    obtain ⟨s, -, rfl⟩ := List.mem_map.mp mem
    obtain ⟨qs, pieces⟩ := s.pieces_eq_cons
    refine Reading.atTop ⟨⟨_, _, pieces, ?_⟩, fun _ _ _ => run_statement s⟩
    cases s.head <;> rintro ⟨⟩
  have last (gap : List Token) (built : List Tree) : statements.run (Rule.follow (ruleDepth ps.length))
      (.facing gap built []) = (false, .facing gap built []) := rfl
  obtain ⟨gap, built, repeats, trees⟩ := repeats_items each last openingTokens []
  have pieces : items.flatMap Prod.fst ++ [] = ps := by
    rw [List.append_nil, List.flatMap_map]
  rw [pieces] at repeats
  refine ofText_opened (Tidy.flatMap ClassSkeleton.tidy).chain (congrArg Prod.snd (run_loop repeats)) rfl ?_
  refine (congrArg List.reverse trees).trans ?_
  rw [List.reverse_append, List.reverse_reverse, behind, List.append_nil, List.reverse_reverse,
    List.flatMap_map]

end PhpMembers
