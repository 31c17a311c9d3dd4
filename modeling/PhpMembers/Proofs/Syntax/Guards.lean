import PhpMembers.Proofs.Syntax.Moves
import PhpMembers.Syntax.Parse

/-! # The grammar only moves

Each rule of the grammar takes a token under another kind only where `Outlook.MayRecord` allows it. Most
places test the token right there. Two do not: a named function is recognised by the token after `function`,
and a relative name by the token after `namespace`.

* `Rule.Ready` : what has to be known before a rule is followed.
* `Rule.guarded_production` : the production of every rule is guarded.
* `Rule.follow_moves`, `Grammar.run_moves` : following a rule, or a production of the grammar, only moves. -/

namespace PhpMembers

open Production

/-- What has to be known before a rule is followed: `function` has to be followed by a name, possibly after
an ampersand. -/
def Rule.Ready : Rule → Knowledge
  | .functionDecl => fun o =>
    (o.kindAt 1).isMemberName = true ∨ o.kindAt 1 = .amp ∧ (o.kindAt 2).isMemberName = true
  | _ => fun _ => True

namespace Grammar

variable {before : Knowledge}

/-! ## (1) Parts shared by the families -/

@[simp] theorem guarded_expression : expression.Guarded Rule.Ready before := by
  simp [expression, Rule.Ready]

@[simp] theorem guarded_statement : statement.Guarded Rule.Ready before := by
  simp [statement, Rule.Ready]

@[simp] theorem guarded_type : type.Guarded Rule.Ready before := by
  simp [type, Rule.Ready]

@[simp] theorem guarded_nameRef : nameRef.Guarded Rule.Ready before := by
  simp only [nameRef, Guarded]
  intro kind
  split
  · trivial
  · trivial
  · trivial
  · trivial
  · split
    · rename_i keyword
      rintro o ⟨-, rfl⟩
      exact Or.inr (Or.inl ⟨rfl, by simp [Kind.isMemberName, keyword]⟩)
    · trivial

@[simp] theorem guarded_nameList : nameList.Guarded Rule.Ready before := by
  simp [nameList]

@[simp] theorem guarded_statementEnd : statementEnd.Guarded Rule.Ready before := by
  simp [statementEnd]

@[simp] theorem guarded_attributes : attributes.Guarded Rule.Ready before := by
  simp [attributes, Rule.Ready]

@[simp] theorem guarded_returnType : returnType.Guarded Rule.Ready before := by
  simp [returnType]

@[simp] theorem guarded_implementsClause : implementsClause.Guarded Rule.Ready before := by
  simp [implementsClause]

@[simp] theorem guarded_initializer : initializer.Guarded Rule.Ready before := by
  simp [initializer]

@[simp] theorem guarded_skipBraced : skipBraced.Guarded Rule.Ready before := by
  simp [skipBraced, Rule.Ready]

/-! ## (2) Expressions -/

/-- Every infix operator is taken as it is. -/
theorem guarded_infixStep (power : Nat) : (infixStep power).Guarded Rule.Ready before := by
  simp only [infixStep, Guarded]
  intro operator
  split
  · simp
  · split
    · simp
    · unfold infixOperand
      split <;> simp [Rule.Ready, classNameAhead]

theorem guarded_operatorChain (power : Nat) :
    (operatorChain power).Guarded Rule.Ready before := by
  simp [operatorChain, Rule.Ready, guarded_infixStep]

theorem guarded_unary : unary.Guarded Rule.Ready before := by
  simp only [unary, castAhead, yieldExpression, guarded_both, guarded_also, Guarded]
  refine ⟨by simp, by simp [Rule.Ready], fun operator => ?_⟩
  split
  · simp [Rule.Ready]
  · split <;> simp [Rule.Ready]

@[simp] theorem guarded_bracedMemberName : bracedMemberName.Guarded Rule.Ready before := by
  simp [bracedMemberName]

/-- A member name may be recorded as an identifier. -/
theorem guarded_bumpAs_ident {kind : Kind} (name : kind.isMemberName = true) :
    (bumpAs .ident : Grammar).Guarded Rule.Ready fun o => before o ∧ o.kindAt 0 = kind := by
  rintro o ⟨-, rfl⟩
  exact Or.inr (Or.inl ⟨rfl, name⟩)

@[simp] theorem guarded_instanceMemberName : instanceMemberName.Guarded Rule.Ready before := by
  simp only [instanceMemberName, Guarded]
  intro kind
  split
  · rename_i name
    exact guarded_bumpAs_ident name
  · split <;> simp [Rule.Ready]

@[simp] theorem guarded_staticMemberName : staticMemberName.Guarded Rule.Ready before := by
  simp only [staticMemberName, Guarded]
  intro kind
  split
  · trivial
  · trivial
  · simp
  · simp [Rule.Ready]
  · split
    · rename_i name
      exact guarded_bumpAs_ident name
    · trivial

theorem guarded_postfixStep : postfixStep.Guarded Rule.Ready before := by
  simp only [postfixStep, Guarded]
  intro kind
  split <;> simp [Rule.Ready]

theorem guarded_postfixed : postfixed.Guarded Rule.Ready before := by
  simp [postfixed, Rule.Ready, guarded_postfixStep]

@[simp] theorem guarded_argument : argument.Guarded Rule.Ready before := by
  simp only [argument, guarded_seq_cons, guarded_seq_single, guarded_when, guarded_both, Guarded]
  refine ⟨by simp, ⟨⟨trivial, by simp⟩, ?_, trivial⟩, by simp⟩
  rintro o (⟨-, known⟩ | ⟨falsity, -⟩)
  · exact Or.inr (Or.inl ⟨rfl, known.1⟩)
  · cases falsity

theorem guarded_argList : argList.Guarded Rule.Ready before := by
  simp [argList]

theorem guarded_variableReference : variableReference.Guarded Rule.Ready before := by
  simp [variableReference, Rule.Ready]

@[simp] theorem guarded_arrayElements (closing : Kind) :
    (arrayElements closing).Guarded Rule.Ready before := by
  simp [arrayElements, arrayElement]

@[simp] theorem guarded_parenthesized : parenthesized.Guarded Rule.Ready before := by
  simp [parenthesized]

theorem guarded_new : new.Guarded Rule.Ready before := by
  simp only [new, guarded_either, guarded_both, guarded_when, Guarded]
  refine ⟨trivial, by simp, by simp [Rule.Ready], fun kind => ?_, by simp [Rule.Ready]⟩
  split <;> simp [Rule.Ready]

theorem guarded_anonClass : anonClass.Guarded Rule.Ready before := by
  simp [anonClass, extendsClause, Rule.Ready]

theorem guarded_closure : closure.Guarded Rule.Ready before := by
  simp [closure, closureUse, Rule.Ready]

theorem guarded_arrowFn : arrowFn.Guarded Rule.Ready before := by
  simp [arrowFn, Rule.Ready]

theorem guarded_choice : choice.Guarded Rule.Ready before := by
  simp [choice, matchArm]

/-- After `namespace` and a separator a name may be recorded as a qualified one. -/
theorem guarded_relativeName
    (known : ∀ o, before o → o.kindAt 0 = .namespaceKw ∧ o.kindAt 1 = .backslash) :
    relativeName.Guarded Rule.Ready before := by
  simp only [relativeName, guarded_seq_cons, guarded_seq_single, guarded_when, Guarded]
  refine ⟨trivial, trivial, trivial, ?_⟩
  -- Where the name is recorded, `namespace` and the separator have just been read.
  rintro o ⟨name, -, o₁, ⟨-, o₀, holds, rfl⟩, rfl⟩
  obtain ⟨first, second⟩ := known o₀ holds
  obtain ⟨past, ahead⟩ := o₀
  cases ahead with
  | nil => cases first
  | cons _ ahead =>
      cases ahead with
      | nil => cases second
      | cons _ rest =>
          cases first
          cases second
          have named : (Kind.isMemberName _ || (_ == Kind.qualifiedName)) = true := name
          rw [Bool.or_eq_true, beq_iff_eq] at named
          rcases named with named | named
          · exact Or.inr (Or.inr ⟨rfl, named, rfl⟩)
          · exact Or.inl named.symm

@[simp] theorem guarded_noOperand (kind : Kind) : (noOperand kind).Guarded Rule.Ready before := by
  unfold noOperand
  split <;> simp

theorem guarded_primary : primary.Guarded Rule.Ready before := by
  simp only [primary, guarded_atEnd, Guarded]
  refine ⟨trivial, trivial, fun kind => ?_⟩
  split
  case h_17 =>
    refine ⟨trivial, ?_, guarded_noOperand _⟩
    rw [guarded_also]
    apply guarded_relativeName
    rintro o ⟨next, -, kind⟩
    exact ⟨kind, by simpa [Lookahead.Tells] using next⟩
  all_goals simp [Rule.Ready, bracketArray, wordArray]

/-! ## (3) Declarations -/

theorem guarded_namespaceDef : namespaceDef.Guarded Rule.Ready before := by
  simp [namespaceDef, plainNameAhead, Rule.Ready]

theorem guarded_useDecl : useDecl.Guarded Rule.Ready before := by
  simp [useDecl, useMark, useClause, plainNameAhead, groupedUse, useAlias]

theorem guarded_attributeGroup : attributeGroup.Guarded Rule.Ready before := by
  simp [attributeGroup]

theorem guarded_classLike : classLike.Guarded Rule.Ready before := by
  simp only [classLike, guarded_eatWhile, Guarded, true_and]
  intro kind
  unfold classLikeAs
  split <;> simp [extendsClause, Rule.Ready]

theorem guarded_classBody : classBody.Guarded Rule.Ready before := by
  simp [classBody, Rule.Ready]

@[simp] theorem guarded_constElement : constElement.Guarded Rule.Ready before := by
  simp [constElement]

theorem guarded_modifiedMember : modifiedMember.Guarded Rule.Ready before := by
  simp only [modifiedMember, guarded_eatWhile, Guarded, true_and]
  intro kind
  split <;> simp [method, classConst, property, propertyElement, Rule.Ready]

theorem guarded_classMember : classMember.Guarded Rule.Ready before := by
  simp only [classMember, guarded_attributes, Guarded, true_and]
  intro kind
  split <;> simp [traitUse, enumCase, guarded_modifiedMember]

/-- The name of a function may be recorded as an identifier: `Rule.Ready` tells that it is a name. -/
theorem guarded_functionDecl : functionDecl.Guarded Rule.Ready (Rule.Ready .functionDecl) := by
  simp only [functionDecl, guarded_seq_cons, guarded_seq_single, Guarded]
  refine ⟨trivial, by simp, ?_, by simp [Rule.Ready]⟩
  rintro o ⟨_, known⟩
  refine Or.inr (Or.inl ⟨rfl, ?_⟩)
  have shift : ∀ (o : Outlook) n, o.step.kindAt n = o.kindAt (n + 1) := by
    intro o n
    obtain ⟨past, _ | ⟨kind, rest⟩⟩ := o
    · rfl
    · rfl
  rcases known with ⟨o₁, ⟨amp, -, o₀, ready, rfl⟩, rfl⟩ | ⟨-, amp, -, o₀, ready, rfl⟩
  · have amp : o₀.kindAt 1 = .amp := by simpa [Lookahead.Tells, shift] using amp
    rcases ready with name | ⟨-, name⟩
    · rw [amp] at name
      cases name
    · rw [shift, shift]
      exact name
  · have amp : o₀.kindAt 1 ≠ .amp := by simpa [Lookahead.Tells, shift] using amp
    rcases ready with name | ⟨isAmp, -⟩
    · rw [shift]
      exact name
    · exact absurd isAmp amp

theorem guarded_paramList : paramList.Guarded Rule.Ready before := by
  simp [paramList, Rule.Ready]

theorem guarded_param : param.Guarded Rule.Ready before := by
  simp [param]

theorem guarded_declaredType : declaredType.Guarded Rule.Ready before := by
  simp [declaredType, typeJoinAhead, Rule.Ready]

theorem guarded_typeAtom : typeAtom.Guarded Rule.Ready before := by
  simp [typeAtom, Rule.Ready]

theorem guarded_braced : braced.Guarded Rule.Ready before := by
  simp [braced, Rule.Ready]

/-! ## (4) Statements -/

theorem guarded_block : block.Guarded Rule.Ready before := by
  simp [block, statements]

@[simp] theorem guarded_expressionStatement : expressionStatement.Guarded Rule.Ready before := by
  simp [expressionStatement]

@[simp] theorem guarded_condition : condition.Guarded Rule.Ready before := by
  simp [condition]

/-- A directive begins with a name, reserved words included. -/
@[simp] theorem guarded_directive : directive.Guarded Rule.Ready before := by
  simp only [directive, guarded_seq_cons, guarded_seq_single, guarded_when, Guarded]
  refine ⟨⟨trivial, ?_⟩, by simp⟩
  rintro o ⟨name, -⟩
  exact Or.inr (Or.inl ⟨rfl, name⟩)

@[simp] theorem guarded_ifStatement : ifStatement.Guarded Rule.Ready before := by
  simp only [ifStatement, elseClause, guarded_seq_cons, guarded_seq_single, Guarded]
  refine ⟨trivial, by simp, by simp, fun kind => ?_⟩
  split <;> simp

@[simp] theorem guarded_switchStatement : switchStatement.Guarded Rule.Ready before := by
  simp [switchStatement, switchCase]

@[simp] theorem guarded_tryStatement : tryStatement.Guarded Rule.Ready before := by
  simp [tryStatement, catchClause, Rule.Ready]

theorem guarded_anyStatement : anyStatement.Guarded Rule.Ready before := by
  simp only [anyStatement, Guarded]
  intro kind
  split
  case h_11 =>
    -- The lookahead for a named function is what its rule asks for.
    refine ⟨by simp [functionNameAhead], ?_, by simp⟩
    rintro o (⟨-, name, -⟩ | ⟨name, amp, -⟩ | ⟨falsity, -⟩)
    · exact Or.inl name
    · exact Or.inr ⟨beq_iff_eq.mp amp, name⟩
    · cases falsity
  all_goals
    simp [Rule.Ready, keywordStatement, listStatement, declareStatement, constStatement,
      whileStatement, doStatement, forStatement, forPart, foreachStatement, expressionList]

theorem guarded_sourceFile : sourceFile.Guarded Rule.Ready before := by
  simp [sourceFile]

end Grammar

/-! ## (5) Following the rules -/

/-- **Every rule is guarded.** -/
theorem Rule.guarded_production : ∀ rule : Rule, rule.production.Guarded Rule.Ready rule.Ready
  | .statement => Grammar.guarded_anyStatement
  | .block => Grammar.guarded_block
  | .expression power => Grammar.guarded_operatorChain power
  | .unary => Grammar.guarded_unary
  | .postfixed => Grammar.guarded_postfixed
  | .primary => Grammar.guarded_primary
  | .variable => Grammar.guarded_variableReference
  | .argList => Grammar.guarded_argList
  | .new => Grammar.guarded_new
  | .anonClass => Grammar.guarded_anonClass
  | .closure => Grammar.guarded_closure
  | .arrowFn => Grammar.guarded_arrowFn
  | .choice => Grammar.guarded_choice
  | .attributeGroup => Grammar.guarded_attributeGroup
  | .classLike => Grammar.guarded_classLike
  | .classBody => Grammar.guarded_classBody
  | .classMember => Grammar.guarded_classMember
  | .functionDecl => Grammar.guarded_functionDecl
  | .paramList => Grammar.guarded_paramList
  | .param => Grammar.guarded_param
  | .type => Grammar.guarded_declaredType
  | .typeAtom => Grammar.guarded_typeAtom
  | .namespaceDef => Grammar.guarded_namespaceDef
  | .useDecl => Grammar.guarded_useDecl
  | .braced => Grammar.guarded_braced

/-- **Following a rule only moves**, whatever the number of rules that may be open at once. -/
theorem Rule.follow_moves (depth : Nat) (rule : Rule) (past : List Kind) (s : Parsing)
    (ready : rule.Ready (s.outlook past)) :
    ∃ past', Moves past s past' (Rule.follow depth rule s).2 := by
  induction depth generalizing rule past s with
  | zero => exact ⟨past, .stay⟩
  | succ depth ih =>
      obtain ⟨past', move, -⟩ := Guarded.run_moves ih rule.production rule.guarded_production ready
      exact ⟨past', move⟩

/-- A production of the grammar only moves. -/
theorem Grammar.run_moves {p : Grammar} (guarded : p.Guarded Rule.Ready fun _ => True) (depth : Nat)
    (past : List Kind) (s : Parsing) : ∃ past', Moves past s past' (p.run (Rule.follow depth) s).2 := by
  obtain ⟨past', move, -⟩ :=
    @Guarded.run_moves _ _ _ (Rule.follow_moves depth) p _ guarded past s trivial
  exact ⟨past', move⟩

end PhpMembers
