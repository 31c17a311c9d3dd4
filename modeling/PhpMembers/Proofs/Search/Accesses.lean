import Mathlib.Data.List.TakeWhile
import PhpMembers.Proofs.Search.Names
import PhpMembers.Proofs.Syntax.Applied

/-! # The kind of member that an access is about

Every access is listed once among the sites of its file. Whether it is about a method is decided by the token
behind it alone: the form of the tree and the tokens of the text agree on what is called. An access that is
not called is about a property or, with a double colon and no sigil, about a constant.

* `Cursor.exists_staticName?_iff` : the name behind a double colon is the only token there.
* `Query.exists_unique_site` : a node that is a site is listed once.
* `accesses_by_next_token` : the kind of member for each access. -/

namespace PhpMembers

/-! ## (1) The tokens of a static access -/

namespace Cursor

/-- The tokens among consecutive parts are those of their trees. -/
theorem map_kind_childrenFrom (parent : Cursor) (left trees : List Tree) (start : Nat) :
    ((childrenFrom parent left start trees).filter isLeaf).map kind = ownKinds trees := by
  induction trees generalizing left start with
  | nil => rfl
  | cons tree right ih =>
      rw [childrenFrom, List.filter_cons]
      cases tree with
      | leaf k text =>
          rw [if_pos (by rfl), List.map_cons, ih]
          rfl
      | node k parts =>
          rw [if_neg (by simp [isLeaf, Cursor.tree, Tree.isLeaf]), ih]
          rfl

/-- The tokens among the parts of a node are those of its tree. -/
theorem map_kind_tokens (c : Cursor) : c.tokens.map kind = ownKinds c.tree.children :=
  map_kind_childrenFrom c [] _ _

/-- A node has a token of a kind if there is one among the parts of its tree. -/
theorem hasToken_iff {c : Cursor} {k : Kind} : c.hasToken k = true ↔ k ∈ ownKinds c.tree.children := by
  rw [← map_kind_tokens, hasToken, List.any_eq_true, List.mem_map]
  simp

/-- The tokens that can be the name behind a double colon. -/
def namesStatically (k : Kind) : Bool := k == .ident || k == .variable || k == .classKw

/-- The name behind a double colon is found among the kinds of the tokens. -/
theorem map_kind_staticName? (c : Cursor) :
    c.staticName?.map kind =
      ((ownKinds c.tree.children).dropWhile (· != .colonColon)).find? namesStatically := by
  rw [← map_kind_tokens, List.dropWhile_map, List.find?_map]
  rfl

/-- Where all that counts is at most one thing, a search finds what is there. -/
theorem find?_eq_some_of_few {kinds : List Kind} {test : Kind → Bool} {more k : Kind}
    (counts : ∀ k, test k = true → k.isTrivia = false)
    (few : (kinds.filter fun k => !k.isTrivia).Sublist [more]) :
    kinds.find? test = some k ↔ k ∈ kinds ∧ test k = true := by
  have only (k : Kind) (mem : k ∈ kinds) (passes : test k = true) : k = more := by
    have counted : k ∈ kinds.filter fun k => !k.isTrivia :=
      List.mem_filter.mpr ⟨mem, by rw [counts k passes]; rfl⟩
    exact List.mem_singleton.mp (few.subset counted)
  refine ⟨fun found => ⟨List.mem_of_find?_eq_some found, List.find?_some found⟩, ?_⟩
  rintro ⟨mem, passes⟩
  obtain ⟨other, found⟩ := Option.isSome_iff_exists.mp (List.find?_isSome.mpr ⟨k, mem, passes⟩)
  rw [found, only other (List.mem_of_find?_eq_some found) (List.find?_some found), only k mem passes]

set_option maxRecDepth 4000 in
/-- **The name behind a double colon is the only token there**, so the access has a token of that kind if and
only if its name is one. -/
theorem exists_staticName?_iff {source : Text} {access : Cursor} (mem : access ∈ (ofText source).descendants)
    (isStatic : access.kind = .staticAccessExpr) {k : Kind} (names : namesStatically k = true) :
    access.staticName?.map kind = some k ↔ access.hasToken k = true := by
  have significant : ∀ k ∈ Kind.all, namesStatically k = true → k.isTrivia = false ∧ k ≠ .colonColon := by
    decide
  have operated := operated mem
  rw [isStatic] at operated
  rw [map_kind_staticName?, hasToken_iff]
  generalize access.tree.children = parts at operated
  cases operated with
  | other none => cases none
  | @applied front behind operator more text operand listed rest apart =>
      obtain rfl : operator = .colonColon := List.mem_singleton.mp listed
      -- In front of the double colon there is trivia only.
      have skipped : (ownKinds front).dropWhile (· != .colonColon) = [] := by
        refine List.dropWhile_eq_nil_iff.mpr fun kind inFront => ?_
        have trivia := operand.trivia kind inFront
        refine bne_iff_ne.mpr fun same => ?_
        rw [same] at trivia
        cases trivia
      have inFront : k ∉ ownKinds front := by
        intro mem
        have trivia := operand.trivia k mem
        rw [(significant k (Kind.mem_all k) names).1] at trivia
        cases trivia
      have start : (ownKinds (front ++ .leaf .colonColon text :: behind)).dropWhile (· != .colonColon) =
          .colonColon :: ownKinds behind := by
        rw [ownKinds_append, ownKinds_leaf, List.dropWhile_append, skipped]
        rfl
      rw [start, List.find?_cons_of_neg (by decide),
        find?_eq_some_of_few (fun k passes => (significant k (Kind.mem_all k) passes).1) rest]
      simp [names, inFront, (significant k (Kind.mem_all k) names).2]

/-- An access names the class itself if it has the token `class`. -/
theorem isClassConstant_eq {source : Text} {access : Cursor} (mem : access ∈ (ofText source).descendants)
    (isStatic : access.kind = .staticAccessExpr) : access.isClassConstant = access.hasToken .classKw := by
  have same := exists_staticName?_iff mem isStatic (k := .classKw) rfl
  rw [Bool.eq_iff_iff, ← same, isClassConstant]
  cases access.staticName? with
  | none => simp
  | some token => simp

/-- The kind of member behind a double colon: what is called is a method, what has a sigil a property. -/
theorem staticAccessKind_eq {source : Text} {access : Cursor} (mem : access ∈ (ofText source).descendants)
    (isStatic : access.kind = .staticAccessExpr) :
    access.staticAccessKind =
      if access.isCallee then .method else if access.hasToken .variable then .property else .constant := by
  have same := exists_staticName?_iff mem isStatic (k := .variable) rfl
  rw [staticAccessKind]
  split
  · rfl
  · cases found : access.staticName? with
    | none =>
        rw [found] at same
        simp [← same]
    | some token =>
        rw [found] at same
        simp [← same]

end Cursor

/-! ## (2) Sites of nodes -/

/-- The query that leaves everything open. -/
def Query.open : Query := ⟨none, none, none⟩

/-- **A node that is a site is listed once**, by a query that leaves everything open. -/
theorem Query.exists_unique_site {file c : Cursor} {s : Site} (mem : c ∈ file.descendants)
    (found : c.site? = some s) (includeDeclarations : Bool) (access : s.isDeclaration = false) :
    ∃ before after, Query.open.sites includeDeclarations file = before ++ s :: after ∧
      ∀ other ∈ before ++ after, other.node ≠ s.node := by
  have same : s.node = c := Cursor.node_of_site? found
  have listed : s ∈ Query.open.sites includeDeclarations file := by
    rw [Query.sites_eq, List.mem_filter, Cursor.mem_sites, same]
    refine ⟨⟨mem, found⟩, ?_⟩
    rw [acceptsSite, access]
    cases includeDeclarations <;> rfl
  have apart : (Query.open.sites includeDeclarations file).Pairwise fun a b => a.node ≠ b.node := by
    rw [Query.sites_eq]
    exact file.sites_pairwise_ne.filter _
  obtain ⟨before, after, all⟩ := List.append_of_mem listed
  rw [all, List.pairwise_append] at apart
  obtain ⟨-, later, earlier⟩ := apart
  refine ⟨before, after, all, List.forall_mem_append.mpr ⟨fun other inBefore => ?_, fun other inAfter => ?_⟩⟩
  · exact earlier other inBefore s List.mem_cons_self
  · exact ((List.pairwise_cons.mp later).1 other inAfter).symm

/-! ## (3) Accesses by the token behind them -/

/-- **Method or not is decided by the next token.** For every text, damaged or not, each access with an arrow,
and each access with a double colon that does not name the class itself, is listed exactly once by a query that
leaves everything open.

* It is about a method if and only if the first token behind it that is not trivia is an opening parenthesis.
* Otherwise an access with an arrow is about a property.
* Otherwise an access with a double colon is about a property if its member is a token with a sigil, and about
  a constant if not. -/
theorem accesses_by_next_token (source : Text) (includeDeclarations : Bool) {access : Cursor}
    (mem : access ∈ (Cursor.ofText source).descendants)
    (isAccess : access.kind = .memberAccessExpr ∨
      access.kind = .staticAccessExpr ∧ access.hasToken .classKw = false) :
    ∃ before site after,
      Query.open.sites includeDeclarations (Cursor.ofText source) = before ++ site :: after ∧
      site.node = access ∧ (∀ other ∈ before ++ after, other.node ≠ access) ∧
      (site.kind = .method ↔ ∃ t, nextSignificant? source access.stop = some t ∧ t.kind = .lParen) ∧
      (site.kind ≠ .method → access.kind = .memberAccessExpr → site.kind = .property) ∧
      (site.kind ≠ .method → access.kind = .staticAccessExpr →
        site.kind = if access.hasToken .variable then .property else .constant) := by
  obtain ⟨inElements, node⟩ := List.mem_filter.mp mem
  have isTree : access.tree.isAccess = access.kind.isAccess := by
    rw [Cursor.kind]
    cases tree : access.tree with
    | leaf kind text => simp [Cursor.isLeaf, tree, Tree.isLeaf] at node
    | node kind parts => rfl
  have next (anAccess : access.kind.isAccess = true) :
      access.isCallee = true ↔ ∃ t, nextSignificant? source access.stop = some t ∧ t.kind = .lParen := by
    rw [Cursor.isCallee_eq inElements (isTree.trans anAccess), Option.any_eq_true]
    simp
  -- What kind of member a site is about depends on the form of the access; that it is listed once does not.
  rcases isAccess with isInstance | ⟨isStatic, notClass⟩
  · have found : access.site? = some ⟨.instanceAccess, if access.isCallee then .method else .property, access⟩ := by
      simp [Cursor.site?, isInstance]
    obtain ⟨before, after, all, others⟩ := Query.exists_unique_site mem found includeDeclarations rfl
    refine ⟨before, _, after, all, rfl, others, ?_, ?_, ?_⟩
    · rw [← next (by rw [isInstance]; rfl)]
      cases access.isCallee <;> simp
    · cases access.isCallee <;> simp
    · intro _ isStatic
      rw [isInstance] at isStatic
      cases isStatic
  · have found : access.site? = some ⟨.staticAccess, access.staticAccessKind, access⟩ := by
      simp [Cursor.site?, isStatic, Cursor.isClassConstant_eq mem isStatic, notClass]
    obtain ⟨before, after, all, others⟩ := Query.exists_unique_site mem found includeDeclarations rfl
    refine ⟨before, _, after, all, rfl, others, ?_, ?_, ?_⟩
    · rw [← next (by rw [isStatic]; rfl), Cursor.staticAccessKind_eq mem isStatic]
      cases access.isCallee <;> cases access.hasToken .variable <;> simp
    · intro _ isInstance
      rw [isStatic] at isInstance
      cases isInstance
    · rw [Cursor.staticAccessKind_eq mem isStatic]
      cases access.isCallee <;> simp

/-- Two accesses in a row, of which the second is called behind a blank. -/
def spacedCall : Text := "<?php $a->b->c ();".toList

/-- The first access of the chain is about a property and the second about a method. -/
theorem accesses_by_next_token_spacedCall :
    ∃ access ∈ (Cursor.ofText spacedCall).descendants, access.kind = .memberAccessExpr ∧
      access.span = ⟨6, 14⟩ ∧ ∃ before site after,
        Query.open.sites false (Cursor.ofText spacedCall) = before ++ site :: after ∧ site.node = access ∧
        (∀ other ∈ before ++ after, other.node ≠ access) ∧ site.kind = .method := by
  obtain ⟨access, mem, isInstance, span, next⟩ : ∃ access ∈ (Cursor.ofText spacedCall).descendants,
      access.kind = .memberAccessExpr ∧ access.span = ⟨6, 14⟩ ∧
        nextSignificant? spacedCall access.stop = some ⟨.lParen, ['('], 15⟩ := by decide +kernel
  obtain ⟨before, site, after, all, same, others, method, -⟩ :=
    accesses_by_next_token spacedCall false mem (.inl isInstance)
  exact ⟨access, mem, isInstance, span, before, site, after, all, same, others, method.mpr ⟨_, next, rfl⟩⟩

end PhpMembers
