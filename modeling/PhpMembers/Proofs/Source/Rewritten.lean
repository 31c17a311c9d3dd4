import PhpMembers.Proofs.Syntax.Fronts
import PhpMembers.Proofs.Syntax.Replaced

/-! # Texts in which one class-like is rewritten

Two texts are the same apart from one class-like, which keeps its name and what is imported inside of it, and declares
no namespace. Their namespace regions correspond, and each region imports the same. So names mean the same in both
texts: in corresponding places outside of the class-like, and anywhere inside of it.

* `Aligned` : offsets that no offset outside of the class-like tells apart.
* `Region.Follows`, `Regions.lookup_foldl_bindWith` : regions that differ in their offsets only.
* `Rewritten` : the two texts.
* `Rewritten.resolve_inside`, `Rewritten.className?_eq` : what names mean in both. -/

namespace PhpMembers

open PhpMembers.Tree (Alike Exchangeable)

/-! ## (1) Offsets -/

/-- `Aligned a b b' o o'`: no offset outside of the part comes between the two. -/
def Aligned (a b b' o o' : Nat) : Prop :=
  ∀ x x', Moved a b b' x x' → (x ≤ o ↔ x' ≤ o') ∧ (o ≤ x ↔ o' ≤ x')

section

variable {a b b' o o' : Nat}

/-- Offsets in the same place outside of the part are not told apart. -/
theorem Moved.aligned (filled : a < b) (filled' : a < b') (moved : Moved a b b' o o') : Aligned a b b' o o' := by
  intro x x' other
  cases moved <;> cases other <;> omega

/-- Neither are offsets inside of the part. -/
theorem Aligned.inside (starts : a < o) (stops : o < b) (starts' : a < o') (stops' : o' < b') :
    Aligned a b b' o o' := by
  intro x x' other
  cases other <;> omega

end

/-! ## (2) Regions -/

/-- Regions that differ in their offsets only. -/
structure Region.Follows (a b b' : Nat) (r r' : Region) : Prop where
  /-- They begin in the same place. -/
  start : Moved a b b' r.start r'.start
  /-- They end in the same place. -/
  stop : Moved a b b' r.stop r'.stop
  /-- They are regions of the same namespace. -/
  name : r'.name = r.name
  /-- They import the same. -/
  imports : r'.imports = r.imports

namespace Regions

variable {a b b' : Nat} {regions regions' : Regions}

/-- A search from a position on finds regions that follow each other. -/
theorem rel_indexFrom? (filled : a < b) (filled' : a < b')
    (follow : List.Forall₂ (Region.Follows a b b') regions regions') {o o' : Nat} (aligned : Aligned a b b' o o')
    (position : Nat) :
    Option.Rel (fun found found' => found'.1 = found.1 ∧ Region.Follows a b b' found.2 found'.2)
      (indexFrom? o position regions) (indexFrom? o' position regions') := by
  induction follow generalizing position with
  | nil => exact .none
  | @cons r r' rest rest' first _ ih =>
      have contains : r'.contains o' = r.contains o := by
        rw [Region.contains, Region.contains, decide_eq_decide.mpr (aligned _ _ first.start).1.symm,
          decide_eq_decide.mpr (aligned _ _ first.stop).2.symm]
      rw [indexFrom?, indexFrom?, contains]
      have later := ih (position + 1)
      revert later
      generalize indexFrom? o (position + 1) rest = found
      generalize indexFrom? o' (position + 1) rest' = found'
      rintro (@⟨⟨later, s⟩, ⟨later', s'⟩, rfl, following⟩ | _)
      · -- The region that starts last is the same one.
        have earlier : decide (s'.start < r'.start) = decide (s.start < r.start) := by
          have starts : r.start ≤ s.start ↔ r'.start ≤ s'.start :=
            (following.start.aligned filled filled' _ _ first.start).1
          exact decide_eq_decide.mpr (by omega)
        simp only [earlier]
        split
        · exact .some ⟨rfl, first⟩
        · exact .some ⟨rfl, following⟩
      · simp only
        split
        · exact .some ⟨rfl, first⟩
        · exact .none

/-- **The region in effect at one offset follows the one at the other.** -/
theorem rel_at? (filled : a < b) (filled' : a < b')
    (follow : List.Forall₂ (Region.Follows a b b') regions regions') {o o' : Nat} (aligned : Aligned a b b' o o') :
    Option.Rel (fun found found' => found'.1 = found.1 ∧ Region.Follows a b b' found.2 found'.2)
      (regions.at? o) (regions'.at? o') :=
  rel_indexFrom? filled filled' follow aligned 0

/-- It has the same position. -/
theorem position?_of_aligned (filled : a < b) (filled' : a < b')
    (follow : List.Forall₂ (Region.Follows a b b') regions regions') {o o' : Nat} (aligned : Aligned a b b' o o') :
    regions'.position? o' = regions.position? o := by
  have same := rel_at? filled filled' follow aligned
  rw [position?, position?]
  revert same
  generalize regions.at? o = found
  generalize regions'.at? o' = found'
  rintro (⟨same, -⟩ | _)
  · rw [Option.map_some, Option.map_some, same]
  · rfl

/-- Regions of declarations that correspond follow each other. -/
theorem forall₂_namespaceRegions {old new : Tree} (fit : Exchangeable old new)
    (isClassLike : old.kind.isClassLike = true) {spaces spaces' : List Cursor} {stop stop' : Nat}
    (stops : Moved a b b' stop stop')
    (beside : List.Forall₂ (Cursor.Beside old new a b b') spaces spaces')
    (kinds : ∀ n ∈ spaces, n.kind = .namespaceDef) :
    List.Forall₂ (Region.Follows a b b') (namespaceRegions stop spaces) (namespaceRegions stop' spaces') := by
  induction beside with
  | nil => exact .nil
  | @cons n n' later later' first rest ih =>
      obtain ⟨isSpace, kinds⟩ := List.forall_mem_cons.mp kinds
      have other := Cursor.ne_of_kind isClassLike isSpace rfl
      -- A region without braces reaches to the next declaration, or to the end of the file.
      have next : Moved a b b' (nextStart stop later) (nextStart stop' later') := by
        cases rest with
        | nil => exact stops
        | cons second _ => exact second.start
      rw [namespaceRegions_cons, namespaceRegions_cons]
      refine .cons ⟨first.start, ?_, Cursor.plainName?_of_alike fit isClassLike first.alike other, rfl⟩ (ih kinds)
      rw [namespaceRegion, namespaceRegion, Cursor.isSome_block?_of_alike fit first.alike other]
      show Moved a b b' (if n.block?.isSome = true then _ else _) (if n.block?.isSome = true then _ else _)
      split
      · exact first.stop
      · exact next

/-- The regions in front of them follow each other, too. -/
theorem forall₂_leadingRegions (filled : a < b) (filled' : a < b') {old new : Tree} {file file' : Cursor}
    (starts : file.start = 0) (starts' : file'.start = 0) (stops : Moved a b b' file.stop file'.stop)
    {spaces spaces' : List Cursor} (beside : List.Forall₂ (Cursor.Beside old new a b b') spaces spaces') :
    List.Forall₂ (Region.Follows a b b') (leadingRegions file spaces) (leadingRegions file' spaces') := by
  have front : Moved a b b' 0 0 := .before (Nat.zero_le a)
  cases beside with
  | nil =>
      rw [leadingRegions, leadingRegions, starts, starts']
      exact .cons ⟨front, stops, rfl, rfl⟩ .nil
  | @cons n n' _ _ first _ =>
      have room : 0 < n'.start ↔ 0 < n.start := by
        have starts := (front.aligned filled filled' _ _ first.start).1
        omega
      rw [leadingRegions, leadingRegions, starts, starts']
      simp only [room]
      split
      · exact .cons ⟨front, first.start, rfl, rfl⟩ .nil
      · exact .nil

/-- Declarations that correspond bind the same in each region. -/
theorem boundWith_of_beside {old new : Tree} (fit : Exchangeable old new) (isClassLike : old.kind.isClassLike = true)
    {ds ds' : List Cursor} (kinds : ∀ d ∈ ds, d.kind = .useDecl)
    (beside : List.Forall₂ (Cursor.Beside old new a b b') ds ds')
    (positions : ∀ o o', Moved a b b' o o' → regions'.position? o' = regions.position? o) (position : Nat) :
    boundWith Cursor.bindings regions' ds' position = boundWith Cursor.bindings regions ds position := by
  induction beside with
  | nil => rfl
  | @cons d d' _ _ first _ ih =>
      obtain ⟨isUse, kinds⟩ := List.forall_mem_cons.mp kinds
      have other := Cursor.ne_of_kind isClassLike isUse rfl
      have here : boundWith Cursor.bindings regions' [d'] position =
          boundWith Cursor.bindings regions [d] position := by
        rw [boundWith_singleton, boundWith_singleton, positions _ _ first.start,
          Cursor.bindings_of_alike fit isClassLike first.alike other]
      rw [boundWith_cons, here, ih kinds, ← boundWith_cons]

/-- Declarations in one region bind together what they bind there. -/
theorem boundWith_of_position? {ds : List Cursor} {region : Option Nat}
    (there : ∀ d ∈ ds, regions.position? d.start = region) (position : Nat) :
    boundWith Cursor.bindings regions ds position =
      if region = some position then ds.flatMap Cursor.bindings else [] := by
  rw [boundWith]
  split
  · rename_i here
    rw [List.filter_eq_self.mpr fun d mem => ?_]
    rw [there d mem, here]
    exact beq_self_eq_true _
  · rename_i elsewhere
    rw [List.filter_eq_nil_iff.mpr fun d mem => ?_]
    · rfl
    · rw [there d mem, beq_iff_eq]
      exact elsewhere

/-- What is bound in a region comes from the one declarations and then from the other ones. -/
theorem boundWith_append (regions : Regions) (ds es : List Cursor) (position : Nat) :
    boundWith Cursor.bindings regions (ds ++ es) position =
      boundWith Cursor.bindings regions ds position ++ boundWith Cursor.bindings regions es position := by
  rw [boundWith, List.filter_append, List.flatMap_append]
  rfl

/-- **Where the regions follow each other and the same is bound in each, names are looked up in the same way.** -/
theorem lookup_foldl_bindWith (filled : a < b) (filled' : a < b')
    (follow : List.Forall₂ (Region.Follows a b b') regions regions') {ds ds' : List Cursor}
    (bound : ∀ position,
      boundWith Cursor.bindings regions' ds' position = boundWith Cursor.bindings regions ds position)
    {o o' : Nat} (aligned : Aligned a b b' o o') :
    namespaceAt? (ds'.foldl (bindWith Cursor.bindings) regions') o' =
        namespaceAt? (ds.foldl (bindWith Cursor.bindings) regions) o ∧
      importsAt (ds'.foldl (bindWith Cursor.bindings) regions') o' =
        importsAt (ds.foldl (bindWith Cursor.bindings) regions) o := by
  have same := rel_at? filled filled' follow aligned
  rw [namespaceAt?, namespaceAt?, importsAt, importsAt, at?_foldl_bindWith, at?_foldl_bindWith]
  revert same
  generalize regions.at? o = found
  generalize regions'.at? o' = found'
  rintro (@⟨⟨position, r⟩, ⟨_, r'⟩, rfl, following⟩ | _)
  · refine ⟨following.name, ?_⟩
    have imports := following.imports
    simp only [Option.map_some, Option.getD_some, Region.addImports, bound] at imports ⊢
    rw [imports]
  · exact ⟨rfl, rfl⟩

end Regions

/-! ## (3) Texts that differ in one class-like -/

/-- `Rewritten source source' c new`: two texts differ in one class-like only, which is `c` in the first one and `new`
in the second one. It keeps its name, declares no namespace inside, and imports the same inside of it. -/
structure Rewritten (source source' : Text) (c : Cursor) (new : Tree) : Prop where
  /-- The class-like is one of the first text. -/
  mem : c ∈ (Cursor.ofText source).classLikes
  /-- There is a class-like of the same kind in its place. -/
  fit : Exchangeable c.tree new
  /-- The rest of the second text is that of the first one. -/
  rest : (c.replaced new).top.tree = (Parse.ofText source').tree
  /-- It has a name. -/
  named : c.identifier?.isSome = true
  /-- The name is kept. -/
  name : (c.replaced new).identifier?.map Cursor.text = c.identifier?.map Cursor.text
  /-- No namespace is declared inside. -/
  plain : c.ofKind .namespaceDef = []
  /-- No namespace is declared inside afterwards. -/
  plain' : (c.replaced new).ofKind .namespaceDef = []
  /-- What is imported inside is kept. -/
  imports : ((c.replaced new).ofKind .useDecl).flatMap Cursor.bindings = (c.ofKind .useDecl).flatMap Cursor.bindings

namespace Rewritten

variable {source source' : Text} {c : Cursor} {new : Tree}

/-- The nodes of a kind among some places. -/
def among (kind : Kind) (ds : List Cursor) : List Cursor := (ds.filter fun d => !d.isLeaf).filter (·.kind == kind)

/-- Among places that correspond, the nodes of a kind do. -/
theorem forall₂_among {old new : Tree} (fit : Exchangeable old new) {a b b' : Nat} {ds ds' : List Cursor}
    (beside : List.Forall₂ (Cursor.Beside old new a b b') ds ds') (kind : Kind) :
    List.Forall₂ (Cursor.Beside old new a b b') (among kind ds) (among kind ds') := by
  refine List.rel_filter (fun d d' beside => ?_) (List.rel_filter (fun d d' beside => ?_) beside)
  · have same : d'.kind = d.kind := beside.alike.kind_eq fit
    beta_reduce
    rw [same]
  · have same : d'.isLeaf = d.isLeaf := beside.alike.isLeaf_eq fit
    beta_reduce
    rw [same]

section

variable (rewritten : Rewritten source source' c new)

include rewritten

theorem isClassLike : c.kind.isClassLike = true := (List.mem_filter.mp rewritten.mem).2

theorem isClassLike' : (c.replaced new).kind.isClassLike = true := by
  rw [Cursor.kind, Cursor.tree_replaced, rewritten.fit.kind]
  exact rewritten.isClassLike

theorem inFile : c ∈ (Cursor.ofText source).elements :=
  List.mem_of_mem_filter (List.mem_of_mem_filter rewritten.mem)

/-- The places of both texts, apart from those in the class-like. -/
theorem exists_elements : ∃ front back front' back',
    (Cursor.ofText source).elements = front ++ (c.elements ++ back) ∧
    (Cursor.ofText source').elements = front' ++ ((c.replaced new).elements ++ back') ∧
    List.Forall₂ (Cursor.Beside c.tree new c.start c.stop (c.replaced new).stop) front front' ∧
    List.Forall₂ (Cursor.Beside c.tree new c.start c.stop (c.replaced new).stop) back back' := by
  have split := Cursor.exists_elements_replaced rewritten.inFile new
  rwa [Cursor.top_eq, rewritten.rest] at split

theorem inFile' : c.replaced new ∈ (Cursor.ofText source').elements := by
  obtain ⟨front, back, front', back', -, here', -, -⟩ := rewritten.exists_elements
  rw [here']
  exact List.mem_append_right _ (List.mem_append_left _ (Cursor.self_mem_elements _))

theorem mem' : c.replaced new ∈ (Cursor.ofText source').classLikes := by
  have node : (c.replaced new).isLeaf = false := by
    rw [Cursor.isLeaf, Cursor.tree_replaced]
    exact rewritten.fit.node'
  exact List.mem_filter.mpr ⟨List.mem_filter.mpr ⟨rewritten.inFile', by rw [node]; rfl⟩, rewritten.isClassLike'⟩

/-- The nodes of a kind. -/
theorem exists_ofKind (kind : Kind) : ∃ front back front' back',
    (Cursor.ofText source).ofKind kind = front ++ (c.ofKind kind ++ back) ∧
    (Cursor.ofText source').ofKind kind = front' ++ ((c.replaced new).ofKind kind ++ back') ∧
    List.Forall₂ (Cursor.Beside c.tree new c.start c.stop (c.replaced new).stop) front front' ∧
    List.Forall₂ (Cursor.Beside c.tree new c.start c.stop (c.replaced new).stop) back back' := by
  obtain ⟨front, back, front', back', here, here', inFront, behind⟩ := rewritten.exists_elements
  have read (d : Cursor) : d.ofKind kind = among kind d.elements := rfl
  have append (ds es : List Cursor) : among kind (ds ++ es) = among kind ds ++ among kind es := by
    rw [among, List.filter_append, List.filter_append]
    rfl
  refine ⟨_, _, _, _, ?_, ?_, forall₂_among rewritten.fit inFront kind, forall₂_among rewritten.fit behind kind⟩
  · rw [read, here, append, append, ← read]
  · rw [read, here', append, append, ← read]

/-- The texts end behind the class-like. -/
theorem moved_stop : Moved c.start c.stop (c.replaced new).stop (Cursor.ofText source).stop
    (Cursor.ofText source').stop := by
  obtain ⟨front, back, front', back', here, here', inFront, -⟩ := rewritten.exists_elements
  rw [Cursor.elements_eq] at here here'
  cases inFront with
  | nil =>
      -- The text itself is no class-like.
      rw [List.nil_append, Cursor.elements_eq] at here
      have isClassLike := rewritten.isClassLike
      rw [← (List.cons.inj here).1] at isClassLike
      cases isClassLike
  | cons first _ =>
      rw [(List.cons.inj here).1, (List.cons.inj here').1]
      exact first.stop

/-- Both class-likes have the token of their name. -/
theorem exists_tokens : (∃ token, token ∈ c.tokens) ∧ ∃ token, token ∈ (c.replaced new).tokens := by
  obtain ⟨token, named⟩ := Option.isSome_iff_exists.mp rewritten.named
  have named' : (c.replaced new).identifier?.map Cursor.text = some token.text := by rw [rewritten.name, named]; rfl
  obtain ⟨token', named', -⟩ := Option.map_eq_some_iff.mp named'
  exact ⟨⟨token, (Cursor.mem_of_token? named).1⟩, token', (Cursor.mem_of_token? named').1⟩

/-- What is replaced is not empty. -/
theorem filled : c.start < c.stop := by
  obtain ⟨⟨token, inTokens⟩, -⟩ := rewritten.exists_tokens
  exact Cursor.start_lt_stop_of_mem_tokens rewritten.inFile (Cursor.self_mem_elements _) inTokens

/-- Neither is what stands in its place. -/
theorem filled' : c.start < (c.replaced new).stop := by
  obtain ⟨-, token, inTokens⟩ := rewritten.exists_tokens
  have filled := Cursor.start_lt_stop_of_mem_tokens rewritten.inFile' (Cursor.self_mem_elements _) inTokens
  rwa [Cursor.start_replaced] at filled

/-- What is below the class-like lies strictly inside of it. -/
theorem inside {part e token : Cursor} (inside : part ∈ c.elements) (plain : part.kind.isClassLike = false)
    (below : e ∈ part.elements) (inTokens : token ∈ e.tokens) : c.start < part.start ∧ part.start < c.stop := by
  obtain ⟨⟨front, inFront⟩, -⟩ := rewritten.exists_tokens
  exact Cursor.strictly_within rewritten.inFile rewritten.isClassLike inFront inside plain below inTokens

/-- The same for what stands in its place. -/
theorem inside' {part e token : Cursor} (inside : part ∈ (c.replaced new).elements)
    (plain : part.kind.isClassLike = false) (below : e ∈ part.elements) (inTokens : token ∈ e.tokens) :
    c.start < part.start ∧ part.start < (c.replaced new).stop := by
  obtain ⟨-, front, inFront⟩ := rewritten.exists_tokens
  have within := Cursor.strictly_within rewritten.inFile' rewritten.isClassLike' inFront inside plain below inTokens
  rwa [Cursor.start_replaced] at within

/-! ## (4) What names mean in both texts -/

/-- Regions follow each other before imports. -/
theorem withoutImports_follow : List.Forall₂ (Region.Follows c.start c.stop (c.replaced new).stop)
    (Regions.withoutImports (Cursor.ofText source)) (Regions.withoutImports (Cursor.ofText source')) := by
  obtain ⟨front, back, front', back', here, here', inFront, behind⟩ := rewritten.exists_ofKind .namespaceDef
  rw [rewritten.plain, List.nil_append] at here
  rw [rewritten.plain', List.nil_append] at here'
  have kinds : ∀ n ∈ (Cursor.ofText source).namespaces, n.kind = .namespaceDef :=
    fun n mem => beq_iff_eq.mp (List.mem_filter.mp mem).2
  rw [Cursor.namespaces, here] at kinds
  have beside : List.Forall₂ (Cursor.Beside c.tree new c.start c.stop (c.replaced new).stop) (front ++ back)
      (front' ++ back') := List.rel_append inFront behind
  rw [Regions.withoutImports_eq, Regions.withoutImports_eq, Cursor.namespaces, Cursor.namespaces, here, here']
  have starts (text : Text) : (Cursor.ofText text).start = 0 := rfl
  have leading := Regions.forall₂_leadingRegions rewritten.filled rewritten.filled' (starts source) (starts source')
    rewritten.moved_stop beside
  have declared := Regions.forall₂_namespaceRegions rewritten.fit rewritten.isClassLike rewritten.moved_stop beside
    kinds
  exact @List.rel_append _ _ _ _ _ leading _ _ declared

/-- The region of an offset has the same position. -/
theorem position?_eq {o o' : Nat} (aligned : Aligned c.start c.stop (c.replaced new).stop o o') :
    (Regions.withoutImports (Cursor.ofText source')).position? o' =
      (Regions.withoutImports (Cursor.ofText source)).position? o :=
  Regions.position?_of_aligned rewritten.filled rewritten.filled' rewritten.withoutImports_follow aligned

/-- Inside of the class-likes all offsets are in one region. -/
theorem position?_inside {o o' : Nat} (starts : c.start < o) (stops : o < c.stop) (starts' : c.start < o')
    (stops' : o' < (c.replaced new).stop) :
    (Regions.withoutImports (Cursor.ofText source')).position? o' =
      (Regions.withoutImports (Cursor.ofText source)).position? o :=
  rewritten.position?_eq (.inside starts stops starts' stops')

variable {inner inner' : Nat} (starts : c.start < inner) (stops : inner < c.stop) (starts' : c.start < inner')
  (stops' : inner' < (c.replaced new).stop)

include starts stops starts' stops'

/-- Each region imports the same. -/
theorem boundWith_eq (position : Nat) :
    Regions.boundWith Cursor.bindings (Regions.withoutImports (Cursor.ofText source'))
        ((Cursor.ofText source').ofKind .useDecl) position =
      Regions.boundWith Cursor.bindings (Regions.withoutImports (Cursor.ofText source))
        ((Cursor.ofText source).ofKind .useDecl) position := by
  obtain ⟨front, back, front', back', here, here', inFront, behind⟩ := rewritten.exists_ofKind .useDecl
  have positions : ∀ o o', Moved c.start c.stop (c.replaced new).stop o o' → _ = _ := fun o o' moved =>
    rewritten.position?_eq (moved.aligned rewritten.filled rewritten.filled')
  obtain ⟨⟨mark, inTokens⟩, mark', inTokens'⟩ := rewritten.exists_tokens
  -- All use declarations in the replaced node fall into the region around it, in the old file and in the new one.
  have there : ∀ d ∈ c.ofKind .useDecl,
      (Regions.withoutImports (Cursor.ofText source)).position? d.start =
        (Regions.withoutImports (Cursor.ofText source)).position? inner := by
    intro d mem
    obtain ⟨begins, ends⟩ := Cursor.within_of_mem_useDecl rewritten.inFile rewritten.isClassLike inTokens mem
    rw [← rewritten.position?_inside begins ends starts' stops', rewritten.position?_inside starts stops starts' stops']
  have there' : ∀ d ∈ (c.replaced new).ofKind .useDecl,
      (Regions.withoutImports (Cursor.ofText source')).position? d.start =
        (Regions.withoutImports (Cursor.ofText source)).position? inner := by
    intro d mem
    obtain ⟨begins, ends⟩ := Cursor.within_of_mem_useDecl rewritten.inFile' rewritten.isClassLike' inTokens' mem
    rw [Cursor.start_replaced] at begins
    exact rewritten.position?_inside starts stops begins ends
  have kinds : ∀ d ∈ (Cursor.ofText source).ofKind .useDecl, d.kind = .useDecl :=
    fun d mem => beq_iff_eq.mp (List.mem_filter.mp mem).2
  rw [here] at kinds ⊢
  rw [here']
  obtain ⟨kinds, inner⟩ := List.forall_mem_append.mp kinds
  obtain ⟨-, kinds'⟩ := List.forall_mem_append.mp inner
  revert positions there there'
  generalize Regions.withoutImports (Cursor.ofText source) = regions
  generalize Regions.withoutImports (Cursor.ofText source') = regions'
  intro positions there there'
  simp only [Regions.boundWith_append]
  rw [Regions.boundWith_of_beside rewritten.fit rewritten.isClassLike kinds inFront positions,
    Regions.boundWith_of_beside rewritten.fit rewritten.isClassLike kinds' behind positions,
    Regions.boundWith_of_position? there, Regions.boundWith_of_position? there', rewritten.imports]

/-- Names are looked up in the same way. -/
theorem lookup_eq {o o' : Nat} (aligned : Aligned c.start c.stop (c.replaced new).stop o o') :
    (Regions.ofFile (Cursor.ofText source')).namespaceAt? o' =
        (Regions.ofFile (Cursor.ofText source)).namespaceAt? o ∧
      (Regions.ofFile (Cursor.ofText source')).importsAt o' =
        (Regions.ofFile (Cursor.ofText source)).importsAt o := by
  have bound := rewritten.boundWith_eq starts stops starts' stops'
  have follow := rewritten.withoutImports_follow
  rw [Regions.ofFile_eq, Regions.ofFile_eq]
  revert bound follow
  generalize Regions.withoutImports (Cursor.ofText source) = regions
  generalize Regions.withoutImports (Cursor.ofText source') = regions'
  generalize (Cursor.ofText source).ofKind .useDecl = ds
  generalize (Cursor.ofText source').ofKind .useDecl = ds'
  intro bound follow
  exact Regions.lookup_foldl_bindWith rewritten.filled rewritten.filled' follow bound aligned

/-- **Inside of the class-likes each name means the same in both texts.** -/
theorem resolve_inside (text : Text) :
    (Regions.ofFile (Cursor.ofText source')).resolve text inner' =
      (Regions.ofFile (Cursor.ofText source)).resolve text inner := by
  obtain ⟨space, imports⟩ := rewritten.lookup_eq starts stops starts' stops' (.inside starts stops starts' stops')
  exact Regions.resolve_congr space (by rw [imports])

/-- **The class-likes are named the same in both texts.** -/
theorem className?_eq :
    (Regions.ofFile (Cursor.ofText source')).className? (c.replaced new) =
      (Regions.ofFile (Cursor.ofText source)).className? c := by
  have front : Moved c.start c.stop (c.replaced new).stop c.start c.start := .before (Nat.le_refl _)
  obtain ⟨space, -⟩ := rewritten.lookup_eq starts stops starts' stops'
    (front.aligned rewritten.filled rewritten.filled')
  have read (regions : Regions) (d : Cursor) :
      regions.className? d = (d.identifier?.map Cursor.text).map (Regions.qualify (regions.namespaceAt? d.start)) := by
    rw [Regions.className?, Option.map_map]
    rfl
  rw [read, read, rewritten.name, Cursor.start_replaced, space]

end

end Rewritten

end PhpMembers
