import Mathlib.Data.List.TakeWhile
import PhpMembers.Proofs.Search.Names
import PhpMembers.Proofs.Source.Regions

/-! # The imports of a region

Use declarations bind names in the region in which they start, and there these names mean the classes that
are imported. No region sees the imports of another one.

* `Cursor.bindings`, `Cursor.Imports` : what a use declaration binds.
* `Regions.bindDeclaration_eq`, `Regions.at?_foldl_bindWith` : imports are added to one region.
* `RegionAt.mem_importsAt_iff` : the imports of a region are those of the declarations in it.
* `regions_keep_apart` : namespaces, imports and names of class-likes by regions.
* `adjacentImport_leaks` : an import right behind a closing brace is not kept apart. -/

namespace PhpMembers

/-! ## (1) What a use declaration binds -/

namespace Cursor

/-- Whether a use declaration imports classes, not functions or constants. -/
def importsClasses (d : Cursor) : Bool := !(d.hasToken .functionKw || d.hasToken .constKw)

/-- A path behind the part that a group has in common. -/
def behind : Option Text → Text → Text
  | some common, path => common ++ '\\' :: path
  | none, path => path

/-- What a clause binds: the lower-cased name, and the class. -/
def binding? (common : Option Text) (clause : Cursor) : Option (Text × Text) :=
  clause.plainName?.bind fun path =>
    clause.importedAs?.map fun shortName => (lowerCase shortName, behind common path)

/-- The part that the clauses of a group have in common. -/
def commonPart (group : Cursor) : Text := group.plainName?.getD []

/-- What a use declaration binds, in order. -/
def bindings (d : Cursor) : List (Text × Text) :=
  if d.importsClasses then
    (d.nodesOf .useClause).filterMap (binding? none) ++
      (d.nodesOf .useGroup).flatMap fun group =>
        (group.nodesOf .useClause).filterMap (binding? (some group.commonPart))
  else []

/-- `d.Imports clause alias target`: a clause of the use declaration binds the name, which is in lower case,
to the class. -/
inductive Imports (d clause : Cursor) : Text → Text → Prop
  /-- A clause by itself. -/
  | single {path shortName : Text} :
      d.importsClasses = true → clause ∈ d.nodesOf .useClause → clause.plainName? = some path →
      clause.importedAs? = some shortName → Imports d clause (lowerCase shortName) path
  /-- A clause in a group, whatever word stands in front of it. -/
  | grouped {group : Cursor} {path shortName : Text} :
      d.importsClasses = true → group ∈ d.nodesOf .useGroup → clause ∈ group.nodesOf .useClause →
      clause.plainName? = some path → clause.importedAs? = some shortName →
      Imports d clause (lowerCase shortName) (group.commonPart ++ '\\' :: path)

variable {d d' clause : Cursor} {name name' target target' : Text}

/-- A clause binds the name that it introduces to the class that it names. -/
theorem binding?_eq_some_iff {common : Option Text} : clause.binding? common = some (name, target) ↔
    ∃ path shortName, clause.plainName? = some path ∧ clause.importedAs? = some shortName ∧
      lowerCase shortName = name ∧ behind common path = target := by
  simp only [binding?, Option.bind_eq_some_iff, Option.map_eq_some_iff, Prod.mk.injEq]
  constructor
  · rintro ⟨path, named, shortName, introduced, same⟩
    exact ⟨path, shortName, named, introduced, same⟩
  · rintro ⟨path, shortName, named, introduced, same⟩
    exact ⟨path, named, shortName, introduced, same⟩

/-- **A use declaration binds what its clauses import.** -/
theorem mem_bindings_iff : (name, target) ∈ d.bindings ↔ ∃ clause, d.Imports clause name target := by
  rw [bindings]
  constructor
  · intro mem
    split at mem
    · rename_i classes
      -- A clause stands in the declaration itself or in a group of it.
      rcases List.mem_append.mp mem with alone | inGroup
      · obtain ⟨clause, part, bound⟩ := List.mem_filterMap.mp alone
        obtain ⟨path, shortName, named, introduced, rfl, rfl⟩ := binding?_eq_some_iff.mp bound
        exact ⟨clause, .single classes part named introduced⟩
      · obtain ⟨group, ofDeclaration, bound⟩ := List.mem_flatMap.mp inGroup
        obtain ⟨clause, part, bound⟩ := List.mem_filterMap.mp bound
        obtain ⟨path, shortName, named, introduced, rfl, rfl⟩ := binding?_eq_some_iff.mp bound
        exact ⟨clause, .grouped classes ofDeclaration part named introduced⟩
    · cases mem
  · rintro ⟨clause, imports⟩
    cases imports with
    | single classes part named introduced =>
        rw [if_pos classes]
        refine List.mem_append_left _ (List.mem_filterMap.mpr ⟨clause, part, ?_⟩)
        exact binding?_eq_some_iff.mpr ⟨_, _, named, introduced, rfl, rfl⟩
    | @grouped group path shortName classes ofDeclaration part named introduced =>
        rw [if_pos classes]
        refine List.mem_append_right _ (List.mem_flatMap.mpr ⟨group, ofDeclaration, ?_⟩)
        refine List.mem_filterMap.mpr ⟨clause, part, ?_⟩
        exact binding?_eq_some_iff.mpr ⟨_, _, named, introduced, rfl, rfl⟩

/-- A part of a node of a kind is a part of one node only, and it has the kind. -/
theorem parent?_of_mem_nodesOf {kind : Kind} (mem : clause ∈ d.nodesOf kind) :
    clause.parent? = some d ∧ clause.kind = kind := by
  obtain ⟨inNodes, isKind⟩ := List.mem_filter.mp mem
  exact ⟨parent?_of_mem_children (List.mem_of_mem_filter inNodes), beq_iff_eq.mp isKind⟩

/-- The part that a clause has in common with the others of its group. -/
def commonPart? (clause : Cursor) : Option Text :=
  (clause.parent?.filter (·.kind == .useGroup)).map commonPart

/-- The class that a clause imports can be read off the clause and its place. -/
theorem Imports.target_eq (isUse : d.kind = .useDecl) (imports : d.Imports clause name target) :
    clause.plainName?.map (behind clause.commonPart?) = some target := by
  cases imports with
  | single _ part named _ =>
      have parent := (parent?_of_mem_nodesOf part).1
      have alone : clause.commonPart? = none := by
        simp [commonPart?, parent, Option.filter, isUse]
      rw [named, alone]
      rfl
  | @grouped group _ _ _ ofDeclaration part named _ =>
      have parent := (parent?_of_mem_nodesOf part).1
      have isGroup := (parent?_of_mem_nodesOf ofDeclaration).2
      have together : clause.commonPart? = some group.commonPart := by
        simp [commonPart?, parent, Option.filter, isGroup]
      rw [named, together]
      rfl

/-- **A clause imports one class.** -/
theorem Imports.target_unique (isUse : d.kind = .useDecl) (isUse' : d'.kind = .useDecl)
    (imports : d.Imports clause name target) (imports' : d'.Imports clause name' target') :
    target' = target :=
  Option.some.inj ((imports'.target_eq isUse').symm.trans (imports.target_eq isUse))

end Cursor

/-! ## (2) Binding imports -/

namespace Region

/-- The region without its imports. -/
def bare (r : Region) : Region := { r with imports := [] }

/-- The region with more imports, given in the order in which they are bound. -/
def addImports (r : Region) (bound : List (Text × Text)) : Region :=
  { r with imports := bound.reverse ++ r.imports }

@[simp] theorem contains_bare (r : Region) (offset : Nat) : r.bare.contains offset = r.contains offset := rfl

@[simp] theorem addImports_nil (r : Region) : r.addImports [] = r := rfl

@[simp] theorem addImports_addImports (r : Region) (bound more : List (Text × Text)) :
    (r.addImports bound).addImports more = r.addImports (bound ++ more) := by
  simp [addImports]

end Region

namespace Regions

variable {regions : Regions} {offset position : Nat}

/-- Nothing is added by no imports. -/
theorem modify_addImports_nil (position : Nat) (regions : Regions) :
    regions.modify position (·.addImports []) = regions := by
  simp only [Region.addImports_nil]
  exact List.modify_id position regions

/-- Imports that are added one after the other are added together. -/
theorem modify_addImports_append (position : Nat) (regions : Regions) (bound more : List (Text × Text)) :
    (regions.modify position (·.addImports bound)).modify position (·.addImports more) =
      regions.modify position (·.addImports (bound ++ more)) := by
  rw [List.modify_modify_eq]
  congr 1
  funext r
  exact r.addImports_addImports bound more

/-- A clause adds what it binds to the region. -/
theorem bindClause_eq (position : Nat) (common : Option Text) (regions : Regions) (clause : Cursor) :
    bindClause position common regions clause =
      regions.modify position (·.addImports (clause.binding? common).toList) := by
  rw [bindClause, Cursor.binding?, Cursor.plainName?]
  cases clause.name? with
  | none => exact (modify_addImports_nil position regions).symm
  | some name =>
      cases clause.importedAs? with
      | none => exact (modify_addImports_nil position regions).symm
      | some shortName =>
          cases common with
          | none => rfl
          | some first => rfl

/-- So do several clauses. -/
theorem foldl_bindClause (position : Nat) (common : Option Text) (clauses : List Cursor)
    (regions : Regions) : clauses.foldl (bindClause position common) regions =
      regions.modify position (·.addImports (clauses.filterMap (·.binding? common))) := by
  induction clauses generalizing regions with
  | nil => exact (modify_addImports_nil position regions).symm
  | cons clause rest ih =>
      rw [List.foldl_cons, ih, bindClause_eq, modify_addImports_append]
      congr 1
      funext r
      cases bound : clause.binding? common with
      | none => rw [List.filterMap_cons_none bound]; rfl
      | some b => rw [List.filterMap_cons_some bound]; rfl

/-- And so do the groups of a declaration. -/
theorem foldl_groups (position : Nat) (groups : List Cursor) (regions : Regions) :
    groups.foldl (fun bound group => (group.nodesOf .useClause).foldl
        (bindClause position (some group.commonPart)) bound) regions =
      regions.modify position (·.addImports (groups.flatMap fun group =>
        (group.nodesOf .useClause).filterMap (·.binding? (some group.commonPart)))) := by
  induction groups generalizing regions with
  | nil => exact (modify_addImports_nil position regions).symm
  | cons group rest ih =>
      rw [List.foldl_cons, ih, foldl_bindClause, modify_addImports_append, List.flatMap_cons]

/-- The regions with what a declaration binds added to the one in which it starts. -/
def bindWith (bindings : Cursor → List (Text × Text)) (regions : Regions) (d : Cursor) : Regions :=
  match regions.at? d.start with
  | some (position, _) => regions.modify position (·.addImports (bindings d))
  | none => regions

/-- **A use declaration adds what it binds to the region in which it starts.** -/
theorem bindDeclaration_eq (regions : Regions) (d : Cursor) :
    bindDeclaration regions d = bindWith Cursor.bindings regions d := by
  rw [bindDeclaration, bindWith, Cursor.bindings, Cursor.importsClasses]
  cases (d.hasToken .functionKw || d.hasToken .constKw) with
  | true =>
      simp only [if_true, Bool.not_true]
      cases regions.at? d.start with
      | none => rfl
      | some found => exact (modify_addImports_nil found.1 regions).symm
  | false =>
      cases regions.at? d.start with
      | none => rfl
      | some found =>
          have groups := foldl_groups found.1 (d.nodesOf .useGroup)
            ((d.nodesOf .useClause).foldl (bindClause found.1 none) regions)
          exact groups.trans (by rw [foldl_bindClause, modify_addImports_append]; rfl)

/-! ## (3) The region of each import -/

/-- Imports do not decide which region is in effect. -/
theorem indexFrom?_map_bare (offset position : Nat) (regions : Regions) :
    indexFrom? offset position (regions.map Region.bare) =
      (indexFrom? offset position regions).map fun found => (found.1, found.2.bare) := by
  induction regions generalizing position with
  | nil => rfl
  | cons r rest ih =>
      rw [List.map_cons, indexFrom?, indexFrom?, ih]
      cases indexFrom? offset (position + 1) rest with
      | none =>
          rw [Option.map_none]
          by_cases contains : r.contains offset = true
          · simp [contains]
          · simp [contains]
      | some found =>
          rw [Option.map_some]
          have starts : found.2.bare.start = found.2.start ∧ r.bare.start = r.start := ⟨rfl, rfl⟩
          by_cases wins : (r.contains offset && decide (found.2.start < r.start)) = true
          · simp [starts, wins]
          · simp [starts, wins]

/-- The position of the region in effect. -/
def position? (regions : Regions) (offset : Nat) : Option Nat := (regions.at? offset).map (·.1)

/-- It does not depend on imports. -/
theorem position?_congr {regions regions' : Regions}
    (same : regions.map Region.bare = regions'.map Region.bare) (offset : Nat) :
    regions.position? offset = regions'.position? offset := by
  have bare (rs : Regions) : position? rs offset = position? (rs.map Region.bare) offset := by
    rw [position?, position?, at?, at?, indexFrom?_map_bare, Option.map_map]
    rfl
  rw [bare regions, bare regions', same]

/-- What declarations bind in the region at a position. -/
def boundAt (regions : Regions) (declarations : List Cursor) (position : Nat) : List (Text × Text) :=
  (declarations.filter fun d => regions.position? d.start == some position).flatMap Cursor.bindings

/-- The same with any reading of what a declaration binds. -/
def boundWith (bindings : Cursor → List (Text × Text)) (regions : Regions) (declarations : List Cursor)
    (position : Nat) : List (Text × Text) :=
  (declarations.filter fun d => regions.position? d.start == some position).flatMap bindings

section

variable (bindings : Cursor → List (Text × Text))

theorem boundWith_singleton (regions : Regions) (d : Cursor) (position : Nat) :
    boundWith bindings regions [d] position =
      if position? regions d.start = some position then bindings d else [] := by
  by_cases here : position? regions d.start = some position
  · simp [boundWith, here]
  · simp [boundWith, here]

theorem boundWith_cons (regions : Regions) (d : Cursor) (rest : List Cursor) (position : Nat) :
    boundWith bindings regions (d :: rest) position =
      boundWith bindings regions [d] position ++ boundWith bindings regions rest position := by
  have split : d :: rest = [d] ++ rest := rfl
  rw [boundWith, split, List.filter_append, List.flatMap_append]
  rfl

/-- A declaration changes the imports of its region, and nothing else. -/
theorem getElem?_bindWith (regions : Regions) (d : Cursor) (i : Nat) :
    (bindWith bindings regions d)[i]? =
      regions[i]?.map (·.addImports (boundWith bindings regions [d] i)) := by
  rw [bindWith, boundWith_singleton, position?]
  cases regions.at? d.start with
  | none => simp
  | some found =>
      rw [List.getElem?_modify]
      by_cases here : found.1 = i
      · simp [here]
      · simp [here]

/-- Regions that differ in their imports only. -/
theorem map_bare_of_getElem? {regions regions' : Regions} (bound : Nat → List (Text × Text))
    (added : ∀ i : Nat, regions'[i]? = regions[i]?.map fun r => r.addImports (bound i)) :
    regions'.map Region.bare = regions.map Region.bare := by
  refine List.ext_getElem? fun i => ?_
  rw [List.getElem?_map, List.getElem?_map, added, Option.map_map]
  rfl

/-- Declarations add what they bind to the regions in which they start. -/
theorem getElem?_foldl_bindWith (declarations : List Cursor) (regions : Regions) (i : Nat) :
    (declarations.foldl (bindWith bindings) regions)[i]? =
      regions[i]?.map (·.addImports (boundWith bindings regions declarations i)) := by
  induction declarations generalizing regions with
  | nil =>
      have unchanged : (fun r : Region => r.addImports (boundWith bindings regions [] i)) = id := rfl
      rw [unchanged, Option.map_id, List.foldl_nil, id]
  | cons d rest ih =>
      have added := getElem?_bindWith bindings regions d
      have samePositions :
          boundWith bindings (bindWith bindings regions d) rest i = boundWith bindings regions rest i := by
        rw [boundWith, boundWith]
        simp only [position?_congr (map_bare_of_getElem? _ added)]
      rw [List.foldl_cons, ih, samePositions, added, Option.map_map, boundWith_cons bindings regions d rest]
      congr 1
      funext r
      exact Region.addImports_addImports r _ _

/-- **The region in effect has the imports that are bound in it.** -/
theorem at?_foldl_bindWith (declarations : List Cursor) (regions : Regions) (offset : Nat) :
    at? (declarations.foldl (bindWith bindings) regions) offset =
      (at? regions offset).map fun found =>
        (found.1, found.2.addImports (boundWith bindings regions declarations found.1)) := by
  have added := getElem?_foldl_bindWith bindings declarations regions
  have same := position?_congr (map_bare_of_getElem? _ added) offset
  rw [position?, position?] at same
  cases found : at? regions offset with
  | none =>
      rw [found] at same
      exact Option.map_eq_none_iff.mp same
  | some here =>
      rw [found] at same
      obtain ⟨⟨j, s⟩, found', rfl⟩ := Option.map_eq_some_iff.mp same
      have sameRegion := (getElem?_of_at? found').symm.trans (added here.1)
      rw [getElem?_of_at? found, Option.map_some] at sameRegion
      rw [found', Option.some.inj sameRegion]
      rfl

end

/-- The regions of a file have what its use declarations bind. -/
theorem ofFile_eq (file : Cursor) :
    ofFile file = (file.ofKind .useDecl).foldl (bindWith Cursor.bindings) (withoutImports file) := by
  have asBound : bindDeclaration = bindWith Cursor.bindings := funext₂ bindDeclaration_eq
  rw [ofFile, asBound]
  rfl

/-- The region in effect has the imports that are bound in it. -/
theorem at?_ofFile {file : Cursor} {offset i : Nat} {r : Region}
    (found : at? (withoutImports file) offset = some (i, r)) :
    at? (ofFile file) offset =
      some (i, r.addImports (boundAt (withoutImports file) (file.ofKind .useDecl) i)) := by
  rw [ofFile_eq, at?_foldl_bindWith, found]
  rfl

/-- The imports among which a name is looked up at an offset, see `Regions.resolve_segment`. -/
def importsAt (regions : Regions) (offset : Nat) : List (Text × Text) :=
  ((regions.at? offset).map (·.2.imports)).getD []

end Regions

/-- **The imports in effect are those of the use declarations in the same region**, if no such declaration
begins right where a namespace in braces ends. -/
theorem RegionAt.mem_importsAt_iff {file : Cursor} {declaration? : Option Cursor} {offset : Nat}
    (lie : Consecutive file.stop file.start file.namespaces)
    (apart : ∀ d ∈ file.ofKind .useDecl, ∀ n ∈ file.namespaces, n.block?.isSome = true → d.start ≠ n.stop)
    (here : RegionAt file declaration? offset) {binding : Text × Text} :
    binding ∈ (Regions.ofFile file).importsAt offset ↔
      ∃ d ∈ file.ofKind .useDecl, RegionAt file declaration? d.start ∧ binding ∈ d.bindings := by
  obtain ⟨i, r, -, bare, inEffect, belongs⟩ := here.exists_region lie
  have imports : (Regions.ofFile file).importsAt offset =
      (Regions.boundAt (Regions.withoutImports file) (file.ofKind .useDecl) i).reverse := by
    rw [Regions.importsAt, Regions.at?_ofFile (inEffect offset here)]
    exact (congrArg (_ ++ ·) bare).trans (List.append_nil _)
  rw [imports, List.mem_reverse, Regions.boundAt, List.mem_flatMap]
  constructor
  · rintro ⟨d, mem, bound⟩
    obtain ⟨inFile, same⟩ := List.mem_filter.mp mem
    obtain ⟨⟨j, s⟩, found, rfl⟩ := Option.map_eq_some_iff.mp (beq_iff_eq.mp same)
    -- At one position there is one region.
    have sameRegion := (Regions.getElem?_of_at? found).symm.trans
      (Regions.getElem?_of_at? (inEffect offset here))
    rw [Option.some.inj sameRegion] at found
    exact ⟨d, inFile, belongs d.start (apart d inFile) found, bound⟩
  · rintro ⟨d, inFile, there, bound⟩
    refine ⟨d, List.mem_filter.mpr ⟨inFile, beq_iff_eq.mpr ?_⟩, bound⟩
    rw [Regions.position?, inEffect d.start there]
    rfl

/-- The namespace in effect is the one that is declared. -/
theorem RegionAt.namespaceAt?_eq {file : Cursor} {declaration? : Option Cursor} {offset : Nat}
    (lie : Consecutive file.stop file.start file.namespaces)
    (here : RegionAt file declaration? offset) :
    (Regions.ofFile file).namespaceAt? offset = declaration?.bind Cursor.plainName? := by
  obtain ⟨i, r, name, -, inEffect, -⟩ := here.exists_region lie
  rw [Regions.namespaceAt?, Regions.at?_ofFile (inEffect offset here), ← name]
  rfl

/-! ## (4) What names mean -/

/-- The first segment of a name, which is looked up among the imports. -/
def firstSegment (name : Text) : Text := name.takeWhile (· != '\\')

/-- **A name means the same** where the namespaces agree, and the imports of its first segment. -/
theorem Regions.resolve_congr {regions regions' : Regions} {name : Text} {offset offset' : Nat}
    (space : regions.namespaceAt? offset = regions'.namespaceAt? offset')
    (imported : (regions.importsAt offset).lookup (lowerCase (firstSegment name)) =
      (regions'.importsAt offset').lookup (lowerCase (firstSegment name))) :
    regions.resolve name offset = regions'.resolve name offset' := by
  rw [importsAt, importsAt, firstSegment] at imported
  unfold resolve
  split
  · rfl
  · simp only [space, imported]

/-- A name with one segment means the class that is imported under it, or else a class in the namespace. -/
theorem Regions.resolve_segment (regions : Regions) {text : Text} (offset : Nat) (single : '\\' ∉ text)
    (ordinary : sameIgnoringCase text namespaceWord = false) :
    regions.resolve text offset =
      match (regions.importsAt offset).lookup (lowerCase text) with
      | some target => .ofSyntax target
      | none => qualify (regions.namespaceAt? offset) text := by
  have whole : text.takeWhile (· != '\\') = text :=
    List.takeWhile_eq_self_iff.mpr fun c mem => bne_iff_ne.mpr fun same => single (same ▸ mem)
  unfold resolve
  split
  · exact absurd List.mem_cons_self single
  · simp only [whole, ordinary, Nat.lt_irrefl, if_false]
    rfl

/-- The identifier of a declaration has one segment. -/
theorem Cursor.separator_notMem_identifier {source : Text} {c token : Cursor}
    (mem : c ∈ (ofText source).elements) (named : c.identifier? = some token) : '\\' ∉ token.text := by
  obtain ⟨inTokens, isIdent⟩ := mem_of_token? named
  obtain ⟨inChildren, leaf⟩ := List.mem_filter.mp inTokens
  have inLeaves : token ∈ (ofText source).leaves :=
    List.mem_filter.mpr ⟨children_subset_elements mem inChildren, leaf⟩
  obtain ⟨before, t, inSource, text, recorded⟩ := exists_token inLeaves
  rw [← text]
  exact Token.separator_notMem_text inSource (recorded.ident isIdent)

/-- A key whose entries agree. -/
theorem lookup_eq_some_of_forall {entries : List (Text × Text)} {key value : Text}
    (mem : (key, value) ∈ entries) (agree : ∀ other, (key, other) ∈ entries → other = value) :
    entries.lookup key = some value := by
  cases found : entries.lookup key with
  | none => exact absurd rfl (bne_iff_ne.mp (List.lookup_eq_none_iff.mp found _ mem))
  | some other =>
      obtain ⟨before, after, rfl, -⟩ := List.lookup_eq_some_iff.mp found
      rw [agree other (List.mem_append_right _ List.mem_cons_self)]

/-- **Regions keep their namespaces and imports.** The namespace declarations of a text are statements of the
file itself, and no use declaration begins right where a namespace in braces ends. Then each offset belongs
to one declaration at most, and where it belongs to one:

* the namespace in effect is the one that is declared, without a leading separator; in front of all
  declarations it is the global one;
* a name that is bound by one clause of the region means the class that this clause imports;
* nothing else is imported than by the declarations of the region;
* a class-like of the region has the name that its identifier means anywhere in the region, unless a clause
  of the region binds this identifier. -/
theorem regions_keep_apart (source : Text)
    (topLevel : ∀ n ∈ (Cursor.ofText source).namespaces, n ∈ (Cursor.ofText source).children)
    (apart : ∀ d ∈ (Cursor.ofText source).ofKind .useDecl, ∀ n ∈ (Cursor.ofText source).namespaces,
      n.block?.isSome = true → d.start ≠ n.stop)
    (declaration? : Option Cursor) (offset : Nat)
    (here : RegionAt (Cursor.ofText source) declaration? offset) :
    (∀ other?, RegionAt (Cursor.ofText source) other? offset → other? = declaration?) ∧
    (Regions.ofFile (Cursor.ofText source)).namespaceAt? offset =
      declaration?.bind Cursor.plainName? ∧
    (∀ d ∈ (Cursor.ofText source).ofKind .useDecl, RegionAt (Cursor.ofText source) declaration? d.start →
      ∀ clause name target, d.Imports clause name target →
      (∀ d' ∈ (Cursor.ofText source).ofKind .useDecl,
        RegionAt (Cursor.ofText source) declaration? d'.start →
        ∀ clause' target', d'.Imports clause' name target' → clause' = clause) →
      ((Regions.ofFile (Cursor.ofText source)).importsAt offset).lookup name = some target) ∧
    (∀ name target, (name, target) ∈ (Regions.ofFile (Cursor.ofText source)).importsAt offset →
      ∃ d ∈ (Cursor.ofText source).ofKind .useDecl,
        RegionAt (Cursor.ofText source) declaration? d.start ∧ ∃ clause, d.Imports clause name target) ∧
    ∀ c ∈ (Cursor.ofText source).descendants, c.kind.isClassLike = true →
      RegionAt (Cursor.ofText source) declaration? c.start →
      ∀ token, c.identifier? = some token → sameIgnoringCase token.text namespaceWord = false →
      (∀ d ∈ (Cursor.ofText source).ofKind .useDecl,
        RegionAt (Cursor.ofText source) declaration? d.start →
        ∀ clause target, ¬ d.Imports clause (lowerCase token.text) target) →
      (Regions.ofFile (Cursor.ofText source)).className? c =
        some ((Regions.ofFile (Cursor.ofText source)).resolve token.text offset) := by
  let file := Cursor.ofText source
  have lie : Consecutive file.stop file.start file.namespaces :=
    Cursor.consecutive_namespaces (Cursor.stop_root _) topLevel
  have imported (binding : Text × Text) :=
    @RegionAt.mem_importsAt_iff file declaration? offset lie apart here binding
  have onlyHere : ∀ name target, (name, target) ∈ (Regions.ofFile file).importsAt offset →
      ∃ d ∈ file.ofKind .useDecl, RegionAt file declaration? d.start ∧
        ∃ clause, d.Imports clause name target := by
    intro name target mem
    obtain ⟨d, inFile, there, bound⟩ := (imported _).mp mem
    exact ⟨d, inFile, there, Cursor.mem_bindings_iff.mp bound⟩
  refine ⟨fun other? there => here.unique lie there, here.namespaceAt?_eq lie, ?_, onlyHere, ?_⟩
  · intro d inFile there clause name target imports once
    refine lookup_eq_some_of_forall
      ((imported _).mpr ⟨d, inFile, there, Cursor.mem_bindings_iff.mpr ⟨clause, imports⟩⟩) ?_
    intro target' mem
    obtain ⟨d', inFile', there', clause', imports'⟩ := onlyHere name target' mem
    obtain rfl := once d' inFile' there' clause' target' imports'
    have isUse {u : Cursor} (mem : u ∈ file.ofKind .useDecl) : u.kind = .useDecl :=
      beq_iff_eq.mp (List.mem_filter.mp mem).2
    exact imports.target_unique (isUse inFile) (isUse inFile') imports'
  · intro c inFile _ there token named ordinary notImported
    have unbound : ((Regions.ofFile file).importsAt offset).lookup (lowerCase token.text) = none := by
      refine List.lookup_eq_none_iff.mpr fun binding mem => bne_iff_ne.mpr fun same => ?_
      obtain ⟨d, inFile, there, clause, imports⟩ := onlyHere binding.1 binding.2 mem
      exact notImported d inFile there clause binding.2 (same ▸ imports)
    have single := Cursor.separator_notMem_identifier (List.mem_of_mem_filter inFile) named
    rw [Regions.className?, named, Option.map_some, Regions.resolve_segment _ _ single ordinary, unbound,
      here.namespaceAt?_eq lie, there.namespaceAt?_eq lie]

/-- Two namespaces in braces. What the first one declares the second one imports from elsewhere. -/
def separateNamespaces : Text :=
  ("<?php namespace A \x7buse X\\B; class C \x7b\x7d new C;\x7d namespace D \x7buse Y\\C;\x7d").toList

/-- The class of the first namespace is also the one that is created there. -/
theorem regions_keep_apart_separateNamespaces :
    (∀ n ∈ (Cursor.ofText separateNamespaces).namespaces, n ∈ (Cursor.ofText separateNamespaces).children) ∧
    (∀ d ∈ (Cursor.ofText separateNamespaces).ofKind .useDecl,
      ∀ n ∈ (Cursor.ofText separateNamespaces).namespaces, n.block?.isSome = true → d.start ≠ n.stop) ∧
    ∃ n, RegionAt (Cursor.ofText separateNamespaces) (some n) 43 ∧
      (Regions.ofFile (Cursor.ofText separateNamespaces)).namespaceAt? 43 = n.plainName? ∧
      ∃ c ∈ (Cursor.ofText separateNamespaces).descendants, c.kind.isClassLike = true ∧
        (Regions.ofFile (Cursor.ofText separateNamespaces)).className? c =
          some ((Regions.ofFile (Cursor.ofText separateNamespaces)).resolve ['C'] 43) := by
  have topLevel : ∀ n ∈ (Cursor.ofText separateNamespaces).namespaces,
      n ∈ (Cursor.ofText separateNamespaces).children := Cursor.topLevel_of_length (by decide +kernel)
  have apart : ∀ d ∈ (Cursor.ofText separateNamespaces).ofKind .useDecl,
      ∀ n ∈ (Cursor.ofText separateNamespaces).namespaces, n.block?.isSome = true → d.start ≠ n.stop := by
    decide +kernel
  -- The first import of the region binds another name, and the second one is behind the brace.
  have found : ((Cursor.ofText separateNamespaces).namespaces.any fun n =>
      n.block?.any (·.hasToken .rBrace) && decide (n.start ≤ 43 ∧ 43 < n.stop) &&
        ((Cursor.ofText separateNamespaces).ofKind .useDecl).all (fun d =>
          decide (n.stop ≤ d.start) || d.bindings.all (·.1 != ['c'])) &&
        (Cursor.ofText separateNamespaces).descendants.any fun c =>
          c.kind.isClassLike && decide (n.start ≤ c.start ∧ c.start < n.stop) &&
            c.identifier?.map Cursor.text == some ['C']) = true := by
    decide +kernel
  obtain ⟨n, inFile, fits⟩ := List.any_eq_true.mp found
  simp only [Bool.and_eq_true, Bool.or_eq_true, decide_eq_true_eq, List.all_eq_true, List.any_eq_true,
    beq_iff_eq, bne_iff_ne] at fits
  obtain ⟨⟨⟨closed, begins, ends⟩, others⟩, c, inFile', ⟨isClass, cBegins, cEnds⟩, named⟩ := fits
  obtain ⟨block, braced, closed⟩ := (Option.any_eq_true _ _).mp closed
  have isBraced : n.block?.isSome = true := by rw [braced]; rfl
  obtain ⟨token, named, text⟩ := Option.map_eq_some_iff.mp named
  have here : RegionAt (Cursor.ofText separateNamespaces) (some n) 43 := .braced inFile isBraced begins ends
  obtain ⟨-, space, -, -, names⟩ := regions_keep_apart separateNamespaces topLevel apart (some n) 43 here
  refine ⟨topLevel, apart, n, here, space, c, inFile', isClass, ?_⟩
  rw [← text]
  refine names c inFile' isClass (.braced inFile isBraced cBegins cEnds) token named (by rw [text]; decide) ?_
  intro d mem inside clause target imports
  rcases others d mem with behind | unbound
  · exact absurd (inside.lt_stop braced closed) (Nat.not_lt.mpr behind)
  · rw [text] at imports
    exact unbound _ (Cursor.mem_bindings_iff.mpr ⟨clause, imports⟩) rfl

/-- A namespace in braces, and an import right behind the closing brace. -/
def adjacentImport : Text := "<?php namespace A \x7bclass C \x7b\x7d new C;\x7duse X\\C;".toList

/-- The import is seen inside the braces: there the name of the class means the imported one. -/
theorem adjacentImport_leaks :
    (∀ n ∈ (Cursor.ofText adjacentImport).namespaces, n ∈ (Cursor.ofText adjacentImport).children) ∧
    ∃ n, RegionAt (Cursor.ofText adjacentImport) (some n) 34 ∧
      (∀ d ∈ (Cursor.ofText adjacentImport).ofKind .useDecl,
        ¬ RegionAt (Cursor.ofText adjacentImport) (some n) d.start) ∧
      (∃ c ∈ (Cursor.ofText adjacentImport).descendants, c.kind.isClassLike = true ∧
        RegionAt (Cursor.ofText adjacentImport) (some n) c.start ∧
        c.identifier?.map Cursor.text = some ['C'] ∧
        (Regions.ofFile (Cursor.ofText adjacentImport)).className? c = some ⟨"A\\C".toList⟩) ∧
      (Regions.ofFile (Cursor.ofText adjacentImport)).resolve ['C'] 34 = ⟨"X\\C".toList⟩ := by
  have topLevel : ∀ n ∈ (Cursor.ofText adjacentImport).namespaces,
      n ∈ (Cursor.ofText adjacentImport).children := Cursor.topLevel_of_length (by decide +kernel)
  have found : ((Cursor.ofText adjacentImport).namespaces.any fun n =>
      n.block?.any (·.hasToken .rBrace) && decide (n.start ≤ 34 ∧ 34 < n.stop) &&
        ((Cursor.ofText adjacentImport).ofKind .useDecl).all (fun d => decide (n.stop ≤ d.start)) &&
        (Cursor.ofText adjacentImport).descendants.any fun c =>
          c.kind.isClassLike && decide (n.start ≤ c.start ∧ c.start < n.stop) &&
            c.identifier?.map Cursor.text == some ['C'] &&
            (Regions.ofFile (Cursor.ofText adjacentImport)).className? c ==
              some ⟨"A\\C".toList⟩) = true := by
    decide +kernel
  obtain ⟨n, inFile, fits⟩ := List.any_eq_true.mp found
  simp only [Bool.and_eq_true, decide_eq_true_eq, List.all_eq_true, List.any_eq_true, beq_iff_eq] at fits
  obtain ⟨⟨⟨closed, begins, ends⟩, behind⟩, c, inFile', ⟨⟨isClass, cBegins, cEnds⟩, named⟩, name⟩ := fits
  obtain ⟨block, braced, closed⟩ := (Option.any_eq_true _ _).mp closed
  have isBraced : n.block?.isSome = true := by rw [braced]; rfl
  refine ⟨topLevel, n, .braced inFile isBraced begins ends, fun d mem inside => ?_,
    ⟨c, inFile', isClass, .braced inFile isBraced cBegins cEnds, named, name⟩, by decide +kernel⟩
  exact absurd (inside.lt_stop braced closed) (Nat.not_lt.mpr (behind d mem))

end PhpMembers
