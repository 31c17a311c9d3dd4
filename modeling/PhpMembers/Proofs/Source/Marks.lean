import PhpMembers.Proofs.Source.Imports

/-! # Imports of functions and constants

Names of functions and constants are not names of classes, so their imports should not decide what a class
name means. The word `function` or `const` marks a whole use declaration, or a single clause of a group. A
marked declaration binds nothing. A marked clause, however, is bound like its neighbours.

* `Cursor.isMarked` : clauses with such a word in front of them.
* `Cursor.classBindings`, `Regions.ofClassImports` : what is left without functions and constants.
* `resolve_eq_of_unmarked` : names that no marked clause binds mean the same without all such imports.
* `markedImport_binds` : a marked clause hides a class. -/

namespace PhpMembers

/-! ## (1) The imports of classes -/

namespace Cursor

/-- Whether `function` or `const` stands right in front of the clause. -/
def isMarked (clause : Cursor) : Bool :=
  (clause.left.find? fun t => !t.kind.isTrivia).any fun t => t.kind == .functionKw || t.kind == .constKw

/-- What clauses bind if they are not marked. -/
def classesBound (common : Option Text) (clauses : List Cursor) : List (Text × Text) :=
  (clauses.filter fun clause => !clause.isMarked).filterMap (binding? common)

/-- What a use declaration binds without functions and constants, in whichever way these are marked. -/
def classBindings (d : Cursor) : List (Text × Text) :=
  if d.importsClasses then
    classesBound none (d.nodesOf .useClause) ++
      (d.nodesOf .useGroup).flatMap fun group =>
        classesBound (some group.commonPart) (group.nodesOf .useClause)
  else []

/-- The clauses of a use declaration, by themselves and in groups. -/
def useClauses (d : Cursor) : List Cursor :=
  d.nodesOf .useClause ++ (d.nodesOf .useGroup).flatMap (·.nodesOf .useClause)

variable {d clause : Cursor} {key name target : Text}

/-- What is imported is imported by one of these clauses, under the name that it introduces. -/
theorem Imports.mem_useClauses (imports : d.Imports clause name target) :
    clause ∈ d.useClauses ∧ clause.importedAs?.map lowerCase = some name := by
  cases imports with
  | single _ part _ introduced => exact ⟨List.mem_append_left _ part, by rw [introduced]; rfl⟩
  | grouped _ ofDeclaration part _ introduced =>
      exact ⟨List.mem_append_right _ (List.mem_flatMap.mpr ⟨_, ofDeclaration, part⟩),
        by rw [introduced]; rfl⟩

/-- Marked clauses that do not bind a key do not matter for it. -/
theorem filter_classesBound {common : Option Text} {clauses : List Cursor}
    (unmarked : ∀ clause ∈ clauses, ∀ target,
      clause.binding? common = some (key, target) → clause.isMarked = false) :
    (classesBound common clauses).filter (key == ·.1) =
      (clauses.filterMap (binding? common)).filter (key == ·.1) := by
  rw [classesBound, List.filterMap_filter, List.filter_filterMap, List.filter_filterMap]
  refine List.filterMap_congr fun clause mem => ?_
  cases marked : clause.isMarked with
  | false => rfl
  | true =>
      cases bound : clause.binding? common with
      | none => rfl
      | some b =>
          have other : (key == b.1) = false := by
            refine beq_eq_false_iff_ne.mpr fun same => ?_
            have plain := unmarked clause mem b.2 (by rw [bound, same])
            exact Bool.false_ne_true (plain.symm.trans marked)
          exact (Option.filter_some_neg (p := fun entry : Text × Text => key == entry.1) (by simp [other])).symm

/-- A declaration binds a key to the same classes if no marked clause binds it. -/
theorem filter_classBindings
    (unmarked : ∀ clause target, d.Imports clause key target → clause.isMarked = false) :
    d.classBindings.filter (key == ·.1) = d.bindings.filter (key == ·.1) := by
  rw [classBindings, bindings]
  split
  · rename_i classes
    rw [List.filter_append, List.filter_append, List.filter_flatMap, List.filter_flatMap]
    congr 1
    · refine filter_classesBound fun clause part target bound => ?_
      obtain ⟨path, shortName, named, introduced, rfl, -⟩ := binding?_eq_some_iff.mp bound
      exact unmarked clause _ (.single classes part named introduced)
    · refine List.flatMap_congr fun group ofDeclaration => ?_
      refine filter_classesBound fun clause part target bound => ?_
      obtain ⟨path, shortName, named, introduced, rfl, -⟩ := binding?_eq_some_iff.mp bound
      exact unmarked clause _ (.grouped classes ofDeclaration part named introduced)
  · rfl

end Cursor

/-! ## (2) What the meaning of a name depends on -/

/-- Looking up a key takes its own entries only. -/
theorem lookup_filter (key : Text) (entries : List (Text × Text)) :
    (entries.filter (key == ·.1)).lookup key = entries.lookup key := by
  induction entries with
  | nil => rfl
  | cons entry rest ih =>
      obtain ⟨bound, target⟩ := entry
      cases same : key == bound with
      | true => simp [List.lookup_cons, same]
      | false => simp [List.lookup_cons, same, ih]

namespace Regions

variable {regions regions' : Regions}

/-- The regions of a file without the imports of functions and constants. -/
def ofClassImports (file : Cursor) : Regions :=
  (file.ofKind .useDecl).foldl (bindWith Cursor.classBindings) (withoutImports file)

section

variable {bindings bindings' : Cursor → List (Text × Text)} {declarations : List Cursor}

/-- Imports do not decide about namespaces. -/
theorem namespaceAt?_foldl_bindWith (regions : Regions) (offset : Nat) :
    namespaceAt? (declarations.foldl (bindWith bindings) regions) offset = regions.namespaceAt? offset := by
  rw [namespaceAt?, namespaceAt?, at?_foldl_bindWith]
  cases regions.at? offset with
  | none => rfl
  | some found => rfl

/-- A key is imported alike if the declarations of the region bind it alike. -/
theorem lookup_importsAt_congr {offset : Nat} {key : Text}
    (alike : ∀ d ∈ declarations, regions.position? d.start = regions.position? offset →
      (bindings d).filter (key == ·.1) = (bindings' d).filter (key == ·.1)) :
    (importsAt (declarations.foldl (bindWith bindings) regions) offset).lookup key =
      (importsAt (declarations.foldl (bindWith bindings') regions) offset).lookup key := by
  rw [importsAt, importsAt, at?_foldl_bindWith, at?_foldl_bindWith]
  cases found : regions.at? offset with
  | none => rfl
  | some here =>
      have bound : (boundWith bindings regions declarations here.1).filter (key == ·.1) =
          (boundWith bindings' regions declarations here.1).filter (key == ·.1) := by
        rw [boundWith, boundWith, List.filter_flatMap, List.filter_flatMap]
        refine List.flatMap_congr fun d mem => ?_
        obtain ⟨inFile, there⟩ := List.mem_filter.mp mem
        refine alike d inFile ((beq_iff_eq.mp there).trans ?_)
        rw [position?, found]
        rfl
      -- A look-up by one key sees no more than the bindings with this key.
      simp only [Option.map_some, Option.getD_some, Region.addImports]
      rw [← lookup_filter, ← lookup_filter key (_ ++ _), List.filter_append, List.filter_append,
        List.filter_reverse, List.filter_reverse, bound]

end

end Regions

/-! ## (3) Without functions and constants -/

/-- **Imports of functions and constants do not matter** to names that no marked clause binds: wherever the
declarations of the region have no such clause for its first segment, a name means what it means among the
imports of classes alone. -/
theorem resolve_eq_of_unmarked (source name : Text) (offset : Nat)
    (unmarked : ∀ d ∈ (Cursor.ofText source).ofKind .useDecl,
      (Regions.ofFile (Cursor.ofText source)).position? d.start =
        (Regions.ofFile (Cursor.ofText source)).position? offset →
      ∀ clause target, d.Imports clause (lowerCase (firstSegment name)) target → clause.isMarked = false) :
    (Regions.ofFile (Cursor.ofText source)).resolve name offset =
      (Regions.ofClassImports (Cursor.ofText source)).resolve name offset := by
  let file := Cursor.ofText source
  have added := Regions.getElem?_foldl_bindWith Cursor.bindings (file.ofKind .useDecl)
    (Regions.withoutImports file)
  have position (offset : Nat) : (Regions.ofFile file).position? offset =
      (Regions.withoutImports file).position? offset := by
    rw [Regions.ofFile_eq]
    exact Regions.position?_congr (Regions.map_bare_of_getElem? _ added) offset
  rw [Regions.ofFile_eq, Regions.ofClassImports]
  refine Regions.resolve_congr ?_ (Regions.lookup_importsAt_congr fun d mem there => ?_)
  · rw [Regions.namespaceAt?_foldl_bindWith, Regions.namespaceAt?_foldl_bindWith]
  · refine (Cursor.filter_classBindings (unmarked d mem ?_)).symm
    rw [position, position]
    exact there

/-- Functions and constants, imported in all ways, with a class in between. -/
def mixedImports : Text :=
  "<?php use function f; use const P\\\x7bA, B\x7d; use Q\\\x7bfunction g, C\x7d; new C;".toList

/-- The class is found with and without the functions and constants. -/
theorem resolve_eq_of_unmarked_mixedImports :
    (∀ d ∈ (Cursor.ofText mixedImports).ofKind .useDecl,
      (Regions.ofFile (Cursor.ofText mixedImports)).position? d.start =
        (Regions.ofFile (Cursor.ofText mixedImports)).position? 65 →
      ∀ clause target, d.Imports clause (lowerCase (firstSegment ['C'])) target → clause.isMarked = false) ∧
    (Regions.ofFile (Cursor.ofText mixedImports)).resolve ['C'] 65 = ⟨"Q\\C".toList⟩ ∧
    (Regions.ofClassImports (Cursor.ofText mixedImports)).resolve ['C'] 65 = ⟨"Q\\C".toList⟩ := by
  have checked : ∀ d ∈ (Cursor.ofText mixedImports).ofKind .useDecl, ∀ clause ∈ d.useClauses,
      clause.importedAs?.map lowerCase = some ['c'] → clause.isMarked = false := by decide +kernel
  have unmarked : ∀ d ∈ (Cursor.ofText mixedImports).ofKind .useDecl,
      (Regions.ofFile (Cursor.ofText mixedImports)).position? d.start =
        (Regions.ofFile (Cursor.ofText mixedImports)).position? 65 →
      ∀ clause target, d.Imports clause (lowerCase (firstSegment ['C'])) target →
        clause.isMarked = false := by
    intro d mem _ clause target imports
    obtain ⟨part, introduced⟩ := imports.mem_useClauses
    exact checked d mem clause part introduced
  have found : (Regions.ofFile (Cursor.ofText mixedImports)).resolve ['C'] 65 = ⟨"Q\\C".toList⟩ := by
    decide +kernel
  exact ⟨unmarked, found, (resolve_eq_of_unmarked mixedImports ['C'] 65 unmarked).symm.trans found⟩

/-- A group whose only clause imports a function. -/
def markedImport : Text := "<?php use P\\\x7bfunction a\x7d; new a;".toList

/-- The same with the word in front of the whole declaration. -/
def markedDeclaration : Text := "<?php use function P\\\x7ba\x7d; new a;".toList

/-- The function hides the class of that name, which is the one that the class imports lead to. Marked as a
whole the declaration hides nothing. -/
theorem markedImport_binds :
    (Regions.ofFile (Cursor.ofText markedImport)).resolve ['a'] 30 = ⟨"P\\a".toList⟩ ∧
    (Regions.ofClassImports (Cursor.ofText markedImport)).resolve ['a'] 30 = ⟨['a']⟩ ∧
    (Regions.ofFile (Cursor.ofText markedDeclaration)).resolve ['a'] 30 = ⟨['a']⟩ := by
  decide +kernel

end PhpMembers
