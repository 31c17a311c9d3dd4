import Mathlib.Data.Char
import Mathlib.Data.List.Induction
import Mathlib.Data.List.Lex
import Mathlib.Data.List.Nodup
import PhpMembers.Workspace.FileTree

/-! # The files of a tree

A tree is made from a list of written paths with contents. Each place that one of the paths leads to has the
content that was given last, and the files are kept in the order of their paths.

* `FileTree.InOrder`, `FileTree.Given` : the order, and the files, read off the list alone.
* `FileTree.inOrder_ofList`, `FileTree.mem_files_ofList` : a tree has the given files in order.
* `FileTree.SourcesBelow`, `FileTree.sourceFiles?_eq_some_iff` : the source files below a path. -/

namespace PhpMembers

namespace FileTree

/-! ## (1) The order of paths -/

/-- The files are in the order of their paths, and no two have the same path. -/
def InOrder (files : List StoredFile) : Prop := files.Pairwise fun a b => a.path < b.path

variable {file other : StoredFile} {files : List StoredFile}

/-- A file that is put among others in order replaces the one with its path. -/
theorem mem_insertFile (inOrder : InOrder files) :
    other ∈ insertFile file files ↔ other = file ∨ other ∈ files ∧ other.path ≠ file.path := by
  induction files with
  | nil => simp [insertFile]
  | cons first rest ih =>
      obtain ⟨behind, inOrder⟩ := List.pairwise_cons.mp inOrder
      -- What stands behind a path is not at the path.
      have apart {f : StoredFile} (le : file.path ≤ first.path) (mem : f ∈ rest) : f.path ≠ file.path :=
        (le.trans_lt (behind f mem)).ne'
      rw [insertFile]
      split
      · rename_i same
        rw [List.mem_cons, List.mem_cons]
        constructor
        · rintro (isFile | inRest)
          · exact .inl isFile
          · exact .inr ⟨.inr inRest, apart same.le inRest⟩
        · rintro (isFile | ⟨rfl | inRest, ne⟩)
          · exact .inl isFile
          · exact absurd same.symm ne
          · exact .inr inRest
      · rename_i differs
        split
        · rename_i less
          rw [List.mem_cons, List.mem_cons]
          constructor
          · rintro (isFile | rfl | inRest)
            · exact .inl isFile
            · exact .inr ⟨.inl rfl, fun same => differs same.symm⟩
            · exact .inr ⟨.inr inRest, apart less.le inRest⟩
          · rintro (isFile | ⟨mem, -⟩)
            · exact .inl isFile
            · exact .inr mem
        · rw [List.mem_cons, List.mem_cons, ih inOrder]
          constructor
          · rintro (rfl | isFile | ⟨inRest, ne⟩)
            · exact .inr ⟨.inl rfl, fun same => differs same.symm⟩
            · exact .inl isFile
            · exact .inr ⟨.inr inRest, ne⟩
          · rintro (isFile | ⟨isFirst | inRest, ne⟩)
            · exact .inr (.inl isFile)
            · exact .inl isFirst
            · exact .inr (.inr ⟨inRest, ne⟩)

/-- Files stay in order when another one is put among them. -/
theorem InOrder.insertFile (inOrder : InOrder files) (file : StoredFile) :
    InOrder (insertFile file files) := by
  induction files with
  | nil => exact List.pairwise_singleton _ _
  | cons first rest ih =>
      obtain ⟨behind, others⟩ := List.pairwise_cons.mp inOrder
      rw [FileTree.insertFile]
      split
      · rename_i same
        exact List.pairwise_cons.mpr ⟨fun f mem => same ▸ behind f mem, others⟩
      · rename_i differs
        split
        · rename_i less
          refine List.pairwise_cons.mpr ⟨List.forall_mem_cons.mpr ⟨less, fun f mem => ?_⟩, inOrder⟩
          exact less.trans (behind f mem)
        · rename_i notLess
          have greater : first.path < file.path :=
            lt_of_le_of_ne (not_lt.mp notLess) fun same => differs same.symm
          refine List.pairwise_cons.mpr ⟨fun f mem => ?_, ih others⟩
          rcases (mem_insertFile others).mp mem with rfl | ⟨inRest, -⟩
          · exact greater
          · exact behind f inRest

/-- Files in order are determined by their paths. -/
theorem InOrder.eq_of_path_eq (inOrder : InOrder files) (mem : file ∈ files) (mem' : other ∈ files)
    (same : file.path = other.path) : file = other := by
  have nodup : (files.map StoredFile.path).Nodup :=
    List.pairwise_map.mpr (inOrder.imp fun less => less.ne)
  exact List.inj_on_of_nodup_map nodup mem mem' same

/-- **Files in order are determined by their members.** -/
theorem InOrder.eq_of_mem_iff {found found' : List StoredFile} (inOrder : InOrder found)
    (inOrder' : InOrder found') (same : ∀ f, f ∈ found ↔ f ∈ found') : found = found' := by
  have nodup {fs : List StoredFile} (inOrder : InOrder fs) : fs.Nodup :=
    inOrder.imp fun less equal => less.ne (congrArg StoredFile.path equal)
  refine List.Perm.eq_of_pairwise (fun a b _ _ less greater => ?_) inOrder inOrder' ?_
  · exact absurd greater less.asymm
  · exact (List.perm_ext_iff_of_nodup (nodup inOrder) (nodup inOrder')).mpr same

/-! ## (2) The given files -/

/-- The place to which a written path leads from the root, if it does not lead above it. -/
def placeOf? (path : Text) : Option FilePath := (trail? [] (path.splitOn '/')).bind List.getLast?

/-- The file has the content that is given last for a path that leads to its place. -/
def Given (given : List (Text × Option Text)) (f : StoredFile) : Prop :=
  (given.filter fun g => placeOf? g.1 == some f.path).getLast?.map (·.2) = some f.content

/-- Only the file at the place of the last path depends on its content. -/
theorem given_concat (given : List (Text × Option Text)) (g : Text × Option Text) (f : StoredFile) :
    Given (given ++ [g]) f ↔ if placeOf? g.1 = some f.path then g.2 = f.content else Given given f := by
  rw [Given, List.filter_append, List.getLast?_append]
  by_cases here : placeOf? g.1 = some f.path
  · simp [here]
  · simp [here, Given]

/-- What a file given with a path does to the files of a tree. -/
theorem files_put (t : FileTree) (path : Text) (content : Option Text) : (t.put path content).files =
    match placeOf? path with
    | some place => insertFile ⟨place, content⟩ t.files
    | none => t.files := by
  rw [put, placeOf?]
  cases trail? [] (path.splitOn '/') with
  | none => rfl
  | some places => cases last : places.getLast? <;> simp only [Option.bind_some, last]

/-- The last of the given files is put into the tree of the others. -/
theorem ofList_concat (given : List (Text × Option Text)) (g : Text × Option Text) :
    ofList (given ++ [g]) = (ofList given).put g.1 g.2 := by
  rw [ofList, List.foldl_append]
  rfl

/-- **The files of a tree are in the order of their paths.** -/
theorem inOrder_ofList (given : List (Text × Option Text)) : InOrder (ofList given).files := by
  induction given using List.reverseRecOn with
  | nil => exact List.Pairwise.nil
  | append_singleton given g ih =>
      rw [ofList_concat, files_put]
      split
      · exact ih.insertFile _
      · exact ih

/-- **The files of a tree are the given ones.** -/
theorem mem_files_ofList (given : List (Text × Option Text)) (f : StoredFile) :
    f ∈ (ofList given).files ↔ Given given f := by
  -- The last file counts: it replaces an earlier one at its place.
  induction given using List.reverseRecOn with
  | nil => exact iff_of_false List.not_mem_nil (Option.some_ne_none _).symm
  | append_singleton given g ih =>
      rw [ofList_concat, files_put, given_concat]
      cases leads : placeOf? g.1 with
      | none => rw [if_neg (Option.some_ne_none _).symm, ih]
      | some place =>
          simp only [mem_insertFile (inOrder_ofList given), ih, Option.some.injEq]
          by_cases here : place = f.path
          · subst here
            rw [if_pos rfl]
            constructor
            · rintro (isLast | ⟨-, ne⟩)
              · rw [isLast]
              · exact absurd rfl ne
            · intro same
              exact .inl (by rw [same])
          · rw [if_neg here]
            constructor
            · rintro (isLast | ⟨isGiven, -⟩)
              · exact absurd (congrArg StoredFile.path isLast).symm here
              · exact isGiven
            · exact fun isGiven => .inr ⟨isGiven, fun same => here same.symm⟩

/-- At a place of the tree the file that is given for it is found. -/
theorem fileAt?_ofList_eq_some_iff (given : List (Text × Option Text)) (place : FilePath)
    (f : StoredFile) : (ofList given).fileAt? place = some f ↔ Given given f ∧ f.path = place := by
  rw [← mem_files_ofList, fileAt?]
  constructor
  · intro found
    exact ⟨List.mem_of_find?_eq_some found, by simpa using List.find?_some found⟩
  · rintro ⟨mem, rfl⟩
    have isThere : ((ofList given).files.find? fun other => other.path = f.path).isSome = true :=
      List.find?_isSome.mpr ⟨f, mem, decide_eq_true rfl⟩
    obtain ⟨other, found⟩ := Option.isSome_iff_exists.mp isThere
    have same : other.path = f.path := by simpa using List.find?_some found
    rw [found, (inOrder_ofList given).eq_of_path_eq (List.mem_of_find?_eq_some found) mem same]

/-- **The text of a file is the one that is given for the place to which the path leads.** -/
theorem read?_ofList_eq_some_iff (given : List (Text × Option Text)) (path source : Text) :
    (ofList given).read? path = some source ↔
      ∃ place, (ofList given).locate? path = some place ∧ Given given ⟨place, some source⟩ := by
  rw [read?, Option.bind_eq_some_iff]
  simp only [Option.bind_eq_some_iff, fileAt?_ofList_eq_some_iff]
  constructor
  · rintro ⟨f, ⟨place, leads, isGiven, rfl⟩, content⟩
    exact ⟨f.path, leads, by rw [← content]; exact isGiven⟩
  · rintro ⟨place, leads, isGiven⟩
    exact ⟨⟨place, some source⟩, ⟨place, leads, isGiven, rfl⟩, rfl⟩

/-! ## (3) Source files below a path -/

/-- The given source files at and below a place, in the order of their paths. -/
structure SourcesBelow (given : List (Text × Option Text)) (place : FilePath) (found : List StoredFile) :
    Prop where
  /-- They are in the order of their paths. -/
  inOrder : InOrder found
  /-- They are the given files below the place that have the extension of a source file. -/
  members : ∀ f, f ∈ found ↔ Given given f ∧ place <+: f.path ∧ isSource f = true

/-- **The source files of a tree below a path, in order.** -/
theorem sourceFiles?_eq_some_iff (given : List (Text × Option Text)) (path : Text)
    (found : List StoredFile) : (ofList given).sourceFiles? path = some found ↔
      ∃ place, (ofList given).locate? path = some place ∧ SourcesBelow given place found := by
  have listed (place : FilePath) : SourcesBelow given place
      ((ofList given).files.filter fun f => place.isPrefixOf f.path && isSource f) :=
    ⟨(inOrder_ofList given).filter _, fun f => by
      rw [List.mem_filter, mem_files_ofList, Bool.and_eq_true, List.isPrefixOf_iff_prefix]⟩
  rw [sourceFiles?, Option.map_eq_some_iff]
  constructor
  · rintro ⟨place, leads, rfl⟩
    exact ⟨place, leads, listed place⟩
  · rintro ⟨place, leads, below⟩
    refine ⟨place, leads, (listed place).inOrder.eq_of_mem_iff below.inOrder fun f => ?_⟩
    rw [(listed place).members, below.members]

end FileTree

end PhpMembers
