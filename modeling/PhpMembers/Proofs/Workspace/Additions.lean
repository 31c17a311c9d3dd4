import PhpMembers.Proofs.Classes.Insertion
import PhpMembers.Proofs.Search.Names
import PhpMembers.Proofs.Workspace.GivenFiles
import PhpMembers.Workspace.Session

/-! # Additions to a session

Texts are added to a session by themselves, from one file, or from all source files below a directory. An
addition that cannot read all of its texts fails and adds none of them.

* `Addition`, `Addition.Reads` : additions, and the texts that they read.
* `Session.extend` : a session after an addition; a failed one leaves it as it is.
* `Session.extend_of_reads`, `Session.extend_of_not_reads` : what an addition does.
* `additions_list_classes` : the class-likes of a session after any additions. -/

namespace PhpMembers

/-! ## (1) The texts of an addition -/

/-- What is offered to a session. Files are given by written paths with their contents. -/
inductive Addition
  /-- A text. -/
  | text (source : Text)
  /-- The file to which a path leads. -/
  | file (given : List (Text × Option Text)) (path : Text)
  /-- The source files below the directory to which a path leads. -/
  | directory (given : List (Text × Option Text)) (path : Text)

namespace Addition

/-- `a.Reads texts`: the addition reads the texts, in this order. It reads none of them if one is not
readable. -/
inductive Reads : Addition → List Text → Prop
  /-- A text needs no reading. -/
  | text {source : Text} : Reads (.text source) [source]
  /-- A file has to be there and to be a text. -/
  | file {given : List (Text × Option Text)} {path source : Text} {place : FilePath} :
      (FileTree.ofList given).locate? path = some place →
      FileTree.Given given ⟨place, some source⟩ → Reads (.file given path) [source]
  /-- The path has to lead somewhere, and all source files below it have to be texts. -/
  | directory {given : List (Text × Option Text)} {path : Text} {place : FilePath}
      {found : List StoredFile} {texts : List Text} :
      (FileTree.ofList given).locate? path = some place → FileTree.SourcesBelow given place found →
      found.map (·.content) = texts.map some → Reads (.directory given path) texts

/-- Why an addition fails if it cannot read its texts. -/
def failure : Addition → LoadError
  | .directory given path =>
    if ((FileTree.ofList given).locate? path).isSome then .unreadable else .missingDirectory
  | _ => .unreadable

/-- `a.Contributes texts`: the texts that an addition adds, which are none if it fails. -/
inductive Contributes (a : Addition) : List Text → Prop
  /-- All texts are read. -/
  | read {texts : List Text} : a.Reads texts → a.Contributes texts
  /-- Some text cannot be read. -/
  | failed : (∀ texts, ¬ a.Reads texts) → a.Contributes []

variable {given : List (Text × Option Text)} {path : Text}

/-- All files are readable if their contents are texts. -/
theorem mapM_content_eq_some_iff {files : List StoredFile} {texts : List Text} :
    files.mapM (·.content) = some texts ↔ files.map (·.content) = texts.map some := by
  induction files generalizing texts with
  | nil =>
      rw [List.mapM_nil, List.map_nil]
      constructor
      · rintro ⟨⟩
        rfl
      · intro none
        rw [List.map_eq_nil_iff.mp none.symm]
        rfl
  | cons file rest ih =>
      rw [List.mapM_cons, List.map_cons]
      simp only [Option.bind_eq_bind, Option.bind_eq_some_iff, ih]
      constructor
      · rintro ⟨source, content, sources, contents, ⟨⟩⟩
        rw [content, contents, List.map_cons]
      · intro contents
        obtain ⟨source, sources, rfl, content, contents⟩ := List.map_eq_cons_iff.mp contents.symm
        exact ⟨source, content.symm, sources, contents.symm, rfl⟩

/-- A directory is read if its source files are found and all of them are texts. -/
theorem reads_directory_iff {texts : List Text} : Reads (.directory given path) texts ↔
    ((FileTree.ofList given).sourceFiles? path).bind (·.mapM (·.content)) = some texts := by
  simp only [Option.bind_eq_some_iff, FileTree.sourceFiles?_eq_some_iff, mapM_content_eq_some_iff]
  constructor
  · intro reads
    cases reads with
    | directory leads below contents => exact ⟨_, ⟨_, leads, below⟩, contents⟩
  · rintro ⟨found, ⟨place, leads, below⟩, contents⟩
    exact .directory leads below contents

/-- A file is read if it is there and is a text. -/
theorem reads_file_iff {texts : List Text} : Reads (.file given path) texts ↔
    ∃ source, (FileTree.ofList given).read? path = some source ∧ texts = [source] := by
  simp only [FileTree.read?_ofList_eq_some_iff]
  constructor
  · intro reads
    cases reads with
    | file leads isGiven => exact ⟨_, ⟨_, leads, isGiven⟩, rfl⟩
  · rintro ⟨source, ⟨place, leads, isGiven⟩, rfl⟩
    exact .file leads isGiven

/-- **An addition reads its texts in one way only.** -/
theorem Reads.unique {a : Addition} {texts texts' : List Text} (reads : a.Reads texts)
    (reads' : a.Reads texts') : texts = texts' := by
  cases a with
  | text source =>
      cases reads
      cases reads'
      rfl
  | file given path =>
      obtain ⟨source, read, rfl⟩ := reads_file_iff.mp reads
      obtain ⟨source', read', rfl⟩ := reads_file_iff.mp reads'
      rw [Option.some.inj (read.symm.trans read')]
  | directory given path =>
      exact Option.some.inj ((reads_directory_iff.mp reads).symm.trans (reads_directory_iff.mp reads'))

/-- So it contributes its texts in one way only. -/
theorem contributes_rightUnique : Relator.RightUnique Contributes := by
  intro a texts texts' here there
  cases here with
  | read reads =>
      cases there with
      | read reads' => exact reads.unique reads'
      | failed unread => exact absurd reads (unread texts)
  | failed unread =>
      cases there with
      | read reads' => exact absurd reads' (unread texts')
      | failed _ => rfl

end Addition

/-- The class-likes of a file that have a name. -/
def Cursor.namedClassLikes (file : Cursor) : List Cursor :=
  file.classLikes.filter fun c => c.identifier?.isSome

/-- The number of class-likes with a name in several texts. -/
def declaredIn (texts : List Text) : Nat :=
  (texts.flatMap fun source => (Cursor.ofText source).namedClassLikes).length

/-- There is an entry for each class-like with a name. -/
theorem length_allOfText (source : Text) :
    (ClassEntry.allOfText source).length = (Cursor.ofText source).namedClassLikes.length := by
  have each (regions : Regions) (c : Cursor) :
      (ClassEntry.ofDeclaration? regions c).isSome = c.identifier?.isSome := by
    rw [ClassEntry.ofDeclaration?, Option.isSome_map, Regions.className?, Option.isSome_map]
  rw [ClassEntry.allOfText, ClassEntry.allOf, ClassEntry.allWithin, List.length_filterMap_eq_countP,
    Cursor.namedClassLikes, ← List.countP_eq_length_filter]
  simp only [each]
  rfl

/-! ## (2) Sessions after additions -/

namespace Session

/-- A session after an attempt that may fail. -/
def keep (s : Session) : Except LoadError (Session × Nat) → Session × Except LoadError Nat
  | .ok (next, count) => (next, .ok count)
  | .error cause => (s, .error cause)

/-- A session after an addition, and the number of class-likes that it has seen. A failed addition leaves the
session as it is. -/
def extend (s : Session) : Addition → Session × Except LoadError Nat
  | .text source => s.keep (.ok (s.add source))
  | .file given path => s.keep (s.addFile (.ofList given) path)
  | .directory given path => s.keep (s.load (.ofList given) path)

/-- A session after several additions. -/
def extendAll (s : Session) (additions : List Addition) : Session :=
  additions.foldl (fun s a => (s.extend a).1) s

/-- A session after several texts have been added one by one. -/
def addTexts (s : Session) (texts : List Text) : Session :=
  texts.foldl (fun s source => (s.add source).1) s

/-- Texts that are added together are added one by one. -/
theorem addAll_eq (s : Session) (texts : List Text) : s.addAll texts = (s.addTexts texts, declaredIn texts) := by
  induction texts generalizing s with
  | nil => rfl
  | cons source rest ih =>
      rw [addAll, ih, add, length_allOfText, declaredIn, declaredIn, List.flatMap_cons, List.length_append]
      rfl

/-- One text is added. -/
theorem add_eq (s : Session) (source : Text) : s.add source = (s.addTexts [source], declaredIn [source]) :=
  s.addAll_eq [source]

/-- **An addition that reads its texts adds them one by one**, and counts their class-likes. -/
theorem extend_of_reads (s : Session) {a : Addition} {texts : List Text} (reads : a.Reads texts) :
    s.extend a = (s.addTexts texts, .ok (declaredIn texts)) := by
  cases a with
  | text source =>
      cases reads
      rw [extend, add_eq]
      rfl
  | file given path =>
      obtain ⟨source, read, rfl⟩ := Addition.reads_file_iff.mp reads
      rw [extend, addFile, read]
      simp only [add_eq]
      rfl
  | directory given path =>
      obtain ⟨found, listed, contents⟩ :=
        Option.bind_eq_some_iff.mp (Addition.reads_directory_iff.mp reads)
      rw [extend, load, listed]
      simp only [contents, addAll_eq]
      rfl

/-- **An addition that cannot read its texts leaves the session as it is.** -/
theorem extend_of_not_reads (s : Session) {a : Addition} (unread : ∀ texts, ¬ a.Reads texts) :
    s.extend a = (s, .error a.failure) := by
  -- A text is always read; a file or a directory may be missing, or a file in it may have no text.
  cases a with
  | text source => exact absurd .text (unread [source])
  | file given path =>
      have missing : (FileTree.ofList given).read? path = none :=
        Option.eq_none_iff_forall_ne_some.mpr fun source read =>
          unread [source] (Addition.reads_file_iff.mpr ⟨source, read, rfl⟩)
      rw [extend, addFile, missing]
      rfl
  | directory given path =>
      have notAll (texts : List Text) := mt Addition.reads_directory_iff.mpr (unread texts)
      rw [extend, load, Addition.failure]
      cases leads : (FileTree.ofList given).locate? path with
      | none =>
          have nowhere : (FileTree.ofList given).sourceFiles? path = none := by
            rw [FileTree.sourceFiles?, leads, Option.map_none]
          rw [nowhere]
          rfl
      | some place =>
          obtain ⟨found, listed⟩ : ∃ found, (FileTree.ofList given).sourceFiles? path = some found :=
            ⟨_, by rw [FileTree.sourceFiles?, leads, Option.map_some]⟩
          have missing : found.mapM (·.content) = none :=
            Option.eq_none_iff_forall_ne_some.mpr fun texts contents =>
              notAll texts (by rw [listed, Option.bind_some, contents])
          simp only [listed, missing]
          rfl

/-- Texts add their entries to the class-likes of a session, and nothing else changes. -/
theorem addTexts_eq (s : Session) (texts : List Text) : s.addTexts texts =
    { s with classes := s.classes.insertAll (texts.flatMap ClassEntry.allOfText) } := by
  induction texts generalizing s with
  | nil => rfl
  | cons source rest ih =>
      rw [addTexts, List.foldl_cons, ← addTexts, ih, List.flatMap_cons, ClassTable.insertAll,
        ClassTable.insertAll, List.foldl_append]
      rfl

/-- **Additions one after the other add what each of them contributes.** -/
theorem exists_contributions (s : Session) (additions : List Addition) :
    ∃ parts, List.Forall₂ Addition.Contributes additions parts ∧
      s.extendAll additions = s.addTexts parts.flatten := by
  induction additions generalizing s with
  | nil => exact ⟨[], .nil, rfl⟩
  | cons a rest ih =>
      obtain ⟨parts, contribute, others⟩ := ih (s.extend a).1
      by_cases readable : ∃ texts, a.Reads texts
      · obtain ⟨texts, reads⟩ := readable
        refine ⟨texts :: parts, .cons (.read reads) contribute, ?_⟩
        rw [extendAll, List.foldl_cons, ← extendAll, others, s.extend_of_reads reads, List.flatten_cons,
          addTexts, addTexts, addTexts, List.foldl_append]
      · have unread := not_exists.mp readable
        refine ⟨[] :: parts, .cons (.failed unread) contribute, ?_⟩
        rw [extendAll, List.foldl_cons, ← extendAll, others, s.extend_of_not_reads unread]
        rfl

end Session

/-! ## (3) The class-likes of a session -/

/-- **The class-likes of a session follow from the texts that its additions have read.** An addition that
reads its texts tells how many class-likes with a name they have, repeated ones included; an addition that
cannot read one of its texts fails and leaves the session as it is. After any additions the session is the
one to which all texts that were read have been added one by one, those of a directory in the order of their
paths. It lists each key once, in the order in which the keys came up first, and under each of them, which is
its name in lower case, the entry that was added last. -/
theorem additions_list_classes (additions : List Addition) :
    (∀ (s : Session) (a : Addition),
      (∃ texts, a.Reads texts ∧ s.extend a = (s.addTexts texts, .ok (declaredIn texts))) ∨
      (∀ texts, ¬ a.Reads texts) ∧ s.extend a = (s, .error a.failure)) ∧
    ∃ parts, (∀ others, List.Forall₂ Addition.Contributes additions others ↔ others = parts) ∧
      Session.empty.extendAll additions = Session.empty.addTexts parts.flatten ∧
      (Session.empty.extendAll additions).classes.Lists (parts.flatten.flatMap ClassEntry.allOfText) := by
  constructor
  · intro s a
    by_cases readable : ∃ texts, a.Reads texts
    · obtain ⟨texts, reads⟩ := readable
      exact .inl ⟨texts, reads, s.extend_of_reads reads⟩
    · exact .inr ⟨not_exists.mp readable, s.extend_of_not_reads (not_exists.mp readable)⟩
  · obtain ⟨parts, contribute, same⟩ := Session.empty.exists_contributions additions
    refine ⟨parts, fun others => ⟨fun contribute' => ?_, fun equal => equal ▸ contribute⟩, same, ?_⟩
    · exact List.right_unique_forall₂' Addition.contributes_rightUnique contribute' contribute
    · rw [same, Session.addTexts_eq]
      exact ClassTable.lists_empty.insertAll _

end PhpMembers
