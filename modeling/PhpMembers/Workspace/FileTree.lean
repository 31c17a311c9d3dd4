import PhpMembers.Text.Blank

/-! # Files in directories

A file tree is given by its directories and its files. A written path is followed segment by segment: an
empty segment and a single dot stay where they are, two dots lead back to the directory above, and a name
leads on. What is followed is only the tree, so a path that leads above its root leads nowhere. Files are
listed in the order of their paths, which are compared segment by segment.

* `FileTree.ofList` : the tree with the given files.
* `FileTree.locate?` : where a written path leads.
* `FileTree.sourceFiles?` : the source files below a path, in order.
-/

namespace PhpMembers

/-- The segments that lead to a file or directory. -/
abbrev FilePath := List Text

/-- A file in a tree. -/
structure StoredFile where
  /-- Where it is. -/
  path : FilePath
  /-- Its text, if its bytes are the UTF-8 form of one. -/
  content : Option Text
deriving DecidableEq

/-- Files in directories. -/
structure FileTree where
  /-- The paths of the directories. The root is a directory even if it is not listed. -/
  directories : List FilePath
  /-- The files in the order of their paths. -/
  files : List StoredFile
deriving DecidableEq

namespace FileTree

/-- Put a file where it belongs in the order of paths. It replaces a file with the same path. -/
def insertFile (file : StoredFile) : List StoredFile → List StoredFile
  | [] => [file]
  | other :: rest =>
    if file.path = other.path then file :: rest
    else if file.path < other.path then file :: other :: rest
    else other :: insertFile file rest

/-- The place to which one segment leads from a place, unless that is above the root. -/
def step? (here : FilePath) (segment : Text) : Option FilePath :=
  if segment = [] ∨ segment = ['.'] then some here
  else if segment = ['.', '.'] then if here = [] then none else some here.dropLast
  else some (here ++ [segment])

/-- The places to which the segments of a written path lead one after the other. -/
def trail? : FilePath → List Text → Option (List FilePath)
  | _, [] => some []
  | here, segment :: rest =>
    match step? here segment with
    | some next => (trail? next rest).map (next :: ·)
    | none => none

/-- Put a file at the end of a written path and directories at the places on the way. A path that leads
above the root adds nothing. -/
def put (t : FileTree) (path : Text) (content : Option Text) : FileTree :=
  match trail? [] (path.splitOn '/') with
  | some places =>
    match places.getLast? with
    | some place => ⟨t.directories ++ places.dropLast, insertFile ⟨place, content⟩ t.files⟩
    | none => t
  | none => t

/-- The tree with the given files; of several files with one path the last one counts. -/
def ofList (files : List (Text × Option Text)) : FileTree :=
  files.foldl (fun t f => t.put f.1 f.2) ⟨[], []⟩

/-- The file with a path. -/
def fileAt? (t : FileTree) (path : FilePath) : Option StoredFile := t.files.find? (·.path = path)

/-- Whether there is a directory with a path. -/
def hasDirectory (t : FileTree) (path : FilePath) : Bool := path.isEmpty || t.directories.contains path

/-- Follow the segments of a written path from a place. Whatever is left by a segment has to be a
directory. -/
def follow (t : FileTree) : FilePath → List Text → Option FilePath
  | here, [] => some here
  | here, segment :: rest =>
    if t.hasDirectory here then
      match step? here segment with
      | some next => follow t next rest
      | none => none
    else none

/-- The path of the file or directory to which a written path leads. -/
def locate? (t : FileTree) (path : Text) : Option FilePath :=
  match t.follow [] (path.splitOn '/') with
  | some there => if t.hasDirectory there || (t.fileAt? there).isSome then some there else none
  | none => none

/-- The text of the file to which a written path leads. -/
def read? (t : FileTree) (path : Text) : Option Text :=
  ((t.locate? path).bind t.fileAt?).bind (·.content)

/-- The extension of a file name: what follows its last dot, which must not be its first character. -/
def extension? (name : Text) : Option Text :=
  let ending := name.reverse.takeWhile (· != '.')
  match name.reverse.drop ending.length with
  | _ :: _ :: _ => some ending.reverse
  | _ => none

/-- The extensions of source files. -/
def sourceExtensions : List Text := [['p', 'h', 'p'], ['p', 'h', 't', 'm', 'l'], ['i', 'n', 'c']]

/-- Whether the extension of a file, in any letter case, is that of a source file. -/
def isSource (file : StoredFile) : Bool :=
  match file.path.getLast?.bind extension? with
  | some ending => sourceExtensions.any (sameIgnoringCase ending)
  | none => false

/-- The source files below the directory, or at the file, to which a written path leads. -/
def sourceFiles? (t : FileTree) (path : Text) : Option (List StoredFile) :=
  (t.locate? path).map fun there => t.files.filter fun f => there.isPrefixOf f.path && isSource f

end FileTree

end PhpMembers
