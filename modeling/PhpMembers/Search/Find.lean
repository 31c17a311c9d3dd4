import PhpMembers.Search.Verdict

/-! # Searching a source text

A search lists the sites that the query may be about, decides about each of them, and reports the
occurrences and notes in the order of the text. What was unclear about the query itself is noted before the
first declaration that is compared with it.

* `SearchOptions`, `SearchError`, `SearchReport` : what a search takes and gives.
* `Search.report` : the decisions about a list of sites.
* `findMembers` : the search.
-/

namespace PhpMembers

/-- How a search is done. -/
structure SearchOptions where
  /-- Whether declarations are searched, too. -/
  includeDeclarations : Bool := true
  /-- Whether a text with syntax errors is refused. -/
  strictSyntax : Bool := false
deriving DecidableEq, Inhabited

/-- Why a text is not searched. -/
inductive SearchError
  /-- It has syntax errors. -/
  | damaged (first : SyntaxError) (others : List SyntaxError)

/-- The report for a reader. -/
def SearchError.message : SearchError → String
  | .damaged first others =>
    toString (others.length + 1) ++ " syntax error(s), first: " ++ first.display

/-- What a search has found. -/
structure SearchReport where
  /-- The occurrences in the order of the text. -/
  occurrences : List Occurrence
  /-- What was unclear. -/
  notes : List Note
deriving DecidableEq

/-- The occurrences whose class is known. -/
def withOwner (found : List Occurrence) : List Occurrence := found.filter (·.owner.isSome)

/-- The occurrences whose class is not known. -/
def withoutOwner (found : List Occurrence) : List Occurrence := found.filter (·.owner.isNone)

/-- The notes of decided sites, with that about the query before the first site that needs its target. -/
def notesInOrder (targetNote : Option Note) : List (Bool × Verdict) → List Note
  | [] => []
  | (needed, v) :: rest =>
    if needed then targetNote.toList ++ ((needed, v) :: rest).filterMap (·.2.note)
    else v.note.toList ++ notesInOrder targetNote rest

/-- Decide about sites. -/
def Search.report (s : Search) (sites : List Site) : SearchReport :=
  let target := declarationTarget s.analysis s.query
  let decided := sites.map fun site => (s.needsTarget site, s.verdict target.owner site)
  ⟨decided.filterMap (·.2.occurrence), notesInOrder target.note decided⟩

/-- Search a text for the members that a query asks for. -/
def findMembers (analysis : Analysis) (source : Text) (q : Query) (options : SearchOptions) :
    Except SearchError SearchReport :=
  let parse := Parse.ofText source
  let file := Cursor.root parse.tree
  let search : Search := ⟨source, .ofFile file, q, analysis⟩
  let sites := q.sites options.includeDeclarations file
  match options.strictSyntax, parse.errors with
  | true, first :: others => .error (.damaged first others)
  | _, _ => .ok (search.report sites)

/-- Search a text in a session. The session keeps the parsed text for further questions. -/
def Session.findMembers (s : Session) (hash : Text → UInt64) (source : Text) (q : Query)
    (options : SearchOptions) : Except SearchError SearchReport × Session :=
  let warm := { s with cache := (s.cache.fetch hash source).2 }
  (PhpMembers.findMembers (.ofSession warm hash) source q options, warm)

end PhpMembers
