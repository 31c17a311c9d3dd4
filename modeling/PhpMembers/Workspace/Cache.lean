import PhpMembers.Workspace.SourceFile

/-! # Files that need not be parsed again

A cache keeps the files that were asked for, each under a hash of its text, and forgets the oldest one when
it is full. Different texts may have the same hash; a kept file is only used if it has the right text.

* `Cache.insert` : keep a file.
* `Cache.fetch` : the file with a text, kept from then on.
-/

namespace PhpMembers

/-- Files under the hashes of their texts, the oldest first. -/
structure Cache where
  /-- The hashes with the files. -/
  files : List (UInt64 × SourceFile)

namespace Cache

/-- No files. -/
def empty : Cache := ⟨[]⟩

/-- The greatest number of files that are kept. -/
def capacity : Nat := 32

/-- Whether a file is kept under a hash. -/
def holds (cache : Cache) (hash : UInt64) : Bool := cache.files.any fun f => f.1 == hash

/-- The file that is kept under a hash, if it has the given text. -/
def find? (cache : Cache) (hash : UInt64) (text : Text) : Option SourceFile :=
  match cache.files.lookup hash with
  | some file => if file.text = text then some file else none
  | none => none

/-- Keep a file under a hash. A file under the same hash gives up its place to the new one; otherwise the
new file comes last, and when the cache is full the oldest file has to go. -/
def insert (cache : Cache) (hash : UInt64) (file : SourceFile) : Cache :=
  if cache.holds hash then
    ⟨cache.files.map fun f => if f.1 == hash then (hash, file) else f⟩
  else
    let kept := if capacity ≤ cache.files.length then cache.files.tail else cache.files
    ⟨kept ++ [(hash, file)]⟩

/-- The file with the given text, which is parsed only if it is not kept, and the cache that keeps it. -/
def fetch (cache : Cache) (hash : Text → UInt64) (text : Text) : SourceFile × Cache :=
  match cache.find? (hash text) text with
  | some file => (file, cache)
  | none =>
    let file := SourceFile.ofText text
    (file, cache.insert (hash text) file)

end Cache

/-- A hash of a text: its characters as the digits of a number, modulo `2 ^ 64`. -/
def textHash (text : Text) : UInt64 :=
  text.foldl (fun hash c => hash * 1099511628211 + c.val.toUInt64) 14695981039346656037

end PhpMembers
