import PhpMembers.Text.Blank

/-! # Line and column of an offset

Positions in a text are counted in bytes of its UTF-8 form. A line starts at offset `0` and after every
line feed; a column is the distance in bytes from the start of the line. An offset beyond the end of the
text belongs to the last line.

Line starts are kept as words of 32 bits in an ascending table, in which a line is looked up in halves.

* `Position`, `Span` : lines and columns, and ranges of offsets.
* `bisect` : looking a word up among ascending words.
* `LineTable.ofText` : where the lines of a text start.
* `LineTable.position?`, `LineTable.position` : the line and column of an offset.
-/

namespace PhpMembers

/-- A half-open range of byte offsets. -/
structure Span where
  /-- Offset of the first byte. -/
  start : Nat
  /-- Offset after the last byte. -/
  stop : Nat
deriving DecidableEq, Inhabited

/-- The range between two offsets; the second one must not lie before the first. -/
def Span.between? (start stop : Nat) : Option Span :=
  if start ≤ stop then some ⟨start, stop⟩ else none

/-- A line and a column, both counted from zero. -/
structure Position where
  /-- Number of line feeds before the position. -/
  line : Nat
  /-- Distance in bytes from the start of the line. -/
  column : Nat
deriving DecidableEq, Inhabited

/-- Positions are ordered by line and then by column. -/
instance : LT Position := ⟨fun p q => p.line < q.line ∨ p.line = q.line ∧ p.column < q.column⟩

/-- No position comes before itself. -/
theorem Position.not_lt_self (p : Position) : ¬p < p := by
  rintro (less | ⟨-, less⟩)
  · exact Nat.lt_irrefl _ less
  · exact Nat.lt_irrefl _ less

/-- The usual form for readers, counted from one and joined by a colon. -/
def Position.display (p : Position) : String :=
  toString (p.line + 1) ++ ":" ++ toString (p.column + 1)

/-- What looking a word up among ascending words comes to. -/
inductive Bisection
  /-- The word stands at the index. -/
  | found (index : Nat)
  /-- The word is missing. It would have to be put in front of the word at the index, or behind all words. -/
  | missing (next : Nat)
deriving DecidableEq

/-- Look a word up among the words from index `low` up to index `high`, which ascend. -/
def bisect (words : Array UInt32) (wanted : UInt32) (low high : Nat) (inside : high ≤ words.size) : Bisection :=
  if filled : low < high then
    have middle : (low + high) / 2 < words.size := by omega
    if words[(low + high) / 2] = wanted then .found ((low + high) / 2)
    else if words[(low + high) / 2] < wanted then bisect words wanted ((low + high) / 2 + 1) high inside
    else bisect words wanted low ((low + high) / 2) (Nat.le_of_lt middle)
  else .missing low
termination_by high - low

/-- Where each line of one text starts. -/
structure LineTable where
  /-- Offsets of the line starts, ascending and beginning with `0`. -/
  starts : Array UInt32
deriving DecidableEq

/-- The offsets after each line feed of the rest of a text that lies at `offset`. -/
def lineStartsFrom : Nat → Text → List Nat
  | _, [] => []
  | offset, c :: cs =>
    let next := offset + c.utf8Size
    if c = '\n' then next :: lineStartsFrom next cs else lineStartsFrom next cs

namespace LineTable

/-- The line starts of a text. An offset from `2 ^ 32` on loses its upper bits. -/
def ofText (text : Text) : LineTable := ⟨((0 :: lineStartsFrom 0 text).map UInt32.ofNat).toArray⟩

/-- The number of lines, an empty last one included. -/
def lineCount (table : LineTable) : Nat := table.starts.size

/-- The line whose start is the last one at or before the offset, unless all starts lie behind it. -/
def line? (table : LineTable) (offset : UInt32) : Option Nat :=
  match bisect table.starts offset 0 table.starts.size (Nat.le_refl _) with
  | .found line => some line
  | .missing 0 => none
  | .missing (line + 1) => some line

/-- The line of an offset and the distance from its start. There is none without such a line, or if the line
starts behind the offset. -/
def position? (table : LineTable) (offset : UInt32) : Option Position := do
  let line ← table.line? offset
  let start ← table.starts[line]?
  if start ≤ offset then some ⟨(UInt32.ofNat line).toNat, (offset - start).toNat⟩ else none

/-- The line and column of an offset. The line table of a text shorter than `2 ^ 32` bytes has them for every offset. -/
def position (table : LineTable) (offset : Nat) : Position := (table.position? (UInt32.ofNat offset)).getD default

end LineTable

end PhpMembers
