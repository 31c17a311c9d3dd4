import Mathlib.Data.List.Basic
import PhpMembers.Text.Lines

/-! # Offsets and positions

A line of a text starts at its first byte and after each byte of a line feed. The starts ascend, so halving finds
the last one at or before an offset, and a position is another way to write an offset: no two offsets share one.

* `utf8Bytes`, `idxsOf_lineFeed_utf8EncodeChar` : the bytes of a text, of which those of a line feed are no part of
  other characters.
* `lineStarts`, `lineStarts_le_iff` : where the lines start, and how many of the starts lie at or before an offset.
* `notGreater_bisect` : a search in halves counts the words that are not greater.
* `Position.Locates`, `Position.Locates.lt` : what a position says of an offset, and that it grows with the offset.
* `positions_locate_offsets` : the positions that a line table gives. -/

namespace PhpMembers

/-! ## (1) The bytes of a text -/

/-- The bytes of a text in UTF-8. -/
def utf8Bytes (text : Text) : List UInt8 := text.flatMap String.utf8EncodeChar

/-- The byte of a line feed. -/
def lineFeed : UInt8 := 10

@[simp] theorem utf8Bytes_cons (c : Char) (cs : Text) :
    utf8Bytes (c :: cs) = String.utf8EncodeChar c ++ utf8Bytes cs := rfl

/-- The length of a text counts its bytes. -/
theorem length_utf8Bytes (text : Text) : (utf8Bytes text).length = utf8Length text := by
  induction text with
  | nil => rfl
  | cons c cs ih => rw [utf8Bytes_cons, List.length_append, String.length_utf8EncodeChar, ih, utf8Length_cons]

/-- No other character has the byte of a line feed: all bytes of a longer encoding are `0x80` or greater. -/
theorem eq_lineFeed_of_mem {c : Char} (mem : lineFeed ∈ String.utf8EncodeChar c) : c = '\n' := by
  have ten : UInt8.toNat 10 = 10 := rfl
  revert mem
  -- One case for each length of an encoding.
  fun_cases String.utf8EncodeChar c <;> intro mem <;>
    simp only [List.mem_cons, List.not_mem_nil, or_false, lineFeed, ← UInt8.toNat_inj, UInt8.toNat_ofNat', ten] at mem
  case case1 v ascii =>
    have code : v = 10 := by omega
    exact Char.toNat_inj.mp code
  all_goals omega

/-- Where the byte of a line feed stands in a character that lies at `offset`. -/
theorem idxsOf_lineFeed_utf8EncodeChar (c : Char) (offset : Nat) :
    (String.utf8EncodeChar c).idxsOf lineFeed offset = if c = '\n' then [offset] else [] := by
  split
  · rename_i feed
    rw [feed]
    rfl
  · rename_i other
    rw [List.idxsOf_eq_nil_iff]
    intro byte mem
    rw [beq_eq_false_iff_ne]
    rintro rfl
    exact other (eq_lineFeed_of_mem mem)

/-! ## (2) Line starts -/

/-- The offsets at which the lines of a text start. -/
def lineStarts (text : Text) : List Nat := 0 :: ((utf8Bytes text).idxsOf lineFeed).map (· + 1)

/-- The line starts in the rest of a text are the offsets after its line feeds. -/
theorem lineStartsFrom_eq (offset : Nat) (text : Text) :
    lineStartsFrom offset text = ((utf8Bytes text).idxsOf lineFeed offset).map (· + 1) := by
  induction text generalizing offset with
  | nil => rfl
  | cons c cs ih =>
      -- The rest of the text lies behind the bytes of the character.
      rw [utf8Bytes_cons, List.idxsOf_append, List.map_append, idxsOf_lineFeed_utf8EncodeChar,
        String.length_utf8EncodeChar, lineStartsFrom, ih]
      split
      · rename_i feed
        rw [feed]
        rfl
      · rfl

variable {text : Text}

/-- The first line starts without a line feed, each other one after one. -/
theorem length_lineStarts (text : Text) : (lineStarts text).length = (utf8Bytes text).count lineFeed + 1 := by
  rw [lineStarts, List.length_cons, List.length_map, List.length_idxsOf]

/-- The line starts ascend. -/
theorem lineStarts_pairwise (text : Text) : (lineStarts text).Pairwise (· < ·) := by
  rw [lineStarts, List.pairwise_cons, List.pairwise_map]
  constructor
  · intro start mem
    obtain ⟨feed, -, rfl⟩ := List.mem_map.mp mem
    exact Nat.succ_pos feed
  · exact List.pairwise_idxsOf.imp Nat.succ_lt_succ

/-- There are more line starts than line feeds before an offset. -/
theorem count_take_lt_length_lineStarts (text : Text) (offset : Nat) :
    ((utf8Bytes text).take offset).count lineFeed < (lineStarts text).length := by
  rw [length_lineStarts, Nat.lt_succ_iff]
  exact (List.take_sublist _ _).count_le lineFeed

/-- A line starts at the beginning of the text or after a line feed. -/
theorem mem_lineStarts_iff {start : Nat} :
    start ∈ lineStarts text ↔ start = 0 ∨ ∃ feed, start = feed + 1 ∧ (utf8Bytes text)[feed]? = some lineFeed := by
  rw [lineStarts, List.mem_cons, List.mem_map]
  refine or_congr Iff.rfl ⟨?_, ?_⟩
  · rintro ⟨feed, mem, rfl⟩
    obtain ⟨inside, here⟩ := List.mem_idxsOf_iff_exists_getElem_pos.mp mem
    exact ⟨feed, rfl, List.getElem?_eq_some_iff.mpr ⟨inside, eq_of_beq here⟩⟩
  · rintro ⟨feed, rfl, here⟩
    obtain ⟨inside, here⟩ := List.getElem?_eq_some_iff.mp here
    exact ⟨feed, List.mem_idxsOf_iff_exists_getElem_pos.mpr ⟨inside, beq_iff_eq.mpr here⟩, rfl⟩

/-- No line starts behind the end of the text. -/
theorem le_utf8Length_of_mem_lineStarts {start : Nat} (mem : start ∈ lineStarts text) : start ≤ utf8Length text := by
  rcases mem_lineStarts_iff.mp mem with rfl | ⟨feed, rfl, here⟩
  · exact Nat.zero_le _
  · rw [← length_utf8Bytes]
    exact (List.getElem?_eq_some_iff.mp here).1

/-- **The line starts at or before an offset** are the first one and those after the line feeds before the offset. -/
theorem lineStarts_le_iff {offset i : Nat} (inside : i < (lineStarts text).length) :
    (lineStarts text)[i] ≤ offset ↔ i ≤ ((utf8Bytes text).take offset).count lineFeed := by
  -- The line feeds of the text are those before the offset and those from the offset on.
  have parts : (utf8Bytes text).idxsOf lineFeed =
      ((utf8Bytes text).take offset).idxsOf lineFeed ++
        ((utf8Bytes text).drop offset).idxsOf lineFeed ((utf8Bytes text).take offset).length := by
    rw [← Nat.zero_add ((utf8Bytes text).take offset).length, ← List.idxsOf_append, List.take_append_drop]
  cases i with
  | zero => exact iff_of_true (Nat.zero_le _) (Nat.zero_le _)
  | succ i =>
      have inside' : i < ((utf8Bytes text).idxsOf lineFeed).length := by
        rw [lineStarts, List.length_cons, List.length_map] at inside
        exact Nat.lt_of_succ_lt_succ inside
      have start : (lineStarts text)[i + 1] = ((utf8Bytes text).idxsOf lineFeed)[i] + 1 := by
        simp only [lineStarts, List.getElem_cons_succ, List.getElem_map]
      rw [start, Nat.succ_le_iff, Nat.succ_le_iff, ← List.length_idxsOf]
      simp only [parts, List.getElem_append]
      split
      · rename_i before
        refine iff_of_true (Nat.lt_of_lt_of_le (List.getElem_idxsOf_lt before) ?_) before
        rw [Nat.add_zero]
        exact List.length_take_le _ _
      · rename_i behind
        refine iff_of_false ?_ behind
        -- There are line feeds from the offset on, so the text does not end before it.
        generalize_proofs later
        have lower := List.le_getElem_idxsOf later
        have upper := List.getElem_idxsOf_lt later
        simp only [List.length_take, List.length_drop] at lower upper ⊢
        omega

/-! ## (3) Looking a line up -/

/-- How many words a search has found not to be greater than the wanted one. -/
def Bisection.notGreater : Bisection → Nat
  | .found index => index + 1
  | .missing next => next

/-- **A search in halves counts.** If the words ascend and the first `count` of them are those that are not greater
than the wanted one, then a search in a part of them in which the count falls comes to it. -/
theorem notGreater_bisect {words : Array UInt32} {wanted : UInt32} {count low high : Nat} {inside : high ≤ words.size}
    (ascending : words.toList.Pairwise (· < ·))
    (counted : ∀ i (here : i < words.size), words[i] ≤ wanted ↔ i < count)
    (least : low ≤ count) (most : count ≤ high) :
    (bisect words wanted low high inside).notGreater = count := by
  -- The count stays between the bounds until they meet.
  fun_induction bisect words wanted low high inside with
  | case1 low high inside filled middle same =>
      -- A further word that is not greater would be the wanted one again.
      have reached : (low + high) / 2 < count := (counted _ middle).mp (UInt32.le_of_eq same)
      rw [Bisection.notGreater]
      by_contra further
      have next : (low + high) / 2 + 1 < words.size := by omega
      have above : words[(low + high) / 2] < words[(low + high) / 2 + 1] :=
        List.pairwise_iff_getElem.mp ascending _ _ middle next (Nat.lt_succ_self _)
      have below : words[(low + high) / 2 + 1] ≤ wanted := (counted _ next).mpr (by omega)
      rw [same] at above
      exact UInt32.not_le.mpr above below
  | case2 low high inside filled middle other smaller ih =>
      exact ih ((counted _ middle).mp (UInt32.le_of_lt smaller)) most
  | case3 low high inside filled middle other notSmaller ih =>
      refine ih least (Nat.le_of_not_lt fun reached => ?_)
      rcases UInt32.lt_or_eq_of_le ((counted _ middle).mpr reached) with smaller | same
      · exact notSmaller smaller
      · exact other same
  | case4 low high inside empty =>
      rw [Bisection.notGreater]
      omega

namespace LineTable

/-- The line that is found is the last one that starts at or before the offset. -/
theorem line?_eq_some {table : LineTable} {offset : UInt32} {line : Nat}
    (ascending : table.starts.toList.Pairwise (· < ·)) (inside : line < table.starts.size)
    (counted : ∀ i (here : i < table.starts.size), table.starts[i] ≤ offset ↔ i ≤ line) :
    table.line? offset = some line := by
  have count : (bisect table.starts offset 0 table.starts.size (Nat.le_refl _)).notGreater = line + 1 :=
    notGreater_bisect ascending (fun i here => (counted i here).trans Nat.lt_succ_iff.symm) (Nat.zero_le _) inside
  rw [line?]
  generalize bisect table.starts offset 0 table.starts.size (Nat.le_refl _) = result at count ⊢
  match result, count with
  | .found _, rfl => rfl
  | .missing (_ + 1), rfl => rfl

/-- The line table of a text holds its line starts. -/
theorem starts_ofText (text : Text) : (ofText text).starts = ((lineStarts text).map UInt32.ofNat).toArray := by
  rw [ofText, lineStarts, lineStartsFrom_eq]

/-- In a text shorter than `2 ^ 32` bytes no line start loses its upper bits. -/
theorem toNat_of_mem_lineStarts (short : utf8Length text < UInt32.size) {start : Nat} (mem : start ∈ lineStarts text) :
    (UInt32.ofNat start).toNat = start :=
  UInt32.toNat_ofNat_of_lt' (Nat.lt_of_le_of_lt (le_utf8Length_of_mem_lineStarts mem) short)

/-- The line table has as many entries as there are line starts. -/
theorem size_starts_ofText (text : Text) : (ofText text).starts.size = (lineStarts text).length := by
  rw [starts_ofText, List.size_toArray, List.length_map]

/-- Its entries are the line starts. -/
theorem getElem_starts_ofText {i : Nat} (here : i < (ofText text).starts.size) (inside : i < (lineStarts text).length) :
    (ofText text).starts[i] = UInt32.ofNat (lineStarts text)[i] := by
  simp only [starts_ofText, List.getElem_toArray, List.getElem_map]

/-- There is one line more than line feeds. -/
theorem lineCount_ofText (text : Text) : (ofText text).lineCount = (utf8Bytes text).count lineFeed + 1 := by
  rw [lineCount, size_starts_ofText, length_lineStarts]

/-- So the line table ascends. -/
theorem starts_pairwise (short : utf8Length text < UInt32.size) :
    (ofText text).starts.toList.Pairwise (· < ·) := by
  rw [starts_ofText, List.pairwise_map]
  refine (lineStarts_pairwise text).imp_of_mem fun {a b} memA memB less => ?_
  rw [UInt32.lt_iff_toNat_lt, toNat_of_mem_lineStarts short memA, toNat_of_mem_lineStarts short memB]
  exact less

end LineTable

/-! ## (4) Positions -/

/-- The line of an offset starts at `start`: at the beginning of the text or after a line feed, and there is no line
feed between the start and the offset. -/
structure StartsLineOf (text : Text) (offset start : Nat) : Prop where
  /-- The start does not lie behind the offset. -/
  le : start ≤ offset
  /-- The text begins there, or the byte in front is a line feed. -/
  begins : start = 0 ∨ ∃ feed, start = feed + 1 ∧ (utf8Bytes text)[feed]? = some lineFeed
  /-- Up to the offset the line goes on. -/
  unbroken : ∀ i, start ≤ i → i < offset → (utf8Bytes text)[i]? ≠ some lineFeed

/-- What a position says of an offset. -/
structure Position.Locates (p : Position) (text : Text) (offset : Nat) : Prop where
  /-- The line is the number of line feeds before the offset. -/
  line : p.line = ((utf8Bytes text).take offset).count lineFeed
  /-- The column is the distance from the start of the line. -/
  column : ∃ start, StartsLineOf text offset start ∧ start + p.column = offset

/-- Line feeds before an offset are line feeds before a later one. -/
theorem count_take_le {a b : Nat} (le : a ≤ b) :
    ((utf8Bytes text).take a).count lineFeed ≤ ((utf8Bytes text).take b).count lineFeed :=
  (List.take_prefix_take_left le).sublist.count_le lineFeed

/-- A line feed between two offsets makes a difference. -/
theorem count_take_lt {a b feed : Nat} (le : a ≤ feed) (lt : feed < b) (here : (utf8Bytes text)[feed]? = some lineFeed) :
    ((utf8Bytes text).take a).count lineFeed < ((utf8Bytes text).take b).count lineFeed :=
  calc ((utf8Bytes text).take a).count lineFeed
      ≤ ((utf8Bytes text).take feed).count lineFeed := count_take_le le
    _ < ((utf8Bytes text).take (feed + 1)).count lineFeed := by
        rw [List.take_add_one, here, List.count_append]
        exact Nat.lt_add_of_pos_right (List.count_pos_iff.mpr (by simp))
    _ ≤ ((utf8Bytes text).take b).count lineFeed := count_take_le lt

/-- **Positions grow with offsets.** -/
theorem Position.Locates.lt {p q : Position} {a b : Nat} (first : p.Locates text a) (second : q.Locates text b)
    (lt : a < b) : p < q := by
  obtain ⟨start, starts, column⟩ := first.column
  obtain ⟨start', starts', column'⟩ := second.column
  have notAbove : p.line ≤ q.line := by
    rw [first.line, second.line]
    exact count_take_le (Nat.le_of_lt lt)
  rcases Nat.lt_or_eq_of_le notAbove with above | same
  · exact .inl above
  · -- The later offset lies in the same line, which does not start behind the earlier offset.
    refine .inr ⟨same, ?_⟩
    rw [first.line, second.line] at same
    by_contra notFurther
    rcases starts'.begins with rfl | ⟨feed, rfl, here⟩
    · omega
    · by_cases before : feed < a
      · -- Then it breaks the line of the earlier offset.
        have after : start ≤ feed := by omega
        exact starts.unbroken feed after before here
      · -- Otherwise it tells the two lines apart.
        exact absurd same (Nat.ne_of_lt (count_take_lt (Nat.le_of_not_lt before) starts'.le here))

/-- The last line start at or before an offset starts its line. -/
theorem startsLineOf_lineStarts {offset line : Nat} (inside : line < (lineStarts text).length)
    (same : line = ((utf8Bytes text).take offset).count lineFeed) :
    StartsLineOf text offset (lineStarts text)[line] where
  le := (lineStarts_le_iff inside).mpr (Nat.le_of_eq same)
  begins := mem_lineStarts_iff.mp (List.getElem_mem inside)
  unbroken feed after before here := by
    -- The offset after a line feed would be a later start before the offset.
    obtain ⟨i, inside', start⟩ := List.mem_iff_getElem.mp (mem_lineStarts_iff.mpr (.inr ⟨feed, rfl, here⟩))
    have notLater : i ≤ line := by
      rw [same, ← lineStarts_le_iff inside', start]
      exact before
    have le : (lineStarts text)[i] ≤ (lineStarts text)[line] := by
      rcases Nat.lt_or_eq_of_le notLater with earlier | rfl
      · exact Nat.le_of_lt (List.pairwise_iff_getElem.mp (lineStarts_pairwise text) _ _ inside' inside earlier)
      · exact Nat.le_refl _
    omega

namespace LineTable

/-- The line of an offset is found. -/
theorem line?_ofText (short : utf8Length text < UInt32.size) (offset : UInt32) :
    (ofText text).line? offset = some (((utf8Bytes text).take offset.toNat).count lineFeed) := by
  refine line?_eq_some (starts_pairwise short) ?_ fun i here => ?_
  · rw [size_starts_ofText]
    exact count_take_lt_length_lineStarts text _
  · have inside : i < (lineStarts text).length := by rwa [← size_starts_ofText]
    rw [getElem_starts_ofText here inside, UInt32.le_iff_toNat_le,
      toNat_of_mem_lineStarts short (List.getElem_mem inside), lineStarts_le_iff inside]

/-- **Each offset has a position.** The start of its line does not lie behind it, and all numbers fit into 32 bits. -/
theorem exists_position?_locates (short : utf8Length text < UInt32.size) (offset : UInt32) :
    ∃ p, (ofText text).position? offset = some p ∧ p.Locates text offset.toNat := by
  have found := line?_ofText short offset
  have inside := count_take_lt_length_lineStarts text offset.toNat
  generalize same : ((utf8Bytes text).take offset.toNat).count lineFeed = line at found inside
  have starts := startsLineOf_lineStarts inside same.symm
  have word : (ofText text).starts[line]? = some (UInt32.ofNat (lineStarts text)[line]) := by
    have here : line < (ofText text).starts.size := by rwa [size_starts_ofText]
    rw [Array.getElem?_eq_getElem here, getElem_starts_ofText here inside]
  have value := toNat_of_mem_lineStarts short (List.getElem_mem inside)
  have le : UInt32.ofNat (lineStarts text)[line] ≤ offset := by
    rw [UInt32.le_iff_toNat_le, value]
    exact starts.le
  -- There are no more lines than bytes, so no number is cut off.
  have fits : line < UInt32.size := by
    rw [← same]
    calc ((utf8Bytes text).take offset.toNat).count lineFeed
        ≤ (utf8Bytes text).count lineFeed := (List.take_sublist _ _).count_le lineFeed
      _ ≤ (utf8Bytes text).length := List.count_le_length
      _ = utf8Length text := length_utf8Bytes text
      _ < UInt32.size := short
  refine ⟨⟨(UInt32.ofNat line).toNat, (offset - UInt32.ofNat (lineStarts text)[line]).toNat⟩, ?_, ?_, _, starts, ?_⟩
  · rw [position?, found, Option.bind_eq_bind, Option.bind_some, word, Option.bind_eq_bind, Option.bind_some, if_pos le]
  · rw [UInt32.toNat_ofNat_of_lt' fits, same]
  · rw [UInt32.toNat_sub_of_le _ _ le, value]
    exact Nat.add_sub_of_le starts.le

/-- Its position is the one that is given for it. -/
theorem position_of_position? {table : LineTable} {offset : UInt32} {p : Position}
    (found : table.position? offset = some p) : table.position offset.toNat = p := by
  rw [position, UInt32.ofNat_toNat, found, Option.getD_some]

end LineTable

/-- **Offsets and positions correspond.** In every text shorter than `2 ^ 32` bytes there is one line more than line
feeds, and every offset of 32 bits has a position, also behind the end of the text: its line is the number of line
feeds before the offset and its column the distance from the start of the line, which does not lie behind the offset.
A greater offset has a greater position, so no two offsets have the same one. -/
theorem positions_locate_offsets (text : Text) (short : utf8Length text < UInt32.size) :
    (LineTable.ofText text).lineCount = (utf8Bytes text).count lineFeed + 1 ∧
      (∀ offset : UInt32, ∃ p, (LineTable.ofText text).position? offset = some p ∧
        (LineTable.ofText text).position offset.toNat = p ∧ p.Locates text offset.toNat) ∧
      (∀ a b : UInt32, a < b →
        (LineTable.ofText text).position a.toNat < (LineTable.ofText text).position b.toNat) ∧
      Function.Injective fun offset : UInt32 => (LineTable.ofText text).position offset.toNat := by
  have located (offset : UInt32) : ∃ p, (LineTable.ofText text).position? offset = some p ∧
      (LineTable.ofText text).position offset.toNat = p ∧ p.Locates text offset.toNat := by
    obtain ⟨p, found, locates⟩ := LineTable.exists_position?_locates short offset
    exact ⟨p, found, LineTable.position_of_position? found, locates⟩
  have grows (a b : UInt32) (lt : a < b) :
      (LineTable.ofText text).position a.toNat < (LineTable.ofText text).position b.toNat := by
    obtain ⟨p, -, rfl, first⟩ := located a
    obtain ⟨q, -, rfl, second⟩ := located b
    exact first.lt second (UInt32.lt_iff_toNat_lt.mp lt)
  refine ⟨LineTable.lineCount_ofText text, located, grows, fun a b same => ?_⟩
  by_contra different
  dsimp only at same
  rcases UInt32.lt_or_lt_of_ne different with lt | lt
  · have less := grows a b lt
    rw [same] at less
    exact Position.not_lt_self _ less
  · have less := grows b a lt
    rw [same] at less
    exact Position.not_lt_self _ less

/-- A text whose second line is empty. -/
def emptySecondLine : Text := ['é', '\n', '\n', 'a', 'b']

/-- Its last line starts right after the empty one, and holds the offsets behind its end. -/
theorem positions_around_empty_line :
    utf8Length emptySecondLine < UInt32.size ∧
      (LineTable.ofText emptySecondLine).lineCount = 3 ∧
      (∃ p, (LineTable.ofText emptySecondLine).position? 9 = some p ∧ p.line = 2 ∧ p.Locates emptySecondLine 9) ∧
      (LineTable.ofText emptySecondLine).position 3 < (LineTable.ofText emptySecondLine).position 4 := by
  have short : utf8Length emptySecondLine < UInt32.size := by decide
  obtain ⟨lines, located, grows, -⟩ := positions_locate_offsets emptySecondLine short
  obtain ⟨p, found, -, locates⟩ := located 9
  exact ⟨short, lines, ⟨p, found, locates.line, locates⟩, grows 3 4 (by decide)⟩

end PhpMembers
