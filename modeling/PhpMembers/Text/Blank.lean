/-! # Texts, white space and lines

A text is a list of characters. White space is the Unicode property White_Space, not only its ASCII part:
a name may be surrounded by no-break or ideographic spaces.

* `Text`, `utf8Length` : texts and their length in bytes.
* `isBlank` : the white-space characters.
* `trimBlank`, `trimBlankStart` : a text without the white space around it.
* `blankWords` : the maximal runs of other characters.
* `textLines` : the lines of a text, without their line ends.
* `lowerCase`, `sameIgnoringCase` : ASCII letter case.
-/

namespace PhpMembers

/-- A text: its characters in order. -/
abbrev Text := List Char

/-- The length of a text in bytes of UTF-8. -/
def utf8Length (cs : Text) : Nat := cs.foldr (fun c n => c.utf8Size + n) 0

@[simp] theorem utf8Length_nil : utf8Length [] = 0 := rfl

@[simp] theorem utf8Length_cons (c : Char) (cs : Text) :
    utf8Length (c :: cs) = c.utf8Size + utf8Length cs := rfl

@[simp] theorem utf8Length_append (a b : Text) :
    utf8Length (a ++ b) = utf8Length a + utf8Length b := by
  induction a with
  | nil => simp
  | cons c cs ih => simp [ih, Nat.add_assoc]

/-- The characters with the Unicode property White_Space. -/
def isBlank (c : Char) : Bool :=
  let n := c.toNat
  (9 ≤ n && n ≤ 13) || n == 0x20 || n == 0x85 || n == 0xa0 || n == 0x1680
    || (0x2000 ≤ n && n ≤ 0x200a) || n == 0x2028 || n == 0x2029 || n == 0x202f || n == 0x205f
    || n == 0x3000

/-- The text from its first character that is not blank. -/
def trimBlankStart (cs : Text) : Text := cs.dropWhile isBlank

/-- The text without blanks at either end. -/
def trimBlank (cs : Text) : Text := ((trimBlankStart cs).reverse.dropWhile isBlank).reverse

/-- The words of a text: its maximal runs of characters that are not blank. -/
def blankWords (cs : Text) : List Text := (cs.splitOnP isBlank).filter (· ≠ [])

/-- The lines of a text. A line ends before a line feed, or before a carriage return and a line feed;
nothing follows a final line feed. -/
def textLines (cs : Text) : List Text :=
  let pieces := cs.splitOn '\n'
  let terminated := pieces.dropLast.map fun line =>
    if line.getLast? = some '\r' then line.dropLast else line
  let last := pieces.getLastD []
  if last = [] then terminated else terminated ++ [last]

/-- The text without the leading characters equal to `c`. -/
def dropLeading (c : Char) (cs : Text) : Text := cs.dropWhile (· == c)

/-- The text with `A` to `Z` turned into `a` to `z`. -/
def lowerCase (cs : Text) : Text := cs.map Char.toLower

/-- Whether two texts differ at most in the case of `A` to `Z`. -/
def sameIgnoringCase (a b : Text) : Bool := lowerCase a == lowerCase b

end PhpMembers
