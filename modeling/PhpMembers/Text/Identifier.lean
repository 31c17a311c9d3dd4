import PhpMembers.Text.Alphanumeric
import PhpMembers.Text.Blank
import PhpMembers.Text.XidContinue
import PhpMembers.Text.XidStart

/-! # Identifiers

An identifier begins with an underscore or a letter and goes on with underscores, letters and digits.
Outside ASCII a letter is a character with the property XID_Start, and what may follow has the property
XID_Continue.
-/

namespace PhpMembers

/-- Whether a code point lies in one of the closed ranges. -/
def inRanges (ranges : List (Nat × Nat)) (n : Nat) : Bool :=
  ranges.any fun r => r.1 ≤ n && n ≤ r.2

/-- The letters that can begin an identifier. -/
def isXidStart (c : Char) : Bool :=
  if c.toNat < 0x80 then c.isAlpha else inRanges xidStartRanges c.toNat

/-- The characters that can continue an identifier. -/
def isXidContinue (c : Char) : Bool :=
  if c.toNat < 0x80 then c.isAlphanum || c == '_'
  else inRanges xidStartRanges c.toNat || inRanges xidContinueOnlyRanges c.toNat

/-- Letters and numbers of every script. -/
def isLetterOrNumber (c : Char) : Bool :=
  if c.toNat < 0x80 then c.isAlphanum else inRanges alphanumericRanges c.toNat

/-- Whether a text is one identifier. -/
def isIdentifier : Text → Bool
  | [] => false
  | c :: cs => (c == '_' || isXidStart c) && cs.all fun d => d == '_' || isXidContinue d

end PhpMembers
