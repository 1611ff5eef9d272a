/-!
# Blank characters

The characters with the property `White_Space`, and the removal of blanks at
both ends of a text.  Bytes have a notion of blank of their own, which covers
five of the ASCII characters.
-/

namespace BenchCharts.Text

/-- The blank characters beyond ASCII. -/
def wideBlanks : List Nat :=
  [0x85, 0xA0, 0x1680, 0x2000, 0x2001, 0x2002, 0x2003, 0x2004, 0x2005, 0x2006, 0x2007,
    0x2008, 0x2009, 0x200A, 0x2028, 0x2029, 0x202F, 0x205F, 0x3000]

/-- The character has the property `White_Space`. -/
def isBlank (c : Char) : Bool :=
  c = ' ' || (9 ≤ c.toNat && c.toNat ≤ 13) || wideBlanks.contains c.toNat

/-- Drops what satisfies `p` at both ends of a list. -/
def trimBoth {α : Type} (p : α → Bool) (xs : List α) : List α :=
  ((xs.dropWhile p).reverse.dropWhile p).reverse

/-- Drops blank characters at both ends. -/
def trim (cs : List Char) : List Char :=
  trimBoth isBlank cs

/-- The byte is a space, a tab, a line feed, a form feed or a carriage return. -/
def isBlankByte (b : UInt8) : Bool :=
  b = 32 || b = 9 || b = 10 || b = 12 || b = 13

/-- Drops blank bytes at both ends. -/
def trimBytes (bs : List UInt8) : List UInt8 :=
  trimBoth isBlankByte bs

end BenchCharts.Text
