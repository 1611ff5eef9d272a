import BenchCharts.Binary.Basic

/-!
# Decimal numbers

A decimal number is a natural mantissa times a power of ten.  It is read from a
text with an optional point and exponent (`Scientific.ofChars?`), written in
positional notation (`Scientific.positional`), and rounded to a floating-point
value (`Scientific.toBinary`).

`readNumber` reads the whole text of a floating-point value: a sign, then a
decimal number or the name of an infinity or of a NaN.
-/

namespace BenchCharts

/-- The number `mantissa · 10 ^ exponent`. -/
structure Scientific where
  mantissa : Nat
  exponent : Int
  deriving DecidableEq

namespace Scientific

/-- The nearest floating-point value, with the given sign. -/
def toBinary {f : Format} (negative : Bool) (x : Scientific) : Binary f :=
  .ofDecimal negative x.mantissa x.exponent

/-! ## Reading -/

/-- The value of one or more digits that fill the text. -/
def digits? (cs : List Char) : Option Nat :=
  if cs ≠ [] ∧ cs.all Char.isDigit then some (Nat.ofDigitChars 10 cs 0) else none

/-- An integer of decimal digits after an optional sign. -/
def signedDigits? : List Char → Option Int
  | '+' :: cs => (digits? cs).map Int.ofNat
  | '-' :: cs => (digits? cs).map fun n : Nat => -(n : Int)
  | cs => (digits? cs).map Int.ofNat

/-- The exponent part of a number: nothing, or `e` and an integer. -/
def exponent? : List Char → Option Int
  | [] => some 0
  | c :: cs => if c = 'e' ∨ c = 'E' then signedDigits? cs else none

/-- Divides a text behind its leading digits. -/
def spanDigits (cs : List Char) : List Char × List Char :=
  (cs.takeWhile Char.isDigit, cs.dropWhile Char.isDigit)

/-- The fractional digits after a point, and what follows them. -/
def fraction : List Char → List Char × List Char
  | '.' :: cs => spanDigits cs
  | cs => ([], cs)

/-- Reads digits with an optional point among them and an optional exponent; at
least one digit stands before the exponent. -/
def ofChars? (cs : List Char) : Option Scientific :=
  let (whole, rest) := spanDigits cs
  let (part, rest) := fraction rest
  if whole = [] ∧ part = [] then none
  else
    (exponent? rest).map fun e =>
      { mantissa := Nat.ofDigitChars 10 (whole ++ part) 0
        exponent := e - part.length }

/-! ## Writing -/

/-- Drops the zeros at the end of a text. -/
def dropTrailingZeros (cs : List Char) : List Char :=
  (cs.reverse.dropWhile (· = '0')).reverse

/-- The digits of `n`, filled with zeros on the left to at least `width`. -/
def paddedDigits (width n : Nat) : List Char :=
  let ds := Nat.toDigits 10 n
  List.replicate (width - ds.length) '0' ++ ds

/-- The digits before and after the point of `n / 10 ^ places`, all `places` of
them written. -/
def places (places n : Nat) : List Char × List Char :=
  (Nat.toDigits 10 (n / 10 ^ places),
    if places = 0 then [] else paddedDigits places (n % 10 ^ places))

/-- A whole part and a fraction; the point stands only before a fraction. -/
def withPoint : List Char × List Char → List Char
  | (whole, []) => whole
  | (whole, part) => whole ++ '.' :: part

/-- Positional notation without needless zeros and without an exponent. -/
def positional (x : Scientific) : List Char :=
  if 0 ≤ x.exponent then
    Nat.toDigits 10 (x.mantissa * 10 ^ x.exponent.toNat)
  else
    let (whole, part) := places x.exponent.natAbs x.mantissa
    withPoint (whole, dropTrailingZeros part)

end Scientific

/-! ## Floating-point texts -/

/-- Why a text is not a floating-point value. -/
inductive NumberError where
  | empty
  | malformed
  deriving DecidableEq

namespace NumberError

def message : NumberError → String
  | empty => "cannot parse float from empty string"
  | malformed => "invalid float literal"

end NumberError

/-- The lower-case form of a text, for ASCII letters. -/
def lowerCase (cs : List Char) : List Char :=
  cs.map Char.toLower

/-- Reads a floating-point value without its sign. -/
def readMagnitude? {f : Format} (negative : Bool) (cs : List Char) : Option (Binary f) :=
  match Scientific.ofChars? cs with
  | some x => some (x.toBinary negative)
  | none =>
      let name := lowerCase cs
      if name = ['i', 'n', 'f'] ∨ name = ['i', 'n', 'f', 'i', 'n', 'i', 't', 'y'] then
        some (.infinite negative)
      else if name = ['n', 'a', 'n'] then
        some .nan
      else
        none

/-- Reads a floating-point value: an optional sign, then a decimal number,
correctly rounded, or `inf`, `infinity` or `nan` in any case. -/
def readNumber {f : Format} (cs : List Char) : Except NumberError (Binary f) :=
  let read (negative : Bool) (cs : List Char) :=
    (readMagnitude? negative cs).elim (.error .malformed) .ok
  match cs with
  | [] => .error .empty
  | '+' :: rest => read false rest
  | '-' :: rest => read true rest
  | rest => read false rest

end BenchCharts
