import BenchCharts.Decimal.Scientific

/-!
# Shortest decimal text

The shortest text of a finite value has the fewest significant digits that read
back as the value, and of those the nearest to it.  On the grid of `n`-digit
decimals only the two neighbours of the value can be nearest, so the search
tries these two for each number of digits from one upwards.
-/

namespace BenchCharts.Binary

variable {f : Format}

/-- No value of a format needs more significant digits than this. -/
def maxDigits (f : Format) : Nat :=
  f.digits * 30103 / 100000 + 2

/-- The exponent `e` with `10 ^ (e - 1) ≤ magnitude / one < 10 ^ e`, for a
magnitude that is not zero.  From one upwards it counts the digits before the
point; below one, `10 ^ k < one / magnitude` holds exactly for the `k` with
`10 ^ k ≤ (one - 1) / magnitude`. -/
def decimalExponent (f : Format) (magnitude : Nat) : Int :=
  if f.one ≤ magnitude then (Nat.toDigits 10 (magnitude / f.one)).length
  else 1 - ((Nat.toDigits 10 ((f.one - 1) / magnitude)).length : Int)

/-- The two neighbours of a magnitude among the multiples of `10 ^ exponent`,
nearest first; a tie prefers the upper one. -/
def neighbours (f : Format) (magnitude : Nat) (exponent : Int) : List Scientific :=
  let num := if 0 ≤ exponent then magnitude else magnitude * 10 ^ exponent.natAbs
  let den := if 0 ≤ exponent then f.one * 10 ^ exponent.toNat else f.one
  let below : Scientific := ⟨num / den, exponent⟩
  let above : Scientific := ⟨num / den + 1, exponent⟩
  if 2 * (num % den) < den then [below, above] else [above, below]

/-- The decimal is read as this magnitude. -/
def readsAs (f : Format) (magnitude : Nat) (x : Scientific) : Bool :=
  match (x.toBinary false : Binary f) with
  | .finite _ m _ => m = magnitude
  | _ => false

/-- The decimal expansion of a magnitude in full. -/
def exactDecimal (f : Format) (magnitude : Nat) : Scientific :=
  ⟨magnitude * 5 ^ f.scale, -(f.scale : Int)⟩

/-- The shortest decimal that is read as the magnitude. -/
def shortestDecimal (f : Format) (magnitude : Nat) : Scientific :=
  let exponent := decimalExponent f magnitude
  let found := (List.range (maxDigits f)).findSome? fun n =>
    (neighbours f magnitude (exponent - (n + 1 : Nat))).find? (readsAs f magnitude)
  found.getD (exactDecimal f magnitude)

/-- A minus sign for the negative sign bit. -/
def signChars (negative : Bool) : List Char :=
  if negative then ['-'] else []

/-- The text of a value, with the text of a finite magnitude given. -/
def chars (finite : Nat → List Char) : Binary f → List Char
  | .nan => ['N', 'a', 'N']
  | .infinite negative => signChars negative ++ ['i', 'n', 'f']
  | .finite negative magnitude _ => signChars negative ++ finite magnitude

/-- The shortest text of a value, in positional notation. -/
def shortestChars (x : Binary f) : List Char :=
  x.chars fun m => if m = 0 then ['0'] else (shortestDecimal f m).positional

/-- The text of a value with a fixed number of digits behind the point, rounded
to nearest with ties to even. -/
def fixedChars (count : Nat) (x : Binary f) : List Char :=
  x.chars fun m => Scientific.withPoint
    (Scientific.places count (roundHalfEven (m * 10 ^ count) f.one))

/-- The shortest text of a value. -/
def shortest (x : Binary f) : String :=
  String.ofList x.shortestChars

/-- The text of a value with `count` digits behind the point. -/
def fixed (count : Nat) (x : Binary f) : String :=
  String.ofList (x.fixedChars count)

end BenchCharts.Binary
