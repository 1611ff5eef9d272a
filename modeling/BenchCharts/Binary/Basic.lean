import BenchCharts.Binary.Rounding

/-!
# Binary floating-point values

A value of a format is a NaN, a signed infinity, or a signed multiple of the
format's smallest positive value.  The multiple is a natural number, so order
and arithmetic are exact on naturals and every operation rounds once
(`ofUnits`).  `Double` and `Single` are the two formats in use.

A magnitude carries the proof that it has at most `digits` significant bits
and stays below the overflow limit; two values are equal exactly when they have
the same sign and magnitude, so the zeros differ.  Comparison goes through
`rank`, where both zeros are `0` and a NaN has no rank.
-/

namespace BenchCharts

/-! ## Formats -/

/-- A format counts its magnitudes in units of `2 ^ -scale`, keeps `digits`
significant bits of them, and overflows at `2 ^ limit` units. -/
structure Format where
  digits : Nat
  scale : Nat
  limit : Nat
  digits_pos : 0 < digits := by decide

namespace Format

/-- The format of eight bytes. -/
def binary64 : Format where
  digits := 53
  scale := 1074
  limit := 2098

/-- The format of four bytes. -/
def binary32 : Format where
  digits := 24
  scale := 149
  limit := 277

/-- How many units make one. -/
def one (f : Format) : Nat :=
  2 ^ f.scale

theorem one_pos (f : Format) : 0 < f.one :=
  Nat.two_pow_pos _

/-- A number of units that a finite value of the format can have. -/
def Fits (f : Format) (magnitude : Nat) : Prop :=
  2 ^ Binary.excess f.digits magnitude ∣ magnitude ∧ magnitude < 2 ^ f.limit

instance (f : Format) (magnitude : Nat) : Decidable (f.Fits magnitude) :=
  inferInstanceAs (Decidable (_ ∧ _))

theorem fits_zero (f : Format) : f.Fits 0 :=
  ⟨Nat.dvd_zero _, Nat.two_pow_pos _⟩

end Format

/-! ## Values -/

/-- A floating-point value of format `f`. -/
inductive Binary (f : Format) where
  | nan
  | infinite (negative : Bool)
  | finite (negative : Bool) (magnitude : Nat) (fits : f.Fits magnitude)
  deriving DecidableEq

/-- A value of eight bytes. -/
abbrev Double := Binary .binary64

/-- A value of four bytes. -/
abbrev Single := Binary .binary32

namespace Binary

variable {f : Format}

/-- The zero with the given sign. -/
def zero (negative : Bool) : Binary f :=
  .finite negative 0 f.fits_zero

instance : Inhabited (Binary f) :=
  ⟨zero false⟩

/-- The value nearest to `num / den` units, with the given sign; a tie goes to
the even neighbour, and what rounds to the limit or beyond is infinite. -/
def ofUnits (negative : Bool) (num den : Nat) : Binary f :=
  let magnitude := roundRatio f.digits num den
  if h : magnitude < 2 ^ f.limit then
    .finite negative magnitude ⟨dvd_roundRatio f.digits num den f.digits_pos, h⟩
  else
    .infinite negative

/-- The value nearest to a natural number. -/
def ofNat (n : Nat) : Binary f :=
  ofUnits false (n * f.one) 1

/-- The value nearest to an integer. -/
def ofInt (n : Int) : Binary f :=
  ofUnits (decide (n < 0)) (n.natAbs * f.one) 1

instance (n : Nat) : OfNat (Binary f) n :=
  ⟨ofNat n⟩

/-- The value nearest to `mantissa · 10 ^ exponent`, with the given sign.  Powers
of ten far outside the format are not computed: `10 ^ e` is above `2 ^ e`, and a
mantissa with `n` binary digits is below `10 ^ n`. -/
def ofDecimal (negative : Bool) (mantissa : Nat) (exponent : Int) : Binary f :=
  if mantissa = 0 then
    zero negative
  else if 0 ≤ exponent then
    if f.limit < exponent.toNat then
      .infinite negative
    else
      ofUnits negative (mantissa * 10 ^ exponent.toNat * f.one) 1
  else if mantissa.log2 + 2 + f.scale < exponent.natAbs then
    zero negative
  else
    ofUnits negative (mantissa * f.one) (10 ^ exponent.natAbs)

/-- The value nearest to `10 ^ exponent`. -/
def powTen (exponent : Int) : Binary f :=
  ofDecimal false 1 exponent

instance : OfScientific (Binary f) where
  ofScientific mantissa below exponent :=
    ofDecimal false mantissa (if below then -(exponent : Int) else exponent)

/-! ## Classification and order -/

/-- Neither infinite nor a NaN. -/
def isFinite : Binary f → Bool
  | .finite .. => true
  | _ => false

def isNaN : Binary f → Bool
  | .nan => true
  | _ => false

/-- The sign bit; a NaN counts as positive. -/
def isNegative : Binary f → Bool
  | .nan => false
  | .infinite negative => negative
  | .finite negative .. => negative

/-- Finite without a fractional part. -/
def isWhole : Binary f → Bool
  | .finite _ magnitude _ => magnitude % f.one = 0
  | _ => false

/-- A signed count: `n` or `-n`. -/
def signed (negative : Bool) (n : Nat) : Int :=
  if negative then -(n : Int) else n

/-- The position of a value on the line of units; the infinities stand at the
overflow limit, and a NaN stands nowhere. -/
def rank : Binary f → Option Int
  | .nan => none
  | .infinite negative => some (signed negative (2 ^ f.limit))
  | .finite negative magnitude _ => some (signed negative magnitude)

/-- Compares the ranks; false when either value is a NaN. -/
def compareRank (holds : Int → Int → Bool) (x y : Binary f) : Bool :=
  match x.rank, y.rank with
  | some a, some b => holds a b
  | _, _ => false

instance : LT (Binary f) :=
  ⟨fun x y => compareRank (fun a b => decide (a < b)) x y = true⟩

instance : LE (Binary f) :=
  ⟨fun x y => compareRank (fun a b => decide (a ≤ b)) x y = true⟩

instance (x y : Binary f) : Decidable (x < y) :=
  inferInstanceAs (Decidable (_ = true))

instance (x y : Binary f) : Decidable (x ≤ y) :=
  inferInstanceAs (Decidable (_ = true))

/-- Numerical equality: the zeros are equal, and a NaN equals nothing. -/
def equals (x y : Binary f) : Bool :=
  compareRank (fun a b => decide (a = b)) x y

/-- The larger of two values; a NaN gives way to the other value. -/
def maximum (x y : Binary f) : Binary f :=
  if x.isNaN then y else if x < y then y else x

/-- The smaller of two values; a NaN gives way to the other value. -/
def minimum (x y : Binary f) : Binary f :=
  if x.isNaN then y else if y < x then y else x

/-! ## Arithmetic -/

def neg : Binary f → Binary f
  | .nan => .nan
  | .infinite negative => .infinite !negative
  | .finite negative magnitude fits => .finite (!negative) magnitude fits

def abs : Binary f → Binary f
  | .nan => .nan
  | .infinite _ => .infinite false
  | .finite _ magnitude fits => .finite false magnitude fits

/-- The rounded sum.  An exact sum of zero is positive unless both terms are
negative. -/
def add : Binary f → Binary f → Binary f
  | .nan, _ => .nan
  | _, .nan => .nan
  | .infinite s, .infinite t => if s = t then .infinite s else .nan
  | .infinite s, .finite .. => .infinite s
  | .finite .., .infinite t => .infinite t
  | .finite s m _, .finite t n _ =>
      if s = t then ofUnits s (m + n) 1
      else if m = n then zero false
      else if n < m then ofUnits s (m - n) 1
      else ofUnits t (n - m) 1

/-- The rounded product; zero times an infinity is a NaN. -/
def mul : Binary f → Binary f → Binary f
  | .nan, _ => .nan
  | _, .nan => .nan
  | .infinite s, .infinite t => .infinite (s != t)
  | .infinite s, .finite t n _ => if n = 0 then .nan else .infinite (s != t)
  | .finite s m _, .infinite t => if m = 0 then .nan else .infinite (s != t)
  | .finite s m _, .finite t n _ => ofUnits (s != t) (m * n) f.one

/-- The rounded quotient; a nonzero value over zero is infinite, and zero over
zero is a NaN. -/
def div : Binary f → Binary f → Binary f
  | .nan, _ => .nan
  | _, .nan => .nan
  | .infinite _, .infinite _ => .nan
  | .infinite s, .finite t _ _ => .infinite (s != t)
  | .finite s _ _, .infinite t => zero (s != t)
  | .finite s m _, .finite t n _ =>
      if n = 0 then
        if m = 0 then .nan else .infinite (s != t)
      else
        ofUnits (s != t) (m * f.one) n

instance : Neg (Binary f) := ⟨neg⟩
instance : Add (Binary f) := ⟨add⟩
instance : Sub (Binary f) := ⟨fun x y => add x (neg y)⟩
instance : Mul (Binary f) := ⟨mul⟩
instance : Div (Binary f) := ⟨div⟩

/-- The nearest value of another format. -/
def convert {g : Format} : Binary f → Binary g
  | .nan => .nan
  | .infinite negative => .infinite negative
  | .finite negative magnitude _ => ofUnits negative (magnitude * g.one) f.one

end Binary

end BenchCharts
