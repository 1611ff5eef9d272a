import BenchCharts.Decimal.Scientific
import BenchCharts.ResourceLog.Sample

/-!
# Fields of a sample

`readSeconds` reads a natural number below `2 ^ 64`: decimal digits, or
hexadecimal digits after `0x`, with an optional plus sign before the digits.
`readSample` reads the first three fields of a row and ignores the others; of
several faults the first field's is reported, and a missing field only after
the fields before it have been read.
-/

namespace BenchCharts.ResourceLog

/-! ## Seconds -/

/-- Why a text is not a number of seconds. -/
inductive IntegerError where
  | empty
  | invalidDigit
  | tooLarge
  deriving DecidableEq

namespace IntegerError

def message : IntegerError → String
  | empty => "cannot parse integer from empty string"
  | invalidDigit => "invalid digit found in string"
  | tooLarge => "number too large to fit in target type"

end IntegerError

/-- The value of a digit or letter of either case, if it is below the radix. -/
def digit? (radix : Nat) (c : Char) : Option Nat :=
  let value :=
    if c.isDigit then c.toNat - '0'.toNat
    else if c.isLower then c.toNat - 'a'.toNat + 10
    else if c.isUpper then c.toNat - 'A'.toNat + 10
    else radix
  if value < radix then some value else none

/-- Reads on behind digits of value `acc`. -/
def readDigits (radix acc : Nat) : List Char → Except IntegerError Nat
  | [] => .ok acc
  | c :: cs =>
      match digit? radix c with
      | none => .error .invalidDigit
      | some d =>
          let value := acc * radix + d
          if value < 2 ^ 64 then readDigits radix value cs else .error .tooLarge

/-- Reads digits with an optional plus sign before them. -/
def readUnsigned (radix : Nat) : List Char → Except IntegerError Nat
  | [] => .error .empty
  | ['+'] => .error .invalidDigit
  | '+' :: cs => readDigits radix 0 cs
  | cs => readDigits radix 0 cs

/-- Reads a number of seconds. -/
def readSeconds : List Char → Except IntegerError UInt64
  | '0' :: 'x' :: cs => (readUnsigned 16 cs).map UInt64.ofNat
  | cs => (readUnsigned 10 cs).map UInt64.ofNat

/-! ## Rows -/

/-- What is wrong with a row.  Fields are counted from zero, and the index of an
encoding fault counts bytes behind the blanks at the start of the field. -/
inductive RowFault where
  | fieldCount (expected actual : Nat)
  | encoding (field index : Nat)
  | seconds (e : IntegerError)
  | number (field : Nat) (e : NumberError)
  | tooFewFields (count : Nat)
  deriving DecidableEq

/-- Reads the number in field `field`. -/
def readField (field : Nat) (text : List Char) : Except RowFault Double :=
  (readNumber text).mapError (.number field)

/-- Reads a sample from the texts of a row. -/
def readSample : List (List Char) → Except RowFault Sample
  | [] => .error (.tooFewFields 0)
  | time :: rest => do
      let seconds ← (readSeconds time).mapError .seconds
      match rest with
      | [] => .error (.tooFewFields 1)
      | cpu :: rest =>
          let cpu ← readField 1 cpu
          match rest with
          | [] => .error (.tooFewFields 2)
          | ram :: _ =>
              let ram ← readField 2 ram
              .ok { seconds, cpu, ram }

end BenchCharts.ResourceLog
