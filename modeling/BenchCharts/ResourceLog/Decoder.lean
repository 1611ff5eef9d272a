import BenchCharts.ResourceLog.Field
import BenchCharts.ResourceLog.Record
import BenchCharts.Text.Blank
import BenchCharts.Text.Utf8

/-!
# Decoding a resource log

The first record of a log is a header: only its number of fields counts.  Every
further record is a row.  `Decoder.decode` reads rows until the log ends or a
row is bad; after a bad row it can be called again and goes on with the row
behind.
-/

namespace BenchCharts.ResourceLog

/-! ## Errors -/

/-- Why a log could not be decoded. -/
inductive DecodeError where
  | reading (e : SystemError)
  | row (position : Position) (fault : RowFault)
  deriving DecidableEq

namespace DecodeError

/-- The number, line and byte of a row. -/
def place (p : Position) : String :=
  s!"record {p.record} (line: {p.line}, byte: {p.byte})"

def message : DecodeError → String
  | reading e => e.message
  | row p (.fieldCount expected actual) =>
      s!"CSV error: {place p}: found record with {actual} fields, "
        ++ s!"but the previous record has {expected} fields"
  | row p (.encoding field index) =>
      s!"CSV parse error: record {p.record} (line {p.line}, field: {field}, byte: {p.byte}): "
        ++ s!"invalid utf-8: invalid UTF-8 in field {field} near byte index {index}"
  | row p (.seconds e) => s!"CSV deserialize error: {place p}: field 0: {e.message}"
  | row p (.number field e) => s!"CSV deserialize error: {place p}: field {field}: {e.message}"
  | row p (.tooFewFields count) =>
      s!"CSV deserialize error: {place p}: invalid length {count}, "
        ++ "expected struct ResourceSample with 3 elements"

end DecodeError

/-! ## Rows -/

/-- The trimmed text of the field with the given number. -/
def fieldText (field : Nat) (bytes : List UInt8) : Except RowFault (List Char) :=
  ((Text.Utf8.decode (Text.trimBytes bytes)).map Text.trim).mapError (.encoding field)

/-- The trimmed texts of fields, of which the first has the given number. -/
def fieldTexts (field : Nat) : List (List UInt8) → Except RowFault (List (List Char))
  | [] => .ok []
  | bytes :: rest => do
      let text ← fieldText field bytes
      let texts ← fieldTexts (field + 1) rest
      .ok (text :: texts)

/-- Reads the fields of a row, of which there must be `width`. -/
def readRow (width : Nat) (fields : List (List UInt8)) : Except RowFault Sample :=
  if fields.length ≠ width then .error (.fieldCount width fields.length)
  else fieldTexts 0 fields >>= readSample

/-- Where a fault of a row is reported.  The header is read together with the
row behind it, so an encoding fault of that row is placed at the header. -/
def faultPosition (r : Record) : RowFault → Position
  | .encoding .. => if r.position.record ≤ 1 then {} else r.position
  | _ => r.position

/-- Reads a row, of which `width` fields are expected. -/
def decodeRow (width : Nat) (r : Record) : Except DecodeError Sample :=
  match readRow width r.fields with
  | .ok s => .ok s
  | .error fault => .error (.row (faultPosition r fault) fault)

/-! ## Decoding -/

/-- A log behind its header: the number of fields expected of a row, and what is
left to read. -/
structure Decoder where
  width : Nat
  rest : List Entry

/-- Reads rows up to the first bad one, and what is left behind it. -/
def decodeRows (width : Nat) : List Entry → Except DecodeError (List Sample) × List Entry
  | [] => (.ok [], [])
  | .failure e :: _ => (.error (.reading e), [])
  | .record r :: rest =>
      match decodeRow width r with
      | .error e => (.error e, rest)
      | .ok s =>
          let (result, rest) := decodeRows width rest
          (result.map (s :: ·), rest)

namespace Decoder

/-- Reads the header. -/
def ofEntries : List Entry → Decoder
  | .record header :: rest => { width := header.fields.length, rest }
  | rest => { width := 0, rest }

/-- A decoder of a byte source. -/
def ofSource (s : Source) : Decoder :=
  ofEntries s.entries

/-- The samples up to the end of the log, or the error of the first bad row; and
the decoder behind what was read. -/
def decode (d : Decoder) : Except DecodeError (List Sample) × Decoder :=
  let (result, rest) := decodeRows d.width d.rest
  (result, { d with rest })

/-- The results of calling `decode` a number of times. -/
def decodeTimes (d : Decoder) : Nat → List (Except DecodeError (List Sample))
  | 0 => []
  | n + 1 =>
      let (result, d) := d.decode
      result :: d.decodeTimes n

end Decoder

end BenchCharts.ResourceLog
