import BenchCharts.SystemError

/-!
# Records of comma-separated bytes

A log is a sequence of records, and a record is a sequence of fields between
commas.  A line feed or a carriage return ends a record, and further line
breaks before the next one are skipped.  A field that begins with a quote
extends to the closing quote and may hold commas, line breaks and doubled
quotes; what follows the closing quote is taken as it stands.  The end of the
input closes an open field.

`Scan.step` reads one byte, `Scan.records` a whole byte list.  A record knows
the position at which the reader stood when it began, which is directly behind
the byte that ended the record before.
-/

namespace BenchCharts.ResourceLog

/-! ## Positions and records -/

/-- A place in a log: the bytes before it, its line, counted from one, and the
number of records before it. -/
structure Position where
  byte : Nat := 0
  line : Nat := 1
  record : Nat := 0
  deriving DecidableEq, Inhabited

/-- A record and the place where the reader began to look for it. -/
structure Record where
  position : Position
  fields : List (List UInt8)
  deriving DecidableEq

def comma : UInt8 := 44

def quote : UInt8 := 34

def lineFeed : UInt8 := 10

def carriageReturn : UInt8 := 13

/-- The byte ends a record. -/
def isBreak (b : UInt8) : Bool :=
  b = lineFeed || b = carriageReturn

/-- The place behind one more byte. -/
def Position.advance (p : Position) (b : UInt8) : Position :=
  { p with byte := p.byte + 1, line := if b = lineFeed then p.line + 1 else p.line }

/-! ## Reading byte by byte -/

/-- Where the reader stands between two bytes. -/
inductive Stand where
  /-- No byte of the record has been read. -/
  | recordStart
  /-- Behind a comma. -/
  | fieldStart
  /-- In a field without an open quote. -/
  | bare
  /-- Behind an opening quote. -/
  | quoted
  /-- Behind a quote inside a quoted field. -/
  | quoteSeen
  deriving DecidableEq

/-- A record being read: the bytes of its open field and the finished fields,
last first, and the places where it began and where the reader is. -/
structure Scan where
  stand : Stand := .recordStart
  field : List UInt8 := []
  fields : List (List UInt8) := []
  start : Position := {}
  here : Position := {}

namespace Scan

/-- Adds a byte to the open field. -/
def push (s : Scan) (b : UInt8) (stand : Stand) : Scan :=
  { s with field := b :: s.field, stand }

/-- Closes the open field at a comma. -/
def endField (s : Scan) : Scan :=
  { s with field := [], fields := s.field.reverse :: s.fields, stand := .fieldStart }

/-- The record with its open field closed. -/
def record (s : Scan) : Record :=
  { position := s.start, fields := (s.field.reverse :: s.fields).reverse }

/-- Ready for the record behind this one. -/
def next (s : Scan) : Scan :=
  let here := { s.here with record := s.start.record + 1 }
  { start := here, here }

/-- Reads a byte outside quotes. -/
def plain (s : Scan) (b : UInt8) : Scan × Option Record :=
  if b = comma then (s.endField, none)
  else if isBreak b then (s.next, some s.record)
  else (s.push b .bare, none)

/-- Reads the first byte of a field. -/
def opening (s : Scan) (b : UInt8) : Scan × Option Record :=
  if b = quote then ({ s with stand := .quoted }, none) else s.plain b

/-- Reads one byte; answers the record that it ends. -/
def step (s : Scan) (b : UInt8) : Scan × Option Record :=
  let s := { s with here := s.here.advance b }
  match s.stand with
  | .recordStart => if isBreak b then (s, none) else s.opening b
  | .fieldStart => s.opening b
  | .bare => s.plain b
  | .quoted => if b = quote then ({ s with stand := .quoteSeen }, none) else (s.push b .quoted, none)
  | .quoteSeen => if b = quote then (s.push b .quoted, none) else s.plain b

/-- What the end of the input leaves: the open record, if one was begun. -/
def finish (s : Scan) : List Record :=
  match s.stand with
  | .recordStart => []
  | _ => [s.record]

/-- The records that a byte list completes, and the reader behind them. -/
def feed (s : Scan) : List UInt8 → List Record × Scan
  | [] => ([], s)
  | b :: bs =>
      let (s, done) := s.step b
      let (records, s) := s.feed bs
      (done.toList ++ records, s)

end Scan

/-! ## Sources -/

/-- A byte source: the reads that it delivers, one after another, and the
failure in which it ends, if it does. -/
structure Source where
  reads : List (List UInt8)
  failure : Option SystemError := none

/-- The three bytes of the byte order mark. -/
def byteOrderMark : List UInt8 :=
  [0xEF, 0xBB, 0xBF]

/-- A record, or the failure that ended the input. -/
inductive Entry where
  | record (r : Record)
  | failure (e : SystemError)
  deriving DecidableEq

namespace Source

/-- Cuts a byte list into reads of at most `size` bytes. -/
def chunks (size : Nat) (bs : List UInt8) : List (List UInt8) :=
  if h : bs = [] then []
  else bs.take (size - 1 + 1) :: chunks size (bs.drop (size - 1 + 1))
termination_by bs.length
decreasing_by
  have hpos : 0 < bs.length := List.length_pos_iff.mpr h
  simp only [List.length_drop]
  omega

/-- The largest read from a file. -/
def fileReadSize : Nat := 8192

/-- A source that delivers a byte list in reads of at most `size` bytes. -/
def ofBytes (bs : List UInt8) (size : Nat := fileReadSize) : Source :=
  { reads := chunks size bs }

/-- A source that fails after its first `count` bytes.  A shorter byte list is
delivered as a whole and ends without a failure. -/
def failingAfter (bs : List UInt8) (size count : Nat) (e : SystemError) : Source :=
  if bs.length < count then ofBytes bs size
  else { reads := chunks size (bs.take count), failure := some e }

/-- The length of a byte order mark at the start.  It counts only when the first
read holds it whole. -/
def markLength (s : Source) : Nat :=
  match s.reads with
  | [] => 0
  | first :: _ => if byteOrderMark.isPrefixOf first then byteOrderMark.length else 0

/-- The first read is the byte order mark and nothing else. -/
def markAlone (s : Source) : Bool :=
  s.reads.head? = some byteOrderMark

/-- Reads a source to its end.  A failure loses the record that is open.  Behind a first
read that is the byte order mark alone nothing is left of it, which the reader takes for
the end of the input: it never reads on, and no failure is seen. -/
def entries (s : Source) : List Entry :=
  if s.markAlone then []
  else
    let mark := s.markLength
    let (records, scan) := Scan.feed { here := { byte := mark } } (s.reads.flatten.drop mark)
    match s.failure with
    | none => (records ++ scan.finish).map .record
    | some e => records.map .record ++ [.failure e]

end Source

end BenchCharts.ResourceLog
