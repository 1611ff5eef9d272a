/-!
# UTF-8

`encode` writes each character as one to four bytes.  `decode` reads a byte
list; where it does not hold well-formed UTF-8 the answer is the index at
which the first malformed sequence begins.

A sequence is well formed when its leading byte announces its length, every
further byte lies between `0x80` and `0xBF`, the value could not be written with
fewer bytes, and it is a Unicode scalar value.
-/

namespace BenchCharts.Text.Utf8

/-! ## Writing -/

/-- The bytes of a text. -/
def encode (cs : List Char) : List UInt8 :=
  cs.flatMap String.utf8EncodeChar

/-! ## Reading -/

/-- The six low bits of a continuation byte. -/
def continuation? (b : UInt8) : Option Nat :=
  if 0x80 ≤ b ∧ b ≤ 0xBF then some (b.toNat - 0x80) else none

/-- The scalar value `n` as a character, if it takes more than `least` to write. -/
def scalar? (least n : Nat) : Option Char :=
  if h : n.isValidChar ∧ least ≤ n then some (Char.ofNatAux n h.1) else none

/-- Reads the character at the head of a byte list, and how many bytes it takes. -/
def head? : List UInt8 → Option (Char × Nat)
  | [] => none
  | b :: rest =>
      if b < 0x80 then
        (scalar? 0 b.toNat).map (·, 1)
      else if 0xC0 ≤ b ∧ b < 0xE0 then do
        let low ← rest.head? >>= continuation?
        let c ← scalar? 0x80 ((b.toNat - 0xC0) * 64 + low)
        pure (c, 2)
      else if 0xE0 ≤ b ∧ b < 0xF0 then do
        let mid ← rest.head? >>= continuation?
        let low ← rest[1]? >>= continuation?
        let c ← scalar? 0x800 (((b.toNat - 0xE0) * 64 + mid) * 64 + low)
        pure (c, 3)
      else if 0xF0 ≤ b ∧ b < 0xF8 then do
        let high ← rest.head? >>= continuation?
        let mid ← rest[1]? >>= continuation?
        let low ← rest[2]? >>= continuation?
        let c ← scalar? 0x10000 ((((b.toNat - 0xF0) * 64 + high) * 64 + mid) * 64 + low)
        pure (c, 4)
      else
        none

/-- Reads on from index `position`; the first argument counts the bytes that
belong to a character already read. -/
def decodeFrom (skip position : Nat) : List UInt8 → Except Nat (List Char)
  | [] => .ok []
  | b :: rest =>
      match skip with
      | skip + 1 => decodeFrom skip (position + 1) rest
      | 0 =>
          match head? (b :: rest) with
          | none => .error position
          | some (c, width) =>
              (decodeFrom (width - 1) (position + 1) rest).map (c :: ·)

/-- The characters of a byte list, or the index of the first malformed sequence. -/
def decode (bs : List UInt8) : Except Nat (List Char) :=
  decodeFrom 0 0 bs

/-! ## Reading malformed text -/

/-- The least and the greatest byte that can follow a leading byte. -/
def secondRange (lead : UInt8) : UInt8 × UInt8 :=
  if lead = 0xE0 then (0xA0, 0xBF)
  else if lead = 0xED then (0x80, 0x9F)
  else if lead = 0xF0 then (0x90, 0xBF)
  else if lead = 0xF4 then (0x80, 0x8F)
  else (0x80, 0xBF)

/-- How many bytes at the head of a list, where no character can be read, could
have been the beginning of one. -/
def malformedLength : List UInt8 → Nat
  | lead :: second :: rest =>
      let (least, greatest) := secondRange lead
      if lead < 0xE0 ∨ 0xF4 < lead ∨ second < least ∨ greatest < second then 1
      else if 0xF0 ≤ lead ∧ ((rest.head?).bind continuation?).isSome then 3
      else 2
  | _ => 1

/-- Reads on; the first argument counts the bytes to skip. -/
def replaceFrom (skip : Nat) : List UInt8 → List Char
  | [] => []
  | b :: rest =>
      match skip with
      | skip + 1 => replaceFrom skip rest
      | 0 =>
          match head? (b :: rest) with
          | some (c, width) => c :: replaceFrom (width - 1) rest
          | none => '\uFFFD' :: replaceFrom (malformedLength (b :: rest) - 1) rest

/-- The text of a byte list, with a replacement character for every malformed
sequence. -/
def decodeLossy (bs : List UInt8) : String :=
  String.ofList (replaceFrom 0 bs)

end BenchCharts.Text.Utf8
