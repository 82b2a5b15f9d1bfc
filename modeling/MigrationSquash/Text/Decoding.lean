import MigrationSquash.Text.Utf8

/-!
# Reading text of unknown encoding

Bytes are read as UTF-8.  Bytes that are not UTF-8 are read as UTF-16 where they start
with its byte-order mark, and else as Windows-1252, in which every byte is a character.
-/

set_option autoImplicit false

namespace MigrationSquash.Text

/-- The mark that may start a text. -/
def byteOrderMark : Char := '\uFEFF'

/-- The characters of Windows-1252 from byte 0x80 to byte 0x9F. -/
def windows1252Table : List Nat := [
  0x20AC, 0x81, 0x201A, 0x192, 0x201E, 0x2026, 0x2020, 0x2021,
  0x2C6, 0x2030, 0x160, 0x2039, 0x152, 0x8D, 0x17D, 0x8F,
  0x90, 0x2018, 0x2019, 0x201C, 0x201D, 0x2022, 0x2013, 0x2014,
  0x2DC, 0x2122, 0x161, 0x203A, 0x153, 0x9D, 0x17E, 0x178
]

/-- The character of one byte in Windows-1252. -/
def windows1252Char (b : UInt8) : Char :=
  if 0x80 ≤ b && b < 0xA0 then
    Char.ofNat (windows1252Table.getD (b.toNat - 0x80) b.toNat)
  else
    Char.ofNat b.toNat

def decodeWindows1252 (bytes : Bytes) : Text := bytes.map windows1252Char

inductive ByteOrder where
  | littleEndian
  | bigEndian
  deriving DecidableEq, Repr

/-- The unit that two bytes make up. -/
def ByteOrder.unit (order : ByteOrder) (first second : UInt8) : Nat :=
  match order with
  | .littleEndian => second.toNat * 256 + first.toNat
  | .bigEndian => first.toNat * 256 + second.toNat

/-- The UTF-16 units of some bytes, if their number is even. -/
def ByteOrder.units? (order : ByteOrder) : Bytes → Option (List Nat)
  | [] => some []
  | [_] => none
  | first :: second :: rest => (order.units? rest).map (order.unit first second :: ·)

def isHighSurrogate (unit : Nat) : Bool := 0xD800 ≤ unit && unit ≤ 0xDBFF

def isLowSurrogate (unit : Nat) : Bool := 0xDC00 ≤ unit && unit ≤ 0xDFFF

/-- The text of some UTF-16 units, if each surrogate is one of a pair. -/
def ofUnits? : List Nat → Option Text
  | [] => some []
  | [unit] =>
      if isHighSurrogate unit || isLowSurrogate unit then none else some [Char.ofNat unit]
  | unit :: next :: rest =>
      if isHighSurrogate unit then
        if isLowSurrogate next then
          (ofUnits? rest).map
            (Char.ofNat (0x10000 + (unit - 0xD800) * 0x400 + (next - 0xDC00)) :: ·)
        else none
      else if isLowSurrogate unit then none
      else (ofUnits? (next :: rest)).map (Char.ofNat unit :: ·)

def decodeUtf16? (order : ByteOrder) (bytes : Bytes) : Option Text :=
  (order.units? bytes).bind ofUnits?

/-- The text of some bytes that are not well-formed UTF-8: a byte-order mark at their
start says how to read them. -/
def decodeMarked? : Bytes → Option Text
  | 0xFF :: 0xFE :: rest => decodeUtf16? .littleEndian rest
  | 0xFE :: 0xFF :: rest => decodeUtf16? .bigEndian rest
  | 0xEF :: 0xBB :: 0xBF :: rest => decodeUtf8? rest
  | bytes => some (decodeWindows1252 bytes)

/-- The text of some bytes, unless their byte-order mark belies them. -/
def decode? (bytes : Bytes) : Option Text :=
  match decodeUtf8? bytes with
  | some s => some s
  | none => decodeMarked? bytes

end MigrationSquash.Text
