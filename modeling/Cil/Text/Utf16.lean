/-
  UTF-16 CODE UNITS.

  String literals of a method body are lists of 16-bit units, and such a list need not be the encoding
  of any text: a surrogate may stand alone.  So units are kept as they are (`List UInt16`), and a
  `String` becomes units by the standard encoding: one unit for a character below U+10000, a high and
  a low surrogate for any other.
-/

namespace Cil.Utf16

/-- The one or two units of a character. -/
def encodeChar (c : Char) : List UInt16 :=
  if c.toNat < 0x10000 then
    [UInt16.ofNat c.toNat]
  else
    [UInt16.ofNat (0xD800 + (c.toNat - 0x10000) / 0x400),
     UInt16.ofNat (0xDC00 + (c.toNat - 0x10000) % 0x400)]

/-- The units of a text, in order. -/
def encode (s : String) : List UInt16 := s.toList.flatMap encodeChar

end Cil.Utf16
