import Cil.Text.Hex

/-
  QUOTED LITERALS.

  A list of 16-bit units is written between double quotes, in printable ASCII only:

      tab, line feed, carriage return      \t   \n   \r
      quote, backslash                     \"   \\
      0x20 .. 0x7E otherwise               the character itself
      every other unit                     \u and four lower-case hexadecimal digits

  `decode` is the reader of this form.  It takes the units up to the closing quote and hands back what
  follows it, so a literal can be read off the front of a longer text.
-/

namespace Cil.Quoted

/-- The characters that stand for one unit inside the quotes. -/
def escape (u : UInt16) : List Char :=
  if u = 0x09 then ['\\', 't']
  else if u = 0x0A then ['\\', 'n']
  else if u = 0x0D then ['\\', 'r']
  else if u = 0x22 then ['\\', '"']
  else if u = 0x5C then ['\\', '\\']
  else if 0x20 ≤ u.toNat ∧ u.toNat ≤ 0x7E then [Char.ofNat u.toNat]
  else '\\' :: 'u' :: Hex.digits .lower 4 u.toNat

/-- The literal of a list of units. -/
def encode (units : List UInt16) : String :=
  String.ofList ('"' :: (units.flatMap escape ++ ['"']))

/-- The value of a lower-case hexadecimal digit. -/
def digitValue? (c : Char) : Option Nat :=
  if '0' ≤ c ∧ c ≤ '9' then some (c.toNat - '0'.toNat)
  else if 'a' ≤ c ∧ c ≤ 'f' then some (c.toNat - 'a'.toNat + 10)
  else none

/-- The unit that four hexadecimal digits write. -/
def hexUnit? (a b c d : Char) : Option UInt16 := do
  return UInt16.ofNat
    ((((← digitValue? a) * 16 + (← digitValue? b)) * 16 + (← digitValue? c)) * 16 + (← digitValue? d))

/-- Reads units up to the closing quote; gives them with the text behind the quote. -/
def decodeBody : List Char → Option (List UInt16 × List Char)
  | [] => none
  | '"' :: rest => some ([], rest)
  | '\\' :: 't' :: rest => (decodeBody rest).map fun (us, r) => (0x09 :: us, r)
  | '\\' :: 'n' :: rest => (decodeBody rest).map fun (us, r) => (0x0A :: us, r)
  | '\\' :: 'r' :: rest => (decodeBody rest).map fun (us, r) => (0x0D :: us, r)
  | '\\' :: '"' :: rest => (decodeBody rest).map fun (us, r) => (0x22 :: us, r)
  | '\\' :: '\\' :: rest => (decodeBody rest).map fun (us, r) => (0x5C :: us, r)
  | '\\' :: 'u' :: a :: b :: c :: d :: rest => do
    let u ← hexUnit? a b c d
    (decodeBody rest).map fun (us, r) => (u :: us, r)
  | '\\' :: _ => none
  | c :: rest => (decodeBody rest).map fun (us, r) => (UInt16.ofNat c.toNat :: us, r)

/-- Reads a literal from the front of a text. -/
def decode : List Char → Option (List UInt16 × List Char)
  | '"' :: rest => decodeBody rest
  | _ => none

end Cil.Quoted
