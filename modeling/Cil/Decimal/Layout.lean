/-
  LAYOUT OF A DECIMAL.

  A decimal `c * 10 ^ e` is written either positionally, with zeros filled in up to the point, or
  scientifically, with one digit before the point and the power behind an `e`.  `Layout` says which
  powers are written positionally and whether a whole number shows a `.0`.
-/

namespace Cil.Decimal

/-- How decimals are laid out. -/
structure Layout where
  /-- The least and the greatest power of the leading digit that is written positionally; `none` if
      every one is. -/
  positional : Option (Int × Int)
  /-- Whether a whole number written positionally ends in `.0`. -/
  pointZero : Bool
deriving DecidableEq, Repr

/-- Positional text of `c * 10 ^ e`. -/
def positionalText (pointZero : Bool) (c : Nat) (e : Int) : List Char :=
  let ds := Nat.toDigits 10 c
  if 0 ≤ e then
    ds ++ List.replicate e.toNat '0' ++ (if pointZero then ['.', '0'] else [])
  else
    let point := ds.length + e
    if 0 < point then
      ds.take point.toNat ++ '.' :: ds.drop point.toNat
    else
      '0' :: '.' :: (List.replicate (-point).toNat '0' ++ ds)

/-- Scientific text of `c * 10 ^ e`. -/
def scientificText (c : Nat) (e : Int) : List Char :=
  let ds := Nat.toDigits 10 c
  let fraction := if ds.tail.isEmpty then [] else '.' :: ds.tail
  ds.take 1 ++ fraction ++ 'e' :: (Int.repr (e + ds.tail.length)).toList

/-- The text of `c * 10 ^ e`, where `c` is zero or does not end in a zero. -/
def Layout.digits (l : Layout) (c : Nat) (e : Int) : List Char :=
  let leading := e + ((Nat.toDigits 10 c).length - 1 : Nat)
  match l.positional with
  | none => positionalText l.pointZero c e
  | some (least, greatest) =>
    if c = 0 ∨ (least ≤ leading ∧ leading ≤ greatest) then positionalText l.pointZero c e
    else scientificText c e

end Cil.Decimal
