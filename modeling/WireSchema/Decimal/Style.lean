import WireSchema.Decimal.Shortest

/-! How a binary64 is written: the digits are the shortest ones, and a style says where the point
and the exponent go. -/
namespace WireSchema

/-- The free choices of a number's text. -/
structure NumberStyle where
  /-- Least and greatest number of digits before the point that is written without an exponent;
  negative counts are zeros after the point. No bounds: never an exponent. -/
  plain : Option (Int × Int)
  /-- A whole number without exponent ends in `.0`. -/
  keepPoint : Bool
  /-- An exponent that is not negative has a plus sign. -/
  plusSign : Bool
  tie : Tie
  nan : String
  infinity : String
  negInfinity : String

namespace NumberStyle
variable (style : NumberStyle)

def zeros (n : Nat) : List Char := List.replicate n '0'

/-- `0.ds * 10 ^ k` without an exponent. -/
def positional (ds : List Char) (k : Int) : List Char :=
  if k ≤ 0 then '0' :: '.' :: zeros (-k).toNat ++ ds
  else if ds.length ≤ k then
    ds ++ zeros (k.toNat - ds.length) ++ if style.keepPoint then ['.', '0'] else []
  else ds.take k.toNat ++ '.' :: ds.drop k.toNat

/-- `0.ds * 10 ^ k` with one digit before the point. -/
def scientific (ds : List Char) (k : Int) : List Char :=
  let point := if ds.length ≤ 1 then [] else ['.']
  let sign := if k - 1 < 0 then ['-'] else if style.plusSign then ['+'] else []
  ds.take 1 ++ point ++ ds.drop 1 ++ 'e' :: sign ++ Nat.toDigits 10 (k - 1).natAbs

def magnitude (d : Decimal) : List Char :=
  let ds := Nat.toDigits 10 d.digits
  let k := ds.length + d.exp
  match style.plain with
  | none => style.positional ds k
  | some (lo, hi) =>
    if d.digits = 0 ∨ (lo ≤ k ∧ k ≤ hi) then style.positional ds k else style.scientific ds k

def write (x : Binary64) : String :=
  if x.isFinite then
    let digits := style.magnitude (Decimal.shortest style.tie x)
    String.ofList (if x.isNegative then '-' :: digits else digits)
  else if x.isNaN then style.nan
  else if x.isNegative then style.negInfinity
  else style.infinity

end NumberStyle
end WireSchema
