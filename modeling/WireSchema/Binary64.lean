/-! IEEE-754 binary64 numbers by their bit patterns, and the reading of decimals into them. All
arithmetic is exact: a decimal is a ratio of natural numbers until the one rounding at its end. -/
namespace WireSchema

/-- One of the 2^64 patterns: sign, 11 bits of exponent, 52 bits of fraction. -/
structure Binary64 where
  bits : UInt64
deriving DecidableEq, Repr

namespace Binary64
variable (x : Binary64)

def isNegative : Bool := 0x8000000000000000 ≤ x.bits.toNat

def exponentField : Nat := x.bits.toNat / 0x10000000000000 % 0x800

def fraction : Nat := x.bits.toNat % 0x10000000000000

def isFinite : Bool := x.exponentField ≠ 2047

def isNaN : Bool := x.exponentField = 2047 && x.fraction ≠ 0

/-- A finite number is its sign times `significand * 2 ^ exponent`. -/
def significand : Nat := if x.exponentField = 0 then x.fraction else x.fraction + 0x10000000000000

def exponent : Int := (max x.exponentField 1 : Nat) - 1075

/-- The number with the other sign: adding 2^63 turns the top bit and no other. -/
def neg : Binary64 := ⟨x.bits + 0x8000000000000000⟩

instance : Neg Binary64 := ⟨neg⟩

def zero : Binary64 := ⟨0⟩

def infinity : Binary64 := ⟨0x7FF0000000000000⟩

/-- `num / den` to the nearest natural number, a half to the even one. -/
def roundDiv (num den : Nat) : Nat :=
  let q := num / den
  let r := num % den
  if 2 * r < den ∨ (2 * r = den ∧ q % 2 = 0) then q else q + 1

/-- The power of two at or just below `num / den`, both positive. -/
def floorLog (num den : Nat) : Int :=
  let k : Int := num.log2 - den.log2
  if den * Nat.pow 2 k.toNat ≤ num * Nat.pow 2 (-k).toNat then k else k - 1

/-- The binary64 nearest to `num / den`, ties to even, infinity beyond the largest. Exponent
and significand are added, not joined: a significand that rounds up to 2^53 carries into the
next exponent, and one of 2^52 at the bottom makes the least normal number. -/
def ofRatio (num den : Nat) : Binary64 :=
  if num = 0 then zero
  else
    let e := max (-1074) (floorLog num den - 52)
    let m := roundDiv (num * Nat.pow 2 (-e).toNat) (den * Nat.pow 2 e.toNat)
    ⟨UInt64.ofNat (min infinity.bits.toNat ((e + 1074).toNat * 0x10000000000000 + m))⟩

/-- The binary64 nearest to `digits * 10 ^ exp`. The two early answers keep a long exponent from
making a long number: every binary64 lies between 10^-324 and 10^309. -/
def ofDecimal (digits : Nat) (exp : Int) : Binary64 :=
  let scale := (Nat.toDigits 10 digits).length + exp
  if digits = 0 ∨ scale < -330 then zero
  else if 310 < scale then infinity
  else ofRatio (digits * Nat.pow 10 exp.toNat) (Nat.pow 10 (-exp).toNat)

end Binary64
end WireSchema
