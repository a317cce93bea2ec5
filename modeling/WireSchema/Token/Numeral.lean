import WireSchema.SyntaxFault

/-! Number literals: whole numbers to base ten, sixteen or two, and decimal fractions. -/
namespace WireSchema

/-- The value of a digit to base sixteen; 16 for any other character. -/
def digitValue (c : Char) : Nat :=
  if '0' ≤ c ∧ c ≤ '9' then c.toNat - '0'.toNat
  else if 'a' ≤ c ∧ c ≤ 'f' then c.toNat - 'a'.toNat + 10
  else if 'A' ≤ c ∧ c ≤ 'F' then c.toNat - 'A'.toNat + 10
  else 16

def isDigitOf (base : Nat) (c : Char) : Bool := digitValue c < base

def natOfDigits (base : Nat) (ds : List Char) : Nat :=
  ds.foldl (fun n d => base * n + digitValue d) 0

/-- An integer of 128 bits in two's complement. -/
abbrev Int128 := BitVec 128

namespace Int128

/-- The product, unless it overflows. -/
def mul? (a b : Int128) : Option Int128 := if a.smulOverflow b then none else some (a * b)

/-- The sum, unless it overflows. -/
def add? (a b : Int128) : Option Int128 := if a.saddOverflow b then none else some (a + b)

/-- A number with one more digit behind it, unless the character is no digit or the bits do not
suffice. -/
def push? (base : Nat) (n : Int128) (d : Char) : Option Int128 := do
  let shifted ← mul? n (.ofNat 128 base)
  if isDigitOf base d then add? shifted (.ofNat 128 (digitValue d)) else none

/-- The number that is there after some digits, if the bits have sufficed so far. -/
def gather? (base : Nat) (ds : List Char) : Option Int128 := ds.foldlM (push? base) 0

/-- Without a digit there is no number. -/
def ofDigits? (base : Nat) (ds : List Char) : Option Int128 :=
  if ds = [] then none else gather? base ds

end Int128

/-- A decimal numeral in its parts, as written after the sign. -/
structure Numeral where
  whole : List Char
  /-- The digits after a point, if there is a point. -/
  fraction : Option (List Char)
  /-- The sign as written and the digits of an exponent. -/
  exponent : Option (List Char × List Char)
deriving DecidableEq, Repr

namespace Numeral

def fractionOf : List Char → Option (List Char)
  | '.' :: cs => some (cs.takeWhile (isDigitOf 10))
  | _ => none

/-- The sign at the head of an exponent, and what follows it. -/
def splitSign : List Char → List Char × List Char
  | '+' :: cs => (['+'], cs)
  | '-' :: cs => (['-'], cs)
  | cs => ([], cs)

/-- An `e` is an exponent only if a digit follows it. -/
def exponentOf : List Char → Option (List Char × List Char)
  | [] => none
  | c :: cs =>
    let (sign, after) := splitSign cs
    let digits := after.takeWhile (isDigitOf 10)
    if (c = 'e' ∨ c = 'E') ∧ digits ≠ [] then some (sign, digits) else none

variable (n : Numeral)

def fractionLength : Nat :=
  match n.fraction with
  | none => 0
  | some ds => ds.length + 1

def exponentLength : Nat :=
  match n.exponent with
  | none => 0
  | some (sign, ds) => sign.length + ds.length + 1

/-- Number of characters of the text. -/
def length : Nat := n.whole.length + n.fractionLength + n.exponentLength

/-- The longest numeral at the head of a text. -/
def ofText (cs : List Char) : Numeral :=
  let whole := cs.takeWhile (isDigitOf 10)
  let rest := cs.drop whole.length
  let fraction := fractionOf rest
  let rest := rest.drop (fractionLength ⟨whole, fraction, none⟩)
  ⟨whole, fraction, exponentOf rest⟩

def isWhole : Bool := n.fraction.isNone && n.exponent.isNone

def power : Int :=
  match n.exponent with
  | none => 0
  | some (sign, ds) => if sign = ['-'] then -natOfDigits 10 ds else natOfDigits 10 ds

/-- The binary64 nearest to the numeral. -/
def toBinary64 : Binary64 :=
  let fraction := n.fraction.getD []
  Binary64.ofDecimal (natOfDigits 10 (n.whole ++ fraction)) (n.power - fraction.length)

/-- A float is read only if there is a digit before its exponent. -/
def toBinary64? : Option Binary64 :=
  if n.whole = [] ∧ n.fraction.getD [] = [] then none else some n.toBinary64

/-- The text that a float is read from: as it is written, but for the letter of the exponent. -/
def floatText : List Char :=
  let fraction := match n.fraction with
    | none => []
    | some ds => '.' :: ds
  let exponent := match n.exponent with
    | none => []
    | some (sign, ds) => 'e' :: (sign ++ ds)
  n.whole ++ fraction ++ exponent

end Numeral

/-- Integers are 64 bits wide. -/
def fitsInt64 (n : Int) : Bool := -0x8000000000000000 ≤ n && n ≤ 0x7FFFFFFFFFFFFFFF

/-- The least integer has a magnitude that is out of range, so the digits are gathered in more bits
than an integer has. -/
def integerToken (negative : Bool) (base : Nat) (digits : List Char) : Except SyntaxFault Token :=
  match Int128.ofDigits? base digits with
  | none => .error .integerOutOfRange
  | some magnitude =>
    let n := if negative then -magnitude else magnitude
    if fitsInt64 n.toInt then .ok (.literal (.int n.toInt)) else .error .integerOutOfRange

def floatToken (negative : Bool) (x : Binary64) : Except SyntaxFault Token :=
  if x.isFinite then .ok (.literal (.float (if negative then -x else x)))
  else .error .floatOutOfRange

/-- A numeral with a point or an exponent is a float. -/
def Numeral.token (negative : Bool) (n : Numeral) : Except SyntaxFault Token :=
  if n.isWhole then integerToken negative 10 n.whole
  else
    match n.toBinary64? with
    | none => .error (.invalidFloat (String.ofList n.floatText))
    | some x => floatToken negative x

/-- The base that a mark at the head of a number names, and what follows the mark. -/
def baseMark : List Char → Option (Nat × List Char)
  | '0' :: c :: cs =>
    if c = 'x' ∨ c = 'X' then some (16, cs)
    else if c = 'b' ∨ c = 'B' then some (2, cs)
    else none
  | _ => none

/-- The number at the head of a text without its sign, and its length. -/
def unsignedNumber (negative : Bool) (cs : List Char) : Except SyntaxFault (Token × Nat) :=
  match baseMark cs with
  | some (base, rest) =>
    let digits := rest.takeWhile (isDigitOf base)
    if digits = [] then .error (.malformedInteger base)
    else (integerToken negative base digits).map (·, digits.length + 2)
  | none =>
    let n := Numeral.ofText cs
    (n.token negative).map (·, n.length)

/-- A number starts with a digit, or with a point and a digit. -/
def startsUnsigned : List Char → Bool
  | c :: cs => isDigitOf 10 c || (c = '.' && (cs.head?.any (isDigitOf 10)))
  | [] => false

def startsNumber : List Char → Bool
  | '-' :: cs => startsUnsigned cs
  | cs => startsUnsigned cs

/-- The number at the head of a text and its length. -/
def signedNumber : List Char → Except SyntaxFault (Token × Nat)
  | '-' :: cs => (unsignedNumber true cs).map fun (token, n) => (token, n + 1)
  | cs => unsignedNumber false cs

end WireSchema
