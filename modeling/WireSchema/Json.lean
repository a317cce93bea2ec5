import WireSchema.Decimal.Style
import WireSchema.Text.Quoted

/-! JSON values and their two written forms, one without any space and one with a line for each
member. -/
namespace WireSchema

inductive Json where
  | null
  | bool (b : Bool)
  | int (n : Int)
  | float (x : Binary64)
  | str (s : String)
  | arr (items : List Json)
  /-- Members are written in the order given. -/
  | obj (members : List (String × Json))

namespace Json

/-- Floats in JSON: an exponent below 10^-5 and from 10^16 on; what is not a number is `null`. -/
def floatStyle : NumberStyle where
  plain := some (-4, 16)
  keepPoint := true
  plusSign := true
  tie := .even
  nan := "null"
  infinity := "null"
  negInfinity := "null"

def hexPair (n : Nat) : List Char := [Nat.digitChar (n / 16), Nat.digitChar (n % 16)]

/-- How one character of a string is written: quotes, backslashes and controls are escaped. -/
def strChar (c : Char) : List Char :=
  if c = '"' then ['\\', '"']
  else if c = '\\' then ['\\', '\\']
  else if c = '\x08' then ['\\', 'b']
  else if c = '\x0c' then ['\\', 'f']
  else if c = '\n' then ['\\', 'n']
  else if c = '\r' then ['\\', 'r']
  else if c = '\t' then ['\\', 't']
  else if c.toNat < 0x20 then '\\' :: 'u' :: '0' :: '0' :: hexPair c.toNat
  else [c]

def strText (s : String) : List Char := '"' :: s.toList.flatMap strChar ++ ['"']

/-- The text of anything but an array or object. -/
def leaf : Json → List Char
  | .null => "null".toList
  | .bool b => (if b then "true" else "false").toList
  | .int n => (toString n).toList
  | .float x => (floatStyle.write x).toList
  | .str s => strText s
  | .arr _ | .obj _ => []

mutual

def compactText : Json → List Char
  | .arr items => '[' :: compactItems items ++ [']']
  | .obj members => '\x7b' :: compactMembers members ++ ['\x7d']
  | j => j.leaf

def compactItems : List Json → List Char
  | [] => []
  | [j] => j.compactText
  | j :: js => j.compactText ++ ',' :: compactItems js

def compactMembers : List (String × Json) → List Char
  | [] => []
  | [(k, j)] => strText k ++ ':' :: j.compactText
  | (k, j) :: ms => strText k ++ ':' :: j.compactText ++ ',' :: compactMembers ms

end

/-- A line end and the start of a line at the given depth. -/
def newline (depth : Nat) : List Char := '\n' :: List.replicate (2 * depth) ' '

mutual

def prettyText (depth : Nat) : Json → List Char
  | .arr [] => ['[', ']']
  | .arr items => '[' :: prettyItems (depth + 1) items ++ newline depth ++ [']']
  | .obj [] => ['\x7b', '\x7d']
  | .obj members => '\x7b' :: prettyMembers (depth + 1) members ++ newline depth ++ ['\x7d']
  | j => j.leaf

def prettyItems (depth : Nat) : List Json → List Char
  | [] => []
  | [j] => newline depth ++ j.prettyText depth
  | j :: js => newline depth ++ j.prettyText depth ++ ',' :: prettyItems depth js

def prettyMembers (depth : Nat) : List (String × Json) → List Char
  | [] => []
  | [(k, j)] => newline depth ++ strText k ++ ':' :: ' ' :: j.prettyText depth
  | (k, j) :: ms =>
    newline depth ++ strText k ++ ':' :: ' ' :: j.prettyText depth ++ ',' :: prettyMembers depth ms

end

mutual

/-- The same value with the members of every object in the order of their keys. -/
def sorted : Json → Json
  | .arr items => .arr (sortedItems items)
  | .obj members => .obj ((sortedMembers members).mergeSort fun a b => a.1 ≤ b.1)
  | j => j

def sortedItems : List Json → List Json
  | [] => []
  | j :: js => j.sorted :: sortedItems js

def sortedMembers : List (String × Json) → List (String × Json)
  | [] => []
  | (k, j) :: ms => (k, j.sorted) :: sortedMembers ms

end

/-- On one line, without spaces. -/
def compact (j : Json) : String := String.ofList j.compactText

/-- One member or item to a line, each level two spaces further in. -/
def pretty (j : Json) : String := String.ofList (j.prettyText 0)

/-- The member, unless there is no value for it. -/
def member? {α : Type} (key : String) (toJson : α → Json) : Option α → List (String × Json)
  | none => []
  | some a => [(key, toJson a)]

/-- The value, or `null` in its place. -/
def orNull {α : Type} (toJson : α → Json) : Option α → Json
  | none => .null
  | some a => toJson a

end Json
end WireSchema
