/-! Places in a text. -/
namespace WireSchema

/-- Line and column of a character, both counted from one. A column is one character wide,
whatever the character. The counts have 32 bits, and start again at zero behind the largest. -/
structure Location where
  line : UInt32
  column : UInt32
deriving DecidableEq, Repr

namespace Location
variable (loc : Location)

def start : Location := ⟨1, 1⟩

/-- Where the character after `c` stands, if `c` stands here. -/
def next (c : Char) : Location :=
  if c = '\n' then ⟨loc.line + 1, 1⟩ else ⟨loc.line, loc.column + 1⟩

/-- Where the text after `cs` stands, if `cs` starts here. -/
def after (cs : List Char) : Location := cs.foldl next loc

@[simp] theorem after_nil : loc.after [] = loc := rfl

@[simp] theorem after_cons (c : Char) (cs : List Char) :
    loc.after (c :: cs) = (loc.next c).after cs := rfl

@[simp] theorem after_append (cs ds : List Char) :
    loc.after (cs ++ ds) = (loc.after cs).after ds := by
  simp [after]

def text : String := s!"at line {loc.line}, column {loc.column}"

end Location
end WireSchema
