/-! White space in the sense of Unicode: 25 characters, the controls that move to a new place or
line among them. The zero width space is none of them. -/

namespace ScriptHost.Text.Blank

/-- Ranges of code points, both ends included. -/
def ranges : List (Nat × Nat) :=
  [(0x09, 0x0d), (0x20, 0x20), (0x85, 0x85), (0xa0, 0xa0), (0x1680, 0x1680), (0x2000, 0x200a),
   (0x2028, 0x2029), (0x202f, 0x202f), (0x205f, 0x205f), (0x3000, 0x3000)]

def isBlank (c : Char) : Bool := ranges.any fun (lo, hi) => lo ≤ c.toNat && c.toNat ≤ hi

/-- Whether a text has nothing but white space. -/
def allBlank (s : String) : Bool := s.toList.all isBlank

end ScriptHost.Text.Blank
