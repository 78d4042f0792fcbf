/-! Classes of ASCII bytes, as the script language tells them apart. Every byte from 128 on
belongs to none of them. -/

namespace ScriptHost.Script.Ascii

def byte (c : Char) : UInt8 := c.toUInt8

def isSpace (b : UInt8) : Bool := b == 32 || (9 ≤ b && b ≤ 13)

def isNewline (b : UInt8) : Bool := b == 10 || b == 13

def isDigit (b : UInt8) : Bool := 48 ≤ b && b ≤ 57

def isLetter (b : UInt8) : Bool := (65 ≤ b && b ≤ 90) || (97 ≤ b && b ≤ 122) || b == 95

def isWord (b : UInt8) : Bool := isLetter b || isDigit b

def isPrintable (b : UInt8) : Bool := 32 ≤ b && b ≤ 126

def digitValue (b : UInt8) : Nat := b.toNat - 48

def hexValue? (b : UInt8) : Option Nat :=
  if isDigit b then some (digitValue b)
  else if 65 ≤ b && b ≤ 70 then some (b.toNat - 55)
  else if 97 ≤ b && b ≤ 102 then some (b.toNat - 87)
  else none

def isHexDigit (b : UInt8) : Bool := (hexValue? b).isSome

/-- The number that a run of digits spells, in the given base. -/
def value (base : Nat) (digits : List UInt8) : Nat :=
  digits.foldl (fun n b => n * base + (hexValue? b).getD 0) 0

/-- The bytes of a text. -/
def bytes (s : String) : List UInt8 := s.toUTF8.toList

end ScriptHost.Script.Ascii
