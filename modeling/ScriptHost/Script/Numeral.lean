import ScriptHost.Number.Decimal
import ScriptHost.Script.Ascii

/-! The two kinds of script number and their text. A numeral without point and exponent is an
integer when it fits 64 bits; hexadecimal integers wrap instead. Doubles are written with 14
significant digits, and always so that they do not read as integers. -/

namespace ScriptHost.Script

open Number Ascii

inductive Numeral where
  | integer (i : Int64)
  | double (x : Double)
deriving DecidableEq, Inhabited

namespace Numeral

def toDouble : Numeral → Double
  | .integer i => .ofInt i.toInt
  | .double x => x

/-! ### Text -/

def integerText (i : Int) : String :=
  String.ofList ((if i < 0 then ['-'] else []) ++ Decimal.digitChars i.natAbs)

/-- Fourteen digits, with an exponent below `1e-4` and from `1e14` on; whole numbers keep `.0`. -/
def doubleText (x : Double) : String :=
  let sign := if x.negative then "-" else ""
  if x.isNaN then sign ++ "nan"
  else if x.isInfinite then sign ++ "inf"
  else
    let r := (Decimal.rounded 14 x).trimmed
    if r.leading < -4 || 14 ≤ r.leading then sign ++ r.scientificSigned
    else if 0 ≤ r.exponent then sign ++ r.positional ++ ".0"
    else sign ++ r.positional

def text : Numeral → String
  | .integer i => integerText i.toInt
  | .double x => doubleText x

/-! ### Reading -/

def skipSpaces (bs : List UInt8) : List UInt8 := bs.dropWhile isSpace

/-- An optional sign, and whether it is a minus. -/
def readSign : List UInt8 → Bool × List UInt8
  | [] => (false, [])
  | b :: bs => if b == byte '-' then (true, bs) else if b == byte '+' then (false, bs) else (false, b :: bs)

/-- What follows `0x`, if the bytes start so. -/
def afterHexMark? : List UInt8 → Option (List UInt8)
  | z :: x :: bs => if z == byte '0' && (x == byte 'x' || x == byte 'X') then some bs else none
  | _ => none

/-- An exponent mark with its digits; without digits nothing is read. -/
def readExponent (lower upper : UInt8) (bs : List UInt8) : Int × List UInt8 :=
  match bs with
  | [] => (0, [])
  | b :: rest =>
    if b == lower || b == upper then
      let (minus, body) := readSign rest
      let digits := body.takeWhile isDigit
      if digits.isEmpty then (0, bs)
      else ((if minus then -(value 10 digits : Int) else value 10 digits), body.dropWhile isDigit)
    else (0, bs)

/-- Digits with at most one point: all digits, and how many stand behind the point. -/
def readMantissa? (isDigitHere : UInt8 → Bool) (bs : List UInt8) : Option (List UInt8 × Nat × List UInt8) :=
  let whole := bs.takeWhile isDigitHere
  let (fraction, rest) := match bs.dropWhile isDigitHere with
    | [] => ([], [])
    | b :: rest =>
      if b == byte '.' then (rest.takeWhile isDigitHere, rest.dropWhile isDigitHere) else ([], b :: rest)
  if whole.isEmpty && fraction.isEmpty then none else some (whole ++ fraction, fraction.length, rest)

def readInteger? (bs : List UInt8) : Option Int64 :=
  let (minus, body) := readSign (skipSpaces bs)
  let signed (n : Nat) : Int := if minus then -(n : Int) else n
  let ends (rest : List UInt8) : Bool := (skipSpaces rest).isEmpty
  match afterHexMark? body with
  | some hex =>
    let digits := hex.takeWhile isHexDigit
    if digits.isEmpty || !ends (hex.dropWhile isHexDigit) then none
    else some (Int64.ofInt (signed (value 16 digits)))
  | none =>
    let digits := body.takeWhile isDigit
    let i := signed (value 10 digits)
    if digits.isEmpty || !ends (body.dropWhile isDigit) then none
    else if -(2 ^ 63) ≤ i ∧ i < 2 ^ 63 then some (Int64.ofInt i)
    else none

def readDouble? (bs : List UInt8) : Option Double :=
  let (minus, body) := readSign (skipSpaces bs)
  let finish (x : Double) (rest : List UInt8) : Option Double :=
    if (skipSpaces rest).isEmpty then some x else none
  match afterHexMark? body with
  | some hex => do
    let (digits, places, rest) ← readMantissa? isHexDigit hex
    let (exponent, rest) := readExponent (byte 'p') (byte 'P') rest
    finish (.ofBinary minus (value 16 digits) (exponent - 4 * places)) rest
  | none => do
    let (digits, places, rest) ← readMantissa? isDigit body
    let (exponent, rest) := readExponent (byte 'e') (byte 'E') rest
    finish (.ofDecimal minus (value 10 digits) (exponent - places)) rest

/-- The number that the bytes spell, blanks around it aside. -/
def read? (bs : List UInt8) : Option Numeral :=
  match readInteger? bs with
  | some i => some (.integer i)
  | none => (readDouble? bs).map .double

end Numeral

end ScriptHost.Script
