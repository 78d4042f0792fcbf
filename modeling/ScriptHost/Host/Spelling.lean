import ScriptHost.Script.Value
import ScriptHost.Text.Quoted

/-! How the host spells numbers, addresses and keys. Host keys are text; a script key that is a
number becomes its spelling, and a host key that spells a positive integer becomes that integer. -/

namespace ScriptHost.Host

open Number Text.Quoted

/-! ### Numbers and addresses -/

/-- The fewest digits that read back, never with an exponent. -/
def plainNumber (x : Double) : String :=
  if x.isNaN then "NaN"
  else
    let sign := if x.negative then "-" else ""
    if x.isInfinite then sign ++ "inf" else sign ++ (Decimal.shortest x).positional

/-- As `plainNumber`, but whole numbers have a `.0`, and below `1e-4` and from `1e16` on the number
has an exponent. -/
def markedNumber (x : Double) : String :=
  if x.isNaN then "NaN"
  else
    let sign := if x.negative then "-" else ""
    if x.isInfinite then sign ++ "inf"
    else
      let d := Decimal.shortest x
      if x.isZero then sign ++ "0.0"
      else if d.leading < -4 || 16 ≤ d.leading then sign ++ d.scientific
      else if 0 ≤ d.exponent then sign ++ d.positional ++ ".0"
      else sign ++ d.positional

def boolText (b : Bool) : String := if b then "true" else "false"

def addressText (p : UInt64) : String := "0x" ++ hex p.toNat

/-! ### Keys -/

/-- The host key for a script key. Integral numbers of the 64-bit range are spelled as integers,
other numbers plainly; strings must be UTF-8. Other values have no spelling. -/
def keySpelling? : Script.Value → Option String
  | .text b => String.fromUTF8? b
  | .number n =>
    match n.asKey with
    | .integer i => some (Script.Numeral.integerText i.toInt)
    | .double x => some (plainNumber x)
  | _ => none

/-- The integer that a key spells in the usual way: digits alone, no zero in front, at most the
greatest 64-bit integer. -/
def sequenceIndex? (key : String) : Option Int64 :=
  match key.toList with
  | [] => none
  | c :: cs =>
    if c != '0' && (c :: cs).all Char.isDigit then
      let n : Nat := (c :: cs).foldl (fun n d => 10 * n + (d.toNat - 48)) 0
      if n < 2 ^ 63 then some (Int64.ofInt n) else none
    else none

/-- The script key for a host key. -/
def scriptKey (key : String) : Script.Value :=
  match sequenceIndex? key with
  | some i => .number (.integer i)
  | none => .ofString key

end ScriptHost.Host
