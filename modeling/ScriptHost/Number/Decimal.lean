import ScriptHost.Number.Double

/-! Decimal text of doubles. `shortest` takes the fewest digits that read back as the same double;
`rounded` takes a fixed number of significant digits. Both answer a `Decimal`, which `positional`
and `scientific` lay out as text. -/

namespace ScriptHost.Number

/-- The value `digits * 10 ^ exponent`. -/
structure Decimal where
  digits : Nat
  exponent : Int
deriving DecidableEq, Inhabited

namespace Decimal

/-- The decimal digits of a number, most significant first. -/
def digitChars (n : Nat) : List Char := Nat.toDigits 10 n

/-- The same value without trailing zeros in `digits`. Each step drops one, so as many steps as
there are digits are enough. -/
def trimmed (d : Decimal) : Decimal :=
  go (digitChars d.digits).length d
where
  go : Nat → Decimal → Decimal
    | 0, d => d
    | n + 1, d =>
      if d.digits ≠ 0 ∧ d.digits % 10 = 0 then go n ⟨d.digits / 10, d.exponent + 1⟩ else d

/-! ### The interval of a double -/

/-- A finite double other than zero, and the values that round to it, in quarters of a unit. -/
structure Interval where
  value : Nat
  lower : Nat
  upper : Nat
  /-- Whether the ends round to the double too. -/
  closed : Bool

/-- Half the distance to the neighbours lies on either side; just below a power of two the
neighbour is twice as near. -/
def Interval.of (x : Double) : Interval :=
  let step := 2 ^ x.scale
  let below := if x.fractionField = 0 ∧ 1 < x.exponentField then step else 2 * step
  ⟨4 * x.units, 4 * x.units - below, 4 * x.units + 2 * step, x.significand % 2 == 0⟩

def quartersPerOne : Nat := 4 * Double.unitsPerOne

/-- Whether `num / den` ones lie in the interval. -/
def Interval.has (i : Interval) (num den : Nat) : Bool :=
  let v := num * quartersPerOne
  if i.closed then decide (i.lower * den ≤ v) && decide (v ≤ i.upper * den)
  else decide (i.lower * den < v) && decide (v < i.upper * den)

/-- The exponent `k` with `10 ^ k ≤ x < 10 ^ (k + 1)`, for a finite double other than zero. -/
def magnitudeExponent (x : Double) : Int :=
  (digitChars (x.units * 10 ^ 330 / Double.unitsPerOne)).length - 331

/-- The neighbours of a double on the grid of `count` digits are two numbers next to each other;
of those inside the interval the nearer is taken, the greater on a tie. -/
def onGrid? (x : Double) (count : Nat) : Option Decimal :=
  let i := Interval.of x
  let exponent := magnitudeExponent x + 1 - count
  let up := 10 ^ exponent.toNat
  let down := 10 ^ (-exponent).toNat
  -- the grid counts `up / down` ones
  let low := i.value * down / (quartersPerOne * up)
  let twice := 2 * i.value * down
  let nearerHigh := decide ((2 * low + 1) * quartersPerOne * up ≤ twice)
  let hasLow := i.has (low * up) down
  let hasHigh := i.has ((low + 1) * up) down
  if hasHigh && (nearerHigh || !hasLow) then some ⟨low + 1, exponent⟩
  else if hasLow then some ⟨low, exponent⟩
  else none

/-- Every digit of a finite double; a unit is `5 ^ 1074` times `10 ^ -1074`. -/
def exact (x : Double) : Decimal := ⟨x.units * 5 ^ 1074, -1074⟩

/-- The fewest digits whose nearest double is `x`. -/
def shortest (x : Double) : Decimal :=
  if x.isZero then ⟨0, 0⟩
  else (((List.range 17).findSome? fun n => onGrid? x (n + 1)).getD (exact x)).trimmed

/-- Takes `count` significant digits, the discarded part rounded to nearest with ties to even. The
number of digits stays `count` even when rounding carries over. -/
def rounded (count : Nat) (x : Double) : Decimal :=
  if x.isZero then ⟨0, 0⟩
  else
    let exponent := magnitudeExponent x + 1 - count
    let digits := Double.divideToEven (x.units * 10 ^ (-exponent).toNat)
      (Double.unitsPerOne * 10 ^ exponent.toNat)
    if digits = 10 ^ count then ⟨digits / 10, exponent + 1⟩ else ⟨digits, exponent⟩

/-! ### Layouts -/

/-- The exponent of the first digit. -/
def leading (d : Decimal) : Int := d.exponent + (digitChars d.digits).length - 1

/-- Digits with a point where it falls and no exponent; a whole number has no point. -/
def positional (d : Decimal) : String :=
  let cs := digitChars d.digits
  if 0 ≤ d.exponent then String.ofList (cs ++ List.replicate d.exponent.toNat '0')
  else
    let places := (-d.exponent).toNat
    if places < cs.length then
      String.ofList (cs.take (cs.length - places) ++ '.' :: cs.drop (cs.length - places))
    else String.ofList ('0' :: '.' :: List.replicate (places - cs.length) '0' ++ cs)

/-- One digit, the others after a point; the exponent is left to the caller. -/
def mantissa (d : Decimal) : String :=
  match digitChars d.digits with
  | [] => ""
  | [c] => String.singleton c
  | c :: cs => String.ofList (c :: '.' :: cs)

/-- A mantissa, the letter `e` and the exponent as an integer. -/
def scientific (d : Decimal) : String := d.mantissa ++ "e" ++ toString d.leading

/-- As `scientific`, the exponent signed and of two digits at least. -/
def scientificSigned (d : Decimal) : String :=
  let e := digitChars d.leading.natAbs
  let pad := List.replicate (2 - e.length) '0'
  d.mantissa ++ (if d.leading < 0 then "e-" else "e+") ++ String.ofList (pad ++ e)

end Decimal

end ScriptHost.Number
