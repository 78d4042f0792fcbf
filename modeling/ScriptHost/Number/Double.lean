/-! Double precision numbers, held by their bits so that every NaN keeps its sign and payload.
A finite double is a whole number of units of `2 ^ -1074`. Sums, products, quotients and
remainders are formed exactly on units and rounded once by `ofQuotient`, to nearest with ties
to even. Comparison goes by `rank`, the signed order of magnitudes. -/

namespace ScriptHost.Number

/-! A power is the one of the core library in every module, also where the power of monoids is in
scope. -/

attribute [instance (high), default_instance 20000] instPowNat

structure Double where
  bits : UInt64
deriving DecidableEq, Inhabited

namespace Double

/-! ### Fields -/

def negative (x : Double) : Bool := decide (2 ^ 63 ≤ x.bits.toNat)

/-- The bits without the sign; they grow with the absolute value. -/
def magnitude (x : Double) : Nat := x.bits.toNat % 2 ^ 63

def exponentField (x : Double) : Nat := x.magnitude / 2 ^ 52

def fractionField (x : Double) : Nat := x.magnitude % 2 ^ 52

/-- The bits of an infinity, sign apart; above them lie the NaNs. -/
def infinityBits : Nat := 2047 * 2 ^ 52

def isNaN (x : Double) : Bool := decide (infinityBits < x.magnitude)

def isInfinite (x : Double) : Bool := x.magnitude == infinityBits

def isFinite (x : Double) : Bool := decide (x.magnitude < infinityBits)

def isZero (x : Double) : Bool := x.magnitude == 0

def significand (x : Double) : Nat :=
  if x.exponentField = 0 then x.fractionField else 2 ^ 52 + x.fractionField

/-- Binary places between the significand's last bit and the least unit. -/
def scale (x : Double) : Nat := x.exponentField - 1

/-- The absolute value of a finite double in units of `2 ^ -1074`. -/
def units (x : Double) : Nat := x.significand * 2 ^ x.scale

def signedUnits (x : Double) : Int := if x.negative then -(x.units : Int) else x.units

/-- How many units make one. -/
def unitsPerOne : Nat := 2 ^ 1074

/-! ### Building -/

def ofMagnitude (negative : Bool) (magnitude : Nat) : Double :=
  ⟨UInt64.ofNat (if negative then 2 ^ 63 + magnitude else magnitude)⟩

def zero : Double := ofMagnitude false 0

def infinity (negative : Bool) : Double := ofMagnitude negative infinityBits

/-- The NaN that an invalid operation yields. -/
def invalid : Double := ofMagnitude true (infinityBits + 2 ^ 51)

/-- A NaN operand with its signalling bit cleared. -/
def quieted (x : Double) : Double := ⟨x.bits ||| UInt64.ofNat (2 ^ 51)⟩

/-- Rounds `num / den` to the nearest integer, an exact half to the even neighbour. -/
def divideToEven (num den : Nat) : Nat :=
  let q := num / den
  let r := num % den
  if den < 2 * r || (2 * r == den && q % 2 == 1) then q + 1 else q

/-- The double nearest to `num / den` units; too large a value is an infinity. Bits and units
agree below `2 ^ 53`, and a carry out of the fraction moves into the exponent by itself. -/
def ofQuotient (negative : Bool) (num den : Nat) : Double :=
  let places := Nat.log2 (num / den) - 52
  let bits := places * 2 ^ 52 + divideToEven num (den * 2 ^ places)
  ofMagnitude negative (min bits infinityBits)

def ofUnits (negative : Bool) (n : Nat) : Double := ofQuotient negative n 1

def ofInt (i : Int) : Double := ofUnits (decide (i < 0)) (i.natAbs * unitsPerOne)

def ofNat (n : Nat) : Double := ofInt n

/-- The double nearest to `digits * 10 ^ exponent`. Exponents far outside the range are settled by their size alone. -/
def ofDecimal (negative : Bool) (digits : Nat) (exponent : Int) : Double :=
  if digits = 0 then ofMagnitude negative 0
  else if 400 < exponent then infinity negative
  else if exponent < -400 - (Nat.log2 digits : Int) then ofMagnitude negative 0
  else ofQuotient negative (digits * 10 ^ exponent.toNat * unitsPerOne) (10 ^ (-exponent).toNat)

/-- The double nearest to `digits * 2 ^ exponent`. -/
def ofBinary (negative : Bool) (digits : Nat) (exponent : Int) : Double :=
  if digits = 0 then ofMagnitude negative 0
  else if 1100 < exponent then infinity negative
  else if exponent < -1200 - (Nat.log2 digits : Int) then ofMagnitude negative 0
  else ofQuotient negative (digits * 2 ^ exponent.toNat * unitsPerOne) (2 ^ (-exponent).toNat)

/-! ### Comparison -/

/-- Position in the numeric order; both zeros have rank 0. -/
def rank (x : Double) : Int := if x.negative then -(x.magnitude : Int) else x.magnitude

/-- Numeric equality: a NaN equals nothing, and the two zeros are equal. -/
def equal (x y : Double) : Bool := !x.isNaN && !y.isNaN && x.rank == y.rank

def less (x y : Double) : Bool := !x.isNaN && !y.isNaN && decide (x.rank < y.rank)

def lessEqual (x y : Double) : Bool := !x.isNaN && !y.isNaN && decide (x.rank ≤ y.rank)

/-! ### Integers -/

/-- The integer that the double is, when it is one. -/
def toInt? (x : Double) : Option Int :=
  if x.isFinite && x.units % unitsPerOne == 0 then some (x.signedUnits / unitsPerOne) else none

/-- The greatest integer at or below a finite double. -/
def floorInt (x : Double) : Int := x.signedUnits.fdiv unitsPerOne

/-- Order of an integer against a double that is no NaN, without rounding either. -/
def compareInt (i : Int) (x : Double) : Ordering :=
  if x.isInfinite then (if x.negative then .gt else .lt)
  else compare (i * unitsPerOne) x.signedUnits

/-! ### Arithmetic -/

def neg (x : Double) : Double := ⟨x.bits ^^^ UInt64.ofNat (2 ^ 63)⟩

/-- The first NaN operand decides; `f` is asked when there is none. -/
def withNaN (x y : Double) (f : Double) : Double :=
  if x.isNaN then x.quieted else if y.isNaN then y.quieted else f

/-- Sum of two doubles that are no NaN. -/
def sum (x y : Double) : Double :=
  if x.isInfinite then (if y.isInfinite && x.negative != y.negative then invalid else x)
  else if y.isInfinite then y
  else
    let total := x.signedUnits + y.signedUnits
    if total = 0 then ofMagnitude (x.negative && y.negative) 0
    else ofUnits (decide (total < 0)) total.natAbs

def add (x y : Double) : Double := withNaN x y (x.sum y)

def sub (x y : Double) : Double := withNaN x y (x.sum y.neg)

def mul (x y : Double) : Double :=
  let negative := x.negative != y.negative
  withNaN x y <|
    if x.isInfinite || y.isInfinite then (if x.isZero || y.isZero then invalid else infinity negative)
    else ofQuotient negative (x.units * y.units) unitsPerOne

def div (x y : Double) : Double :=
  let negative := x.negative != y.negative
  withNaN x y <|
    if x.isInfinite then (if y.isInfinite then invalid else infinity negative)
    else if y.isInfinite then ofMagnitude negative 0
    else if y.isZero then (if x.isZero then invalid else infinity negative)
    else ofQuotient negative (x.units * unitsPerOne) y.units

/-- Remainder of the division truncated to zero; it has the sign of `x` and is exact. -/
def rem (x y : Double) : Double :=
  withNaN x y <|
    if x.isInfinite || y.isZero then invalid
    else if y.isInfinite then x
    else ofUnits x.negative (x.units % y.units)

/-- Remainder with the sign of the divisor, as floor division leaves it. -/
def modulo (x y : Double) : Double :=
  let r := x.rem y
  if r.isNaN || r.isZero || r.negative == y.negative then r else r.add y

def floor (x : Double) : Double :=
  if x.isFinite && x.toInt?.isNone then
    let i := x.floorInt
    if i = 0 then zero else ofInt i
  else x

def floorDiv (x y : Double) : Double := (x.div y).floor

/-- Powers come from the machine; a square is one product. -/
def pow (x y : Double) : Double :=
  if y.equal (ofNat 2) then x.mul x
  else
    let r : Double := ⟨(Float.pow (Float.ofBits x.bits) (Float.ofBits y.bits)).toBits⟩
    if r.isNaN then withNaN x y invalid else r

end Double

end ScriptHost.Number
