import ScriptHost.Toml.Value

/-! Values that are written as a single word: truth values, numbers, dates and times. Underscores
may separate digits, one between two digits. -/

namespace ScriptHost.Toml.Scalar

open Number

/-- The characters of such words. -/
def isWordChar (c : Char) : Bool := c.isAlphanum || "+-_.:".toList.contains c

/-! ### Digits -/

def digitValue? (base : Nat) (c : Char) : Option Nat :=
  let v :=
    if c.isDigit then some (c.toNat - '0'.toNat)
    else if 'a' ≤ c && c ≤ 'f' then some (c.toNat - 'a'.toNat + 10)
    else if 'A' ≤ c && c ≤ 'F' then some (c.toNat - 'A'.toNat + 10)
    else none
  v.filter (· < base)

/-- The digit values of a run of digits that starts and ends with one. -/
def digits? (base : Nat) : List Char → Option (List Nat)
  | [] => none
  | [c] => (digitValue? base c).map ([·])
  | c :: '_' :: rest => do
    let d ← digitValue? base c
    let ds ← digits? base rest
    pure (d :: ds)
  | c :: rest => do
    let d ← digitValue? base c
    let ds ← digits? base rest
    pure (d :: ds)

def natOf (base : Nat) (ds : List Nat) : Nat := ds.foldl (fun n d => n * base + d) 0

def natural? (base : Nat) (cs : List Char) : Option Nat := (digits? base cs).map (natOf base)

/-- A decimal run that has no needless zero in front. -/
def plainDigits? (cs : List Char) : Option (List Nat) :=
  match digits? 10 cs with
  | some (0 :: _ :: _) => none
  | r => r

/-- An optional sign, and whether it is a minus. -/
def readSign : List Char → Bool × List Char
  | '-' :: cs => (true, cs)
  | '+' :: cs => (false, cs)
  | cs => (false, cs)

/-! ### Numbers -/

def inRange (i : Int) : Option Value :=
  if -(2 ^ 63) ≤ i && i < 2 ^ 63 then some (.integer i) else none

/-- Integers have 64 bits; those in another base take no sign. -/
def integer? (cs : List Char) : Option Value :=
  match cs with
  | '0' :: 'x' :: ds => natural? 16 ds >>= fun n => inRange n
  | '0' :: 'o' :: ds => natural? 8 ds >>= fun n => inRange n
  | '0' :: 'b' :: ds => natural? 2 ds >>= fun n => inRange n
  | cs =>
    let (negative, ds) := readSign cs
    (plainDigits? ds).bind fun ds =>
      let n : Int := natOf 10 ds
      inRange (if negative then -n else n)

/-- An exponent after its mark. -/
def exponent? (cs : List Char) : Option Int :=
  let (negative, ds) := readSign cs
  (natural? 10 ds).map fun (n : Nat) => if negative then -(n : Int) else n

/-- A number with a point, an exponent, or both. One that is too great is refused, unless it is
negative. -/
def float? (cs : List Char) : Option Value := do
  let (negative, cs) := readSign cs
  if cs == "inf".toList then return .float (.infinity negative)
  else if cs == "nan".toList then return .float (.ofMagnitude negative (Double.infinityBits + 2 ^ 51))
  else
    let isMark (c : Char) : Bool := c == 'e' || c == 'E'
    let mantissa := cs.takeWhile (!isMark ·)
    let exponent ← match cs.dropWhile (!isMark ·) with
      | [] => some 0
      | _ :: es => exponent? es
    let whole ← plainDigits? (mantissa.takeWhile (· != '.'))
    let fraction ← match mantissa.dropWhile (· != '.') with
      | [] => some []
      | _ :: fs => digits? 10 fs
    let x := Double.ofDecimal negative (natOf 10 (whole ++ fraction)) (exponent - fraction.length)
    if mantissa = cs && !cs.contains '.' || x == .infinity false then none else some (.float x)

/-! ### Dates and times -/

/-- A number of exactly `n` digits within bounds, and what follows it. -/
def field? (n lo hi : Nat) (cs : List Char) : Option (Nat × List Char) := do
  let ds := cs.take n
  if ds.length = n && ds.all Char.isDigit then
    let v ← natural? 10 ds
    if lo ≤ v && v ≤ hi then some (v, cs.drop n) else none
  else none

def after? (c : Char) : List Char → Option (List Char)
  | [] => none
  | d :: cs => if c = d then some cs else none

def isLeap (year : Nat) : Bool := year % 4 == 0 && (year % 100 != 0 || year % 400 == 0)

def daysIn (year month : Nat) : Nat :=
  if month = 2 then (if isLeap year then 29 else 28)
  else if month = 4 || month = 6 || month = 9 || month = 11 then 30
  else 31

def date? (cs : List Char) : Option (List Char) := do
  let (year, cs) ← field? 4 0 9999 cs
  let (month, cs) ← after? '-' cs >>= field? 2 1 12
  let (_, cs) ← after? '-' cs >>= field? 2 1 (daysIn year month)
  pure cs

/-- A time of day, in which a minute may have a leap second. -/
def time? (cs : List Char) : Option (List Char) := do
  let (_, cs) ← field? 2 0 23 cs
  let (_, cs) ← after? ':' cs >>= field? 2 0 59
  let (_, cs) ← after? ':' cs >>= field? 2 0 60
  match cs with
  | '.' :: cs =>
    let ds := cs.takeWhile Char.isDigit
    if ds.isEmpty then none else some (cs.drop ds.length)
  | cs => some cs

/-- The distance from universal time, which may be left out. -/
def offset? : List Char → Option (List Char)
  | [] => some []
  | c :: cs =>
    if c == 'Z' || c == 'z' then some cs
    else if c == '+' || c == '-' then do
      let (_, cs) ← field? 2 0 23 cs
      let (_, cs) ← after? ':' cs >>= field? 2 0 59
      pure cs
    else none

def isMoment (cs : List Char) : Bool :=
  let ends (r : Option (List Char)) : Bool := r == some []
  match date? cs with
  | some [] => true
  | some (c :: rest) => (c == 'T' || c == 't' || c == ' ') && ends (time? rest >>= offset?)
  | none => ends (time? cs)

def isDate (cs : List Char) : Bool := date? cs == some []

/-! ### Words -/

def read? (cs : List Char) : Option Value :=
  if cs == "true".toList then some (.boolean true)
  else if cs == "false".toList then some (.boolean false)
  else if isMoment cs then some (.moment (String.ofList cs))
  else integer? cs <|> float? cs

/-- The word at the head of a text. A date goes on over one blank when a digit follows. -/
def splitWord (cs : List Char) : List Char × List Char :=
  let word := cs.takeWhile isWordChar
  match cs.drop word.length with
  | ' ' :: d :: rest =>
    if isDate word && d.isDigit then
      let time := (d :: rest).takeWhile isWordChar
      (word ++ ' ' :: time, (d :: rest).drop time.length)
    else (word, ' ' :: d :: rest)
  | rest => (word, rest)

end ScriptHost.Toml.Scalar
