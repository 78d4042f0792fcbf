import ScriptHost.Script.Numeral

/-! Values of the script language. Tables, functions, coroutines and failures live in the state and
are held by reference; everything else is the value itself. -/

namespace ScriptHost.Script

open Number

/-! Texts are compared as the core library compares bytes. -/

attribute [instance (high)] ByteArray.instDecidableEq

abbrev TableRef := Nat
abbrev FunctionRef := Nat
abbrev ThreadRef := Nat
abbrev FailureRef := Nat

inductive Value where
  | nil
  | boolean (b : Bool)
  | number (n : Numeral)
  | text (bytes : ByteArray)
  | table (ref : TableRef)
  | function (ref : FunctionRef)
  | thread (ref : ThreadRef)
  /-- An address handed out by the host. -/
  | pointer (address : UInt64)
  /-- The error object of a host function that failed. -/
  | failure (ref : FailureRef)
deriving DecidableEq, Inhabited

namespace Value

def ofInt (i : Int) : Value := .number (.integer (Int64.ofInt i))

def ofNat (n : Nat) : Value := ofInt n

def ofString (s : String) : Value := .text s.toUTF8

/-- The name that scripts see as the type of a value. -/
def typeName : Value → String
  | .nil => "nil"
  | .boolean _ => "boolean"
  | .number _ => "number"
  | .text _ => "string"
  | .table _ => "table"
  | .function _ => "function"
  | .thread _ => "thread"
  | .pointer _ | .failure _ => "userdata"

/-- The name that the host uses; it tells integers from other numbers. -/
def description : Value → String
  | .nil => "nil"
  | .boolean _ => "boolean"
  | .number (.integer _) => "integer"
  | .number (.double _) => "number"
  | .text _ => "string"
  | .table _ => "table"
  | .function _ => "function"
  | .thread _ => "thread"
  | .pointer _ => "lightuserdata"
  | .failure _ => "error"

/-- All values but nil and false count as true. -/
def truthy : Value → Bool
  | .nil | .boolean false => false
  | _ => true

/-- The bytes of a string, and of a number written out. -/
def text? : Value → Option ByteArray
  | .text b => some b
  | .number n => some n.text.toUTF8
  | _ => none

/-- The number a value denotes; strings denote the numeral they spell. -/
def numeral? : Value → Option Numeral
  | .number n => some n
  | .text b => Numeral.read? b.toList
  | _ => none

end Value

namespace Numeral

/-- The integer of the 64-bit range that a numeral equals, if any. -/
def toInteger? : Numeral → Option Int64
  | .integer i => some i
  | .double x => x.toInt?.bind fun i =>
    if -(2 ^ 63) ≤ i ∧ i < 2 ^ 63 then some (Int64.ofInt i) else none

/-- Numbers compare by value, integers and doubles alike and without rounding. -/
def equal : Numeral → Numeral → Bool
  | .integer i, .integer j => i == j
  | .double x, .double y => x.equal y
  | .integer i, .double x | .double x, .integer i => !x.isNaN && Double.compareInt i.toInt x == .eq

def less : Numeral → Numeral → Bool
  | .integer i, .integer j => decide (i < j)
  | .double x, .double y => x.less y
  | .integer i, .double x => !x.isNaN && Double.compareInt i.toInt x == .lt
  | .double x, .integer i => !x.isNaN && Double.compareInt i.toInt x == .gt

def lessEqual : Numeral → Numeral → Bool
  | .integer i, .integer j => decide (i ≤ j)
  | .double x, .double y => x.lessEqual y
  | .integer i, .double x => !x.isNaN && Double.compareInt i.toInt x != .gt
  | .double x, .integer i => !x.isNaN && Double.compareInt i.toInt x != .lt

/-- The spelling under which a table holds a number: integral doubles become integers. -/
def asKey (n : Numeral) : Numeral :=
  match n.toInteger? with
  | some i => .integer i
  | none => n

end Numeral

namespace Value

/-- Equality without metamethods. -/
def rawEqual : Value → Value → Bool
  | .number m, .number n => m.equal n
  | a, b => a == b

def asKey : Value → Value
  | .number n => .number n.asKey
  | v => v

/-- Why a value cannot be a key, if it cannot. -/
inductive BadKey where
  | nil
  | notANumber
deriving DecidableEq

def badKey? : Value → Option BadKey
  | .nil => some .nil
  | .number (.double x) => if x.isNaN then some .notANumber else none
  | _ => none

def BadKey.message : BadKey → String
  | .nil => "table index is nil"
  | .notANumber => "table index is NaN"

end Value

end ScriptHost.Script
