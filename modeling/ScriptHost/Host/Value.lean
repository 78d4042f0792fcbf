import ScriptHost.HostFunction
import ScriptHost.Host.Kind

/-! Values in the host's own storage. A table is its entries in the order of their keys' first
insertion. Equality follows the numbers (no NaN equals itself) and disregards the order of keys. -/

namespace ScriptHost.Host

open Number

inductive Value where
  | number (x : Double)
  | text (s : String)
  | boolean (b : Bool)
  | function (f : HostFunction)
  | table (entries : List (String × Value))
  | pointer (address : UInt64)
deriving Inhabited

structure Table where
  entries : List (String × Value) := []
deriving Inhabited

namespace Value

def kind : Value → Kind
  | .number _ => .number
  | .text _ => .text
  | .boolean _ => .boolean
  | .function _ => .function
  | .table _ => .table
  | .pointer _ => .pointer

def ofTable (t : Table) : Value := .table t.entries

/-- The value under a key. -/
def find? (k : String) : List (String × Value) → Option Value
  | [] => none
  | (k', v) :: rest => if k = k' then some v else find? k rest

mutual

def equal : Value → Value → Bool
  | .number x, .number y => x.equal y
  | .text s, .text t => s == t
  | .boolean a, .boolean b => a == b
  | .function f, .function g => f == g
  | .table es, .table fs => es.length == fs.length && within es fs
  | .pointer p, .pointer q => p == q
  | _, _ => false

/-- Whether every entry has an equal one under its key. -/
def within : List (String × Value) → List (String × Value) → Bool
  | [], _ => true
  | (k, v) :: rest, fs =>
    (match find? k fs with
      | some w => equal v w
      | none => false) && within rest fs

end

end Value

namespace Kind

/-- What a value of a kind carries. -/
def Carrier : Kind → Type
  | .number => Double
  | .text => String
  | .boolean => Bool
  | .function => HostFunction
  | .table => Table
  | .pointer => UInt64

def wrap : (k : Kind) → k.Carrier → Value
  | .number, x => .number x
  | .text, s => .text s
  | .boolean, b => .boolean b
  | .function, f => .function f
  | .table, t => .ofTable t
  | .pointer, p => .pointer p

def unwrap? : (k : Kind) → Value → Option k.Carrier
  | .number, .number x => some x
  | .text, .text s => some s
  | .boolean, .boolean b => some b
  | .function, .function f => some f
  | .table, .table es => some ⟨es⟩
  | .pointer, .pointer p => some p
  | _, _ => none

end Kind

end ScriptHost.Host
