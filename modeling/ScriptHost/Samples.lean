import ScriptHost.Exchange.Engine
import ScriptHost.Host.Table.Text

/-! A catalog of small host functions. Between them they use every operation open to a host
function: arguments of all kinds, results by count, errors, calls back into the script, globals
and registration. -/

namespace ScriptHost.Samples

open Number Exchange
open Host (Table Value)

def decimal (n : Nat) : String := String.ofList (Decimal.digitChars n)

/-- One number in, one number out. -/
def onNumber (f : Double → Double) : Exchange Nat := do
  match ← args [.number] with
  | [.number x] => returns [.number (f x)]
  | _ => returns []

def ping : Exchange Nat := do
  let _ ← args []
  returns [.boolean true]

def swap : Exchange Nat := do
  match ← args [.number, .text] with
  | [n, s] => returns [s, n]
  | _ => returns []

def concat3 : Exchange Nat := do
  match ← args [.text, .text, .text] with
  | [.text a, .text b, .text c] => returns [.text (a ++ b ++ c)]
  | _ => returns []

def negate : Exchange Nat := do
  match ← args [.boolean] with
  | [.boolean b] => returns [.boolean !b]
  | _ => returns []

def echo (kind : Host.Kind) : Exchange Nat := do returns (← args [kind])

/-- Adds to the number that a table holds as its `value`. -/
def addToValue : Exchange Nat := do
  match ← args [.table, .number] with
  | [.table es, .number amount] =>
    let t ← ofExcept (Table.modifyAs .number ⟨es⟩ "value" fun (x : Double) => x.add amount)
    returns [.ofTable t]
  | _ => returns []

def count : Exchange Nat := do
  pushNumber (.ofNat (← depth))
  pure 1

def nothing : Exchange Nat := do
  push (.boolean true)
  pure 0

def refuseKind : Exchange Nat := do
  fail (.stated .typeMismatch ("cannot take " ++ describe (← peek)))

/-- Calls a host function on a number by way of the script engine. -/
def apply : Exchange Nat := do
  match ← args [.function, .number] with
  | [.function f, .number n] =>
    pushFunction f
    pushNumber n
    match ← protectedCall 1 1 with
    | .ok () => pure 1
    | .error message => fail (.scriptFailed message)
  | _ => returns []

/-- Calls a script function by its name and adds a half to its result. -/
def callback : Exchange Nat := do
  match ← args [.text, .number] with
  | [.text name, n] =>
    match ← runFunction name [n] [.number] with
    | [.number x] => returns [.number (x.add (.div (.ofNat 1) (.ofNat 2)))]
    | _ => returns []
  | _ => returns []

def getNumber : Exchange Nat := do
  match ← args [.text] with
  | [.text name] => returns [← getGlobal name .number]
  | _ => returns []

def putGlobal : Exchange Nat := do
  match ← args [.text, .number] with
  | [.text name, n] =>
    setGlobal name n
    returns []
  | _ => returns []

def installDouble : Exchange Nat := do
  match ← args [.text] with
  | [.text space] =>
    registerFunction space "Double" ⟨"double"⟩
    returns [.text space]
  | _ => returns []

/-- The sum of a sequence of numbers, and the number of entries of its table. -/
def sumSequence : Exchange Nat := do
  match ← args [.table] with
  | [.table es] =>
    let visited := Table.each .number ⟨es⟩
    match visited.fault with
    | some fault => stop fault
    | none =>
      let total := visited.seen.foldl (fun (sum : Double) (_, x) => sum.add x) Double.zero
      returns [.number total, .number (.ofNat es.length)]
  | _ => returns []

def popTwo : Exchange Nat := do
  let b ← popArg .number
  let a ← popArg .number
  match a, b with
  | .number x, .number y => returns [.number (x.sub y)]
  | _, _ => returns []

/-- A listing of eight arguments of all kinds, and the sum of the two numbers among them. -/
def eight : Exchange Nat := do
  match ← args [.number, .text, .boolean, .function, .table, .pointer, .number, .text] with
  | [.number a, .text b, .boolean d, .function e, .table f, .pointer g, .number h, .text i] =>
    let parts := [Host.plainNumber a, b, Host.boolText d, e.name, decimal f.length, decimal g.toNat,
      Host.plainNumber h, i]
    returns [.text ("|".intercalate parts), .number (a.add h)]
  | _ => returns []

def catalog : Catalog := fun f =>
  match f.name with
  | "add_two" => onNumber fun x => x.add (.ofNat 2)
  | "double" => onNumber fun x => x.mul (.ofNat 2)
  | "triple" => onNumber fun x => x.mul (.ofNat 3)
  | "concat3" => concat3
  | "negate" => negate
  | "ping" => ping
  | "swap" => swap
  | "echo_table" => echo .table
  | "echo_opaque" => echo .pointer
  | "add_to_value" => addToValue
  | "count" => count
  | "last_two" => pure 2
  | "all" => depth
  | "nothing" => nothing
  | "too_many" => return (← depth) + 1
  | "refuse" => fail (.stated .engine "refused")
  | "refuse_type" => refuseKind
  | "apply" => apply
  | "callback" => callback
  | "get_number" => getNumber
  | "put_global" => putGlobal
  | "install_double" => installDouble
  | "sum_seq" => sumSequence
  | "pop_two" => popTwo
  | "eight" => eight
  | name => fail (.stated .engine ("no host function named " ++ name))

end ScriptHost.Samples
