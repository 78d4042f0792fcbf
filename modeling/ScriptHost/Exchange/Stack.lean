import ScriptHost.Exchange.Basic
import ScriptHost.Host.Spelling

/-! The evaluation stack: pushing, popping and looking at values, tables and globals by way of the
stack, and protected calls. Taking more than there is is a fault. -/

namespace ScriptHost.Exchange

open Script (Value State Eval Call Site FunctionRef)
open Host (Error Fault Kind)
open Number

/-! ### Looking -/

def depth : Exchange Nat := return (← stack).length

def peek : Exchange (Option Value) := return (← stack).head?

/-- The kind of the top value; none for an empty stack and for values the host cannot store. -/
def topKind : Exchange (Option Kind) := return (← stack).head?.bind Kind.of?

def describe : Option Value → String
  | none => "nothing"
  | some v => v.description

def isAbsent : Option Value → Bool
  | none | some .nil => true
  | some _ => false

/-- Strings read as the number they spell. -/
def toNumber? : Value → Option Double
  | .number n => some n.toDouble
  | .text b => (Script.Numeral.read? b.toList).map (·.toDouble)
  | _ => none

/-- Numbers read as their text; strings must be UTF-8. -/
def toText? : Value → Option String
  | .text b => String.fromUTF8? b
  | .number n => some n.text
  | _ => none

/-- An empty stack counts as false. -/
def toBoolean : Option Value → Bool
  | none => false
  | some v => v.truthy

def toPointer? : Value → Option UInt64
  | .pointer p => some p
  | _ => none

/-- The host function that a script function stands for. -/
def toHostFunction? (s : State) : Value → Option HostFunction
  | .function r => s.hostFunction? r
  | _ => none

/-! ### Pushing and popping -/

def push (v : Value) : Exchange Unit := do setStack (v :: (← stack))

def pop (n : Nat) : Exchange Unit := do
  let vs ← stack
  if n ≤ vs.length then setStack (vs.drop n) else stop (.popTooMany n vs.length)

def popValue : Exchange Value := do
  match ← stack with
  | [] => stop .emptyStack
  | v :: vs =>
    setStack vs
    pure v

/-- The top `n` values, the deepest first, taken off the stack. -/
def takeTop (n : Nat) : Exchange (List Value) := do
  let vs ← stack
  setStack (vs.drop n)
  pure (vs.take n).reverse

def pushNumber (x : Double) : Exchange Unit := push (.number (.double x))

def pushInteger (i : Int64) : Exchange Unit := push (.number (.integer i))

def pushText (s : String) : Exchange Unit := push (.ofString s)

/-- Each host function has one script function per state. -/
def pushFunction (f : HostFunction) : Exchange Unit := do
  let r ← act (·.wrap f)
  push (.function r)

/-! ### Tables -/

def newTable : Exchange Unit := do
  let r ← act (·.newTable {})
  push (.table r)

/-- Storing and reading go past the handlers where a table has no metatable. -/
def storeIn (r : Script.TableRef) (k v : Value) : Exchange Unit := do
  match (← state).metatable? r with
  | none => primitive fun _ _ => Script.Operators.rawStore Site.host r k v
  | some _ => primitive fun call site => Script.Operators.store call site none (.table r) k v

def readFrom (r : Script.TableRef) (k : Value) : Exchange Value := do
  let s ← state
  match s.metatable? r with
  | none => receive (s.rawGet r k)
  | some _ =>
    let v ← primitive fun call site => Script.Operators.index call site none (.table r) k
    receive v

/-- With a table, a key and a value on the stack, stores the value under the key and leaves the
table. -/
def setTable : Exchange Unit := do
  if (← depth) < 3 then stop .storeNeedsThree
  else
    let v ← popValue
    let k ← popValue
    match ← peek with
    | some (.table r) => storeIn r k v
    | other => stop (.storeTarget (describe other))

def receivePairs : List (Value × Value) → Exchange (List (Value × Value))
  | [] => pure []
  | (k, v) :: rest => do
    let k ← receive k
    let v ← receive v
    let rest ← receivePairs rest
    pure ((k, v) :: rest)

/-- The entries of a table, in the order of iteration; handlers are not asked. -/
def entriesOf (r : Script.TableRef) : Exchange (List (Value × Value)) := do
  receivePairs ((← state).table r).pairs

def tableEntries : Exchange (List (Value × Value)) := do
  match ← peek with
  | some (.table r) => entriesOf r
  | other => stop (.notATable (describe other))

/-! ### Globals -/

/-- Pushes nil for a global that is not set. -/
def pushGlobal (name : String) : Exchange Unit := do
  let v ← readFrom (← state).globals (.ofString name)
  push v

def popIntoGlobal (name : String) : Exchange Unit := do
  let v ← popValue
  storeIn (← state).globals (.ofString name) v

/-! ### Protected calls -/

/-- Calls the function under the top `args` values. On success exactly `results` values take their
place, cut short or filled up with nil; on failure nothing does, and the message is returned. -/
def protectedCall (args results : Nat) : Exchange (Except String Unit) := do
  let d ← depth
  if args < d then
    let vs ← takeTop args
    let callee ← popValue
    let outcome ← match callee with
      | .function r => attempt fun call site => call r vs (site.callSite none)
      | other => pure (.error ("attempt to call a " ++ other.description ++ " value"))
    match outcome with
    | .ok all =>
      let all ← receiveAll all
      let kept := (all ++ List.replicate results Value.nil).take results
      setStack (kept.reverse ++ (← stack))
      pure (.ok ())
    | .error message =>
      emit .stack .debug ("Protected call failed: " ++ message)
      pure (.error message)
  else stop (.callNeedsCallee args d)

end ScriptHost.Exchange
