import ScriptHost.Script.Operators

/-! The functions that every script finds among its globals. -/

namespace ScriptHost.Script

open Number

namespace Builtin

/-- The name under which a script finds a function. -/
def name : Builtin → String
  | .assert => "assert"
  | .error => "error"
  | .getMetatable => "getmetatable"
  | .ipairs => "ipairs"
  | .ipairsStep => "ipairs_aux"
  | .next => "next"
  | .pairs => "pairs"
  | .pcall => "pcall"
  | .print => "print"
  | .rawEqual => "rawequal"
  | .rawGet => "rawget"
  | .rawLength => "rawlen"
  | .rawSet => "rawset"
  | .select => "select"
  | .setMetatable => "setmetatable"
  | .toNumber => "tonumber"
  | .toString => "tostring"
  | .type => "type"
  | .xpcall => "xpcall"
  | .coroutineCreate => "create"

def all : List Builtin :=
  [.assert, .error, .getMetatable, .ipairs, .ipairsStep, .next, .pairs, .pcall, .print, .rawEqual,
   .rawGet, .rawLength, .rawSet, .select, .setMetatable, .toNumber, .toString, .type, .xpcall,
   .coroutineCreate]

/-- The builtins are the first functions of every state, in this order. -/
def ref (b : Builtin) : FunctionRef := all.idxOf b

end Builtin

namespace Builtins

/-- A running builtin: itself, its arguments and its caller. -/
structure Frame where
  self : Builtin
  args : List Value
  caller : CallSite

namespace Frame

/-- An error of the builtin is placed where it was called. -/
def fail {α : Type} (f : Frame) (message : ByteArray) : Eval α :=
  Eval.raise (.text (f.caller.placeText 1 ++ message))

/-- Where the builtin itself stands when it calls on. -/
def site (f : Frame) : Site := ⟨none, f.caller.callers⟩

/-- A complaint about the argument at a position, counted from 1. Methods do not count the object
they are called on. -/
def badArgument {α : Type} (f : Frame) (position : Nat) (complaint : String) : Eval α :=
  let called := match f.caller.naming with
    | some n => n.name
    | none => f.self.name.toUTF8
  let isMethod := match f.caller.naming with
    | some n => n.kind == "method"
    | none => false
  if isMethod && position == 1 then
    f.fail ("calling '".toUTF8 ++ called ++ ("' on bad self (" ++ complaint ++ ")").toUTF8)
  else
    let shown := if isMethod then position - 1 else position
    f.fail (("bad argument #" ++ toString shown ++ " to '").toUTF8 ++ called
      ++ ("' (" ++ complaint ++ ")").toUTF8)

def argument? (f : Frame) (position : Nat) : Option Value := f.args[position - 1]?

/-- A missing argument reads as nil. -/
def argument (f : Frame) (position : Nat) : Value := (f.argument? position).getD .nil

def describe (f : Frame) (position : Nat) : String :=
  match f.argument? position with
  | none => "no value"
  | some (.pointer _) => "light userdata"
  | some v => v.typeName

def wrongType {α : Type} (f : Frame) (position : Nat) (wanted : String) : Eval α :=
  f.badArgument position (wanted ++ " expected, got " ++ f.describe position)

/-- The argument must be there, whatever it is. -/
def any (f : Frame) (position : Nat) : Eval Value :=
  match f.argument? position with
  | some v => pure v
  | none => f.badArgument position "value expected"

def table (f : Frame) (position : Nat) : Eval TableRef :=
  match f.argument position with
  | .table r => pure r
  | _ => f.wrongType position "table"

def integer (f : Frame) (position : Nat) : Eval Int64 :=
  match (f.argument position).numeral? with
  | some n =>
    match n.toInteger? with
    | some i => pure i
    | none => f.badArgument position "number has no integer representation"
  | none => f.wrongType position "number"

def integerOr (f : Frame) (position : Nat) (default : Int64) : Eval Int64 :=
  match f.argument position with
  | .nil => pure default
  | _ => f.integer position

end Frame

/-- The value a metatable hides it behind, or the metatable itself. -/
def visibleMetatable (s : State) (v : Value) : Value :=
  match v with
  | .table r =>
    match s.metatable? r with
    | none => .nil
    | some m =>
      match s.rawGet m (.ofString "__metatable") with
      | .nil => .table m
      | hidden => hidden
  | _ => .nil

/-- Digits of a base up to 36, in either case. -/
def digit36? (b : UInt8) : Option Nat :=
  if Ascii.isDigit b then some (b.toNat - 48)
  else if 97 ≤ b && b ≤ 122 then some (b.toNat - 87)
  else if 65 ≤ b && b ≤ 90 then some (b.toNat - 55)
  else none

/-- An integer in the given base, blanks around it aside; it wraps at 64 bits. -/
def readInBase? (base : Nat) (bs : List UInt8) : Option Int64 :=
  let (minus, body) := match Numeral.skipSpaces bs with
    | 45 :: rest => (true, rest)
    | rest => (false, rest)
  let isDigitHere (b : UInt8) : Bool := (digit36? b).any (· < base)
  let digits := body.takeWhile isDigitHere
  if digits.isEmpty || !(Numeral.skipSpaces (body.drop digits.length)).isEmpty then none
  else
    let n : Int := digits.foldl (fun n b => n * base + (digit36? b).getD 0) 0
    some (Int64.ofInt (if minus then -n else n))

def toNumber (f : Frame) : Eval Value := do
  match f.argument 2 with
  | .nil =>
    match f.argument 1 with
    | .number n => pure (.number n)
    | .text b => pure ((Numeral.read? b.toList).elim .nil .number)
    | _ =>
      let _ ← f.any 1
      pure .nil
  | _ =>
    let base ← f.integer 2
    match f.argument 1 with
    | .text b =>
      if 2 ≤ base.toInt ∧ base.toInt ≤ 36 then
        pure ((readInBase? base.toInt.toNat b.toList).elim .nil fun i => .number (.integer i))
      else f.badArgument 2 "base out of range"
    | _ => f.wrongType 1 "string"

def select (f : Frame) : Eval (List Value) := do
  match f.argument 1 with
  | .text b =>
    if b.toList.head? = some 35 then return [.ofNat (f.args.length - 1)]
  | _ => pure ()
  let n := (← f.integer 1).toInt
  let count : Int := f.args.length
  if n < 0 then
    if count + n < 1 then f.badArgument 1 "index out of range"
    else pure (f.args.drop (count + n).toNat)
  else if n = 0 then f.badArgument 1 "index out of range"
  else pure (f.args.drop n.toNat)

def raiseError (f : Frame) : Eval (List Value) := do
  let level ← f.integerOr 2 1
  match f.argument 1 with
  | .text b =>
    if 0 < level.toInt then Eval.raise (.text (f.caller.placeText level.toInt.toNat ++ b))
    else Eval.raise (.text b)
  | v => Eval.raise v

def setMetatable (f : Frame) : Eval (List Value) := do
  let r ← f.table 1
  let target : Option (Option TableRef) := match f.argument? 2 with
    | some .nil => some none
    | some (.table m) => some (some m)
    | _ => none
  match target with
  | none => f.wrongType 2 "nil or table"
  | some m =>
    match (Value.table r).handler (← Eval.get) "__metatable" with
    | .nil =>
      Eval.modify (·.setMetatable r m)
      pure [.table r]
    | _ => f.fail "cannot change a protected metatable".toUTF8

/-- How often a handler may fail on its own errors. -/
def handlerLimit : Nat := 216

/-- What a handler makes of an error. One that fails is called again, on the new error. -/
def handled (call : Call) (site : Site) (handler : FunctionRef) : Nat → Value → Eval Value
  | 0, _ => pure (.ofString "error in error handling")
  | n + 1, e => do
    match ← Eval.attempt (call handler [e] (site.callSite none)) with
    | .ok results => pure (Value.first results)
    | .error e => handled call site handler n e

/-- Runs a builtin. Code that it calls sees a caller without a place. -/
def run (call : Call) (f : Frame) : Eval (List Value) := do
  match f.self with
  | .assert =>
    let v ← f.any 1
    if v.truthy then pure f.args
    else
      match f.argument? 2 with
      | some message => Eval.raise message
      | none => f.fail "assertion failed!".toUTF8
  | .error => raiseError f
  | .getMetatable =>
    let v ← f.any 1
    pure [visibleMetatable (← Eval.get) v]
  | .ipairs =>
    let v ← f.any 1
    pure [.function (Builtin.ref .ipairsStep), v, .ofInt 0]
  | .ipairsStep =>
    let i ← f.integer 2
    let next := Value.number (.integer (i + 1))
    match ← Operators.index call f.site none (f.argument 1) next with
    | .nil => pure [.nil]
    | v => pure [next, v]
  | .next =>
    let r ← f.table 1
    match ((← Eval.get).table r).next? (f.argument 2) with
    | some (some (k, v)) => pure [k, v]
    | some none => pure [.nil]
    | none => f.fail "invalid key to 'next'".toUTF8
  | .pairs =>
    let v ← f.any 1
    match v.handler (← Eval.get) "__pairs" with
    | .nil =>
      pure [.function (Builtin.ref .next), v, .nil]
    | h =>
      let results ← Operators.invoke call f.site none h [v]
      pure ((results ++ List.replicate 3 Value.nil).take 3)
  | .pcall =>
    let v ← f.any 1
    match ← Eval.attempt (Operators.invoke call f.site none v (f.args.drop 1)) with
    | .ok results => pure (.boolean true :: results)
    | .error e => pure [.boolean false, e]
  | .xpcall =>
    match f.argument 2 with
    | .function handler =>
      match ← Eval.attempt (Operators.invoke call f.site none (f.argument 1) (f.args.drop 2)) with
      | .ok results => pure (.boolean true :: results)
      | .error e =>
        let v ← handled call f.site handler handlerLimit e
        pure [.boolean false, v]
    | _ => f.wrongType 2 "function"
  | .print =>
    let _ ← f.args.mapM (Operators.toText call f.site)
    pure []
  | .rawEqual =>
    let a ← f.any 1
    let b ← f.any 2
    pure [.boolean (a.rawEqual b)]
  | .rawGet =>
    let r ← f.table 1
    let k ← f.any 2
    pure [(← Eval.get).rawGet r k]
  | .rawLength =>
    match f.argument 1 with
    | .table r => pure [.ofNat ((← Eval.get).table r).length]
    | .text b => pure [.ofNat b.size]
    | _ => f.wrongType 1 "table or string"
  | .rawSet =>
    let r ← f.table 1
    let k ← f.any 2
    let v ← f.any 3
    Operators.rawStore Site.host r k v
    pure [.table r]
  | .select => select f
  | .setMetatable => setMetatable f
  | .toNumber => List.singleton <$> toNumber f
  | .toString =>
    let v ← f.any 1
    List.singleton <$> Value.text <$> Operators.toText call f.site v
  | .type =>
    let v ← f.any 1
    pure [.ofString v.typeName]
  | .coroutineCreate =>
    match f.argument 1 with
    | .function _ => List.singleton <$> Value.thread <$> Eval.act State.newThread
    | _ => f.wrongType 1 "function"

end Builtins

namespace State

/-- A table with a function for each of some builtins. -/
def builtinEntries (bs : List Builtin) : List (Value × Value) :=
  bs.map fun b => (.ofString b.name, .function b.ref)

/-- A state in which no script has run. Table 0 holds the globals and table 1 the coroutine
functions. -/
def fresh : State :=
  let inside (b : Builtin) : Bool := b == .ipairsStep || b == .coroutineCreate
  let globals : List (Value × Value) :=
    builtinEntries (Builtin.all.filter fun b => !inside b)
      ++ [(.ofString "coroutine", .table 1), (.ofString "_VERSION", .ofString "Lua 5.4"),
          (.ofString "_G", .table 0)]
  { tables := #[{ entries := globals }, { entries := builtinEntries [.coroutineCreate] }]
    functions := (Builtin.all.map Function.builtin).toArray
    globals := 0 }

end State

end ScriptHost.Script
