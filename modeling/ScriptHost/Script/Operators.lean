import ScriptHost.Script.State

/-! The operations of the language on values: indexing, storing, arithmetic, comparison, length and
concatenation, with the metamethods that tables bring along. Each is written over a way to call
functions and a site, the place that its errors name. -/

namespace ScriptHost.Script

open Number

/-- A place in running code and the places of its callers. -/
structure Site where
  here : Option Position := none
  callers : List (Option Position) := []

namespace Position

/-- The start of a message about this place. -/
def text (p : Position) : ByteArray := p.source ++ (":" ++ toString p.line ++ ": ").toUTF8

end Position

namespace CallSite

/-- The place `level` callers up, as a message names it; empty where no chunk runs. -/
def placeText (c : CallSite) (level : Nat) : ByteArray :=
  match c.callers[level - 1]? with
  | some (some p) => p.text
  | _ => ByteArray.empty

end CallSite

namespace Naming

def text : Option Naming → ByteArray
  | none => ByteArray.empty
  | some n => (" (" ++ n.kind ++ " '").toUTF8 ++ n.name ++ "')".toUTF8

end Naming

namespace Site

/-- The code of the host, with nothing of the script below it. -/
def host : Site := {}

def callSite (s : Site) (naming : Option Naming := none) : CallSite := ⟨s.here :: s.callers, naming⟩

def failBytes {α : Type} (s : Site) (message : ByteArray) : Eval α :=
  Eval.raise (.text (match s.here with
    | some p => p.text ++ message
    | none => message))

def fail {α : Type} (s : Site) (message : String) : Eval α := s.failBytes message.toUTF8

/-- An operation met a value of a type that it is not for. -/
def typeError {α : Type} (s : Site) (operation : String) (v : Value) (naming : Option Naming) : Eval α :=
  s.failBytes (("attempt to " ++ operation ++ " a " ++ v.typeName ++ " value").toUTF8 ++ Naming.text naming)

end Site

namespace Value

def first : List Value → Value
  | [] => .nil
  | v :: _ => v

/-- The handler that a table's metatable has for an event. -/
def handler (s : State) (event : String) : Value → Value
  | .table r =>
    match s.metatable? r with
    | some m => s.rawGet m (.ofString event)
    | none => .nil
  | _ => .nil

end Value

namespace Operators

/-! ### Calls -/

/-- Tables with a `__call` handler pass themselves on as its first argument. -/
def apply (call : Call) (site : Site) (naming : Option Naming) : Nat → Value → List Value → Eval (List Value)
  | _, .function r, args => call r args (site.callSite naming)
  | 0, f, _ => site.typeError "call" f naming
  | n + 1, f, args => do
    match f.handler (← Eval.get) "__call" with
    | .nil => site.typeError "call" f naming
    | h => apply call site naming n h (f :: args)

def callLimit : Nat := 200

def invoke (call : Call) (site : Site) (naming : Option Naming) (f : Value) (args : List Value) :
    Eval (List Value) :=
  apply call site naming callLimit f args

def invoke1 (call : Call) (site : Site) (f : Value) (args : List Value) : Eval Value :=
  Value.first <$> invoke call site none f args

/-! ### Tables -/

/-- How many handlers may stand one behind another. -/
def chainLimit : Nat := 2000

def indexFrom (call : Call) (site : Site) : Nat → Option Naming → Value → Value → Eval Value
  | 0, _, _, _ => site.fail "'__index' chain too long; possibly a loop"
  | n + 1, _, .table r, k => do
    let s ← Eval.get
    match s.rawGet r k with
    | .nil =>
      match (Value.table r).handler s "__index" with
      | .nil => pure .nil
      | .function f => Value.first <$> call f [.table r, k] (site.callSite (some ⟨"metamethod", "index".toUTF8⟩))
      | h => indexFrom call site n none h k
    | v => pure v
  | _ + 1, _, .text _, _ => pure .nil
  | _ + 1, naming, v, _ => site.typeError "index" v naming

def index (call : Call) (site : Site) (naming : Option Naming) (object key : Value) : Eval Value :=
  indexFrom call site chainLimit naming object key

/-- Storing without handlers. -/
def rawStore (site : Site) (r : TableRef) (k v : Value) : Eval Unit :=
  match k.badKey? with
  | some bad => site.fail bad.message
  | none => Eval.modify (·.rawSet r k v)

def storeFrom (call : Call) (site : Site) : Nat → Option Naming → Value → Value → Value → Eval Unit
  | 0, _, _, _, _ => site.fail "'__newindex' chain too long; possibly a loop"
  | n + 1, _, .table r, k, v => do
    let s ← Eval.get
    match s.rawGet r k, (Value.table r).handler s "__newindex" with
    | .nil, .function f =>
      let _ ← call f [.table r, k, v] (site.callSite (some ⟨"metamethod", "newindex".toUTF8⟩))
    | .nil, .nil => rawStore site r k v
    | .nil, h => storeFrom call site n none h k v
    | _, _ => rawStore site r k v
  | _ + 1, naming, o, _, _ => site.typeError "index" o naming

def store (call : Call) (site : Site) (naming : Option Naming) (object key value : Value) : Eval Unit :=
  storeFrom call site chainLimit naming object key value

/-! ### Arithmetic -/

/-- The event of an operator; a handler for it is found under the name with two underscores. -/
def eventName : Arithmetic → String
  | .add => "add"
  | .sub => "sub"
  | .mul => "mul"
  | .mod => "mod"
  | .pow => "pow"
  | .div => "div"
  | .floorDiv => "idiv"
  | .bitAnd => "band"
  | .bitOr => "bor"
  | .bitXor => "bxor"
  | .shiftLeft => "shl"
  | .shiftRight => "shr"

def isBitwise : Arithmetic → Bool
  | .bitAnd | .bitOr | .bitXor | .shiftLeft | .shiftRight => true
  | _ => false

/-- Shifts fill with zeros; a negative amount shifts the other way. -/
def shiftLeft (a : Int64) (amount : Int) : Int64 :=
  let bits := a.toUInt64.toNat
  let shifted : Nat :=
    if amount ≤ -64 ∨ 64 ≤ amount then 0
    else if 0 ≤ amount then bits * 2 ^ amount.toNat
    else bits / 2 ^ (-amount).toNat
  (UInt64.ofNat shifted).toInt64

inductive ArithmeticFault where
  | divideByZero
  | moduloByZero
  | notAnInteger

def ArithmeticFault.message : ArithmeticFault → String
  | .divideByZero => "attempt to perform 'n//0'"
  | .moduloByZero => "attempt to perform 'n%%0'"
  | .notAnInteger => "number has no integer representation"

/-- Integers stay integers where the operator keeps them whole, and wrap at 64 bits. -/
def arithmeticInt (op : Arithmetic) (a b : Int64) : Except ArithmeticFault Numeral :=
  let whole (i : Int) : Except ArithmeticFault Numeral := .ok (.integer (Int64.ofInt i))
  match op with
  | .add => .ok (.integer (a + b))
  | .sub => .ok (.integer (a - b))
  | .mul => .ok (.integer (a * b))
  | .floorDiv => if b == 0 then .error .divideByZero else whole (a.toInt.fdiv b.toInt)
  | .mod => if b == 0 then .error .moduloByZero else whole (a.toInt.fmod b.toInt)
  | .div => .ok (.double (.div (.ofInt a.toInt) (.ofInt b.toInt)))
  | .pow => .ok (.double (.pow (.ofInt a.toInt) (.ofInt b.toInt)))
  | .bitAnd => .ok (.integer (a &&& b))
  | .bitOr => .ok (.integer (a ||| b))
  | .bitXor => .ok (.integer (a ^^^ b))
  | .shiftLeft => .ok (.integer (shiftLeft a b.toInt))
  | .shiftRight => .ok (.integer (shiftLeft a (-b.toInt)))

def arithmeticDouble (op : Arithmetic) (x y : Double) : Option Double :=
  match op with
  | .add => some (x.add y)
  | .sub => some (x.sub y)
  | .mul => some (x.mul y)
  | .div => some (x.div y)
  | .floorDiv => some (x.floorDiv y)
  | .mod => some (x.modulo y)
  | .pow => some (x.pow y)
  | _ => none

def arithmeticNumeral (op : Arithmetic) (m n : Numeral) : Except ArithmeticFault Numeral :=
  match m, n with
  | .integer a, .integer b => arithmeticInt op a b
  | m, n =>
    match arithmeticDouble op m.toDouble n.toDouble with
    | some x => .ok (.double x)
    | none =>
      match m.toInteger?, n.toInteger? with
      | some a, some b => arithmeticInt op a b
      | _, _ => .error .notAnInteger

/-- Operands that are no numbers: a handler of either one, or else the complaint. Strings handle
every operator that is not bitwise, by way of the numerals they spell. -/
def arithmeticFallback (call : Call) (site : Site) (op : Arithmetic) (a b : Value) (na nb : Option Naming) :
    Eval Value := do
  let s ← Eval.get
  let event := "__" ++ eventName op
  let viaStrings : Eval Value := do
    match a.numeral?, b.numeral? with
    | some m, some n =>
      match arithmeticNumeral op m n with
      | .ok r => pure (.number r)
      | .error fault => Site.host.fail fault.message
    | _, _ =>
      match b.handler s event with
      | .nil =>
        site.fail ("attempt to " ++ eventName op ++ " a '" ++ a.typeName ++ "' with a '" ++ b.typeName ++ "'")
      | h => invoke1 call site h [a, b]
  let isText : Value → Bool
    | .text _ => !isBitwise op
    | _ => false
  match a.handler s event with
  | .nil =>
    if isText a then viaStrings
    else
      match b.handler s event with
      | .nil =>
        if isText b then viaStrings
        else
          let what := if isBitwise op then "perform bitwise operation on" else "perform arithmetic on"
          match a with
          | .number _ => site.typeError what b nb
          | _ => site.typeError what a na
      | h => invoke1 call site h [a, b]
  | h => invoke1 call site h [a, b]

def arithmetic (call : Call) (site : Site) (op : Arithmetic) (a b : Value) (na nb : Option Naming) :
    Eval Value :=
  match a, b with
  | .number m, .number n =>
    match arithmeticNumeral op m n with
    | .ok r => pure (.number r)
    | .error .notAnInteger =>
      let culprit := if m.toInteger?.isSome then nb else na
      site.failBytes ("number".toUTF8 ++ Naming.text culprit ++ " has no integer representation".toUTF8)
    | .error fault => site.fail fault.message
  | a, b => arithmeticFallback call site op a b na nb

def negate (call : Call) (site : Site) (a : Value) (na : Option Naming) : Eval Value := do
  match a with
  | .number (.integer i) => pure (.number (.integer (-i)))
  | .number (.double x) => pure (.number (.double x.neg))
  | a =>
    match a.handler (← Eval.get) "__unm" with
    | .nil =>
      match a with
      | .text _ =>
        match a.numeral? with
        | some (.integer i) => pure (.number (.integer (-i)))
        | some (.double x) => pure (.number (.double x.neg))
        | none => site.fail "attempt to unm a 'string' with a 'string'"
      | _ => site.typeError "perform arithmetic on" a na
    | h => invoke1 call site h [a, a]

def bitNot (call : Call) (site : Site) (a : Value) (na : Option Naming) : Eval Value := do
  match a with
  | .number n =>
    match n.toInteger? with
    | some i => pure (.number (.integer (~~~ i)))
    | none =>
      site.failBytes ("number".toUTF8 ++ Naming.text na ++ " has no integer representation".toUTF8)
  | a =>
    match a.handler (← Eval.get) "__bnot" with
    | .nil => site.typeError "perform bitwise operation on" a na
    | h => invoke1 call site h [a, a]

/-! ### Length and concatenation -/

def length (call : Call) (site : Site) (a : Value) (na : Option Naming) : Eval Value := do
  let s ← Eval.get
  match a with
  | .text b => pure (.ofNat b.size)
  | a =>
    match a.handler s "__len", a with
    | .nil, .table r => pure (.ofNat (s.table r).length)
    | .nil, _ => site.typeError "get length of" a na
    | h, _ => invoke1 call site h [a]

def concat (call : Call) (site : Site) (a b : Value) (na nb : Option Naming) : Eval Value := do
  match a.text?, b.text? with
  | some x, some y => pure (.text (x ++ y))
  | x?, _ =>
    let s ← Eval.get
    match a.handler s "__concat", b.handler s "__concat" with
    | .nil, .nil => if x?.isSome then site.typeError "concatenate" b nb else site.typeError "concatenate" a na
    | .nil, h => invoke1 call site h [a, b]
    | h, _ => invoke1 call site h [a, b]

/-! ### Comparison -/

def equal (call : Call) (site : Site) (a b : Value) : Eval Bool := do
  if a.rawEqual b then pure true
  else
    match a, b with
    | .table _, .table _ =>
      let s ← Eval.get
      match a.handler s "__eq", b.handler s "__eq" with
      | .nil, .nil => pure false
      | .nil, h | h, _ => Value.truthy <$> invoke1 call site h [a, b]
    | _, _ => pure false

/-- Byte by byte; a proper beginning comes first. -/
def bytesLess : List UInt8 → List UInt8 → Bool
  | _, [] => false
  | [], _ :: _ => true
  | a :: as, b :: bs => if a == b then bytesLess as bs else decide (a < b)

/-- The handler has the name `event`; the two functions decide for numbers and for strings. -/
def order (call : Call) (site : Site) (event : String) (numbers : Numeral → Numeral → Bool)
    (texts : List UInt8 → List UInt8 → Bool) (a b : Value) : Eval Bool := do
  match a, b with
  | .number m, .number n => pure (numbers m n)
  | .text x, .text y => pure (texts x.toList y.toList)
  | a, b =>
    let s ← Eval.get
    match a.handler s event, b.handler s event with
    | .nil, .nil =>
      if a.typeName == b.typeName then site.fail ("attempt to compare two " ++ a.typeName ++ " values")
      else site.fail ("attempt to compare " ++ a.typeName ++ " with " ++ b.typeName)
    | .nil, h | h, _ => Value.truthy <$> invoke1 call site h [a, b]

def less (call : Call) (site : Site) (a b : Value) : Eval Bool :=
  order call site "__lt" Numeral.less bytesLess a b

def lessEqual (call : Call) (site : Site) (a b : Value) : Eval Bool :=
  order call site "__le" Numeral.lessEqual (fun x y => !bytesLess y x) a b

/-- The greater-than forms swap their operands. -/
def compare (call : Call) (site : Site) (op : Comparison) (a b : Value) : Eval Value :=
  Value.boolean <$>
    match op with
    | .equal => equal call site a b
    | .notEqual => not <$> equal call site a b
    | .less => less call site a b
    | .lessEqual => lessEqual call site a b
    | .greater => less call site b a
    | .greaterEqual => lessEqual call site b a

def binary (call : Call) (site : Site) (op : BinaryOp) (a b : Value) (na nb : Option Naming) : Eval Value :=
  match op with
  | .arithmetic op => arithmetic call site op a b na nb
  | .compare op => compare call site op a b
  | .concat => concat call site a b na nb

def unary (call : Call) (site : Site) (op : UnaryOp) (a : Value) (na : Option Naming) : Eval Value :=
  match op with
  | .negate => negate call site a na
  | .length => length call site a na
  | .not => pure (.boolean !a.truthy)
  | .bitNot => bitNot call site a na

/-! ### Text -/

def hexText (n : Nat) : String := String.ofList (Nat.toDigits 16 n)

/-- Objects show a number of their own behind their type. -/
def objectText (v : Value) (address : Nat) : String :=
  v.typeName ++ ": " ++ (if address = 0 then "(nil)" else "0x" ++ hexText address)

def failureText : Failure → String
  | .error text => "runtime error: " ++ text
  | .fatal message => message
  | .spent => "previously resumed panic returned again"

/-- The text of a value without handlers. -/
def plainText (s : State) : Value → ByteArray
  | .nil => "nil".toUTF8
  | .boolean b => (if b then "true" else "false").toUTF8
  | .number n => n.text.toUTF8
  | .text b => b
  | .failure r => (failureText (s.failure r)).toUTF8
  | .pointer a => (objectText (.pointer a) a.toNat).toUTF8
  | .table r => (objectText (.table r) (r + 1)).toUTF8
  | .function r => (objectText (.function r) (r + 1)).toUTF8
  | .thread r => (objectText (.thread r) (r + 1)).toUTF8

def toText (call : Call) (site : Site) (v : Value) : Eval ByteArray := do
  let s ← Eval.get
  match v.handler s "__tostring" with
  | .nil => pure (plainText s v)
  | h =>
    match ← invoke1 call site h [v] with
    | .text b => pure b
    | .number n => pure n.text.toUTF8
    | _ => site.fail "'__tostring' must return a string"

end Operators

end ScriptHost.Script
