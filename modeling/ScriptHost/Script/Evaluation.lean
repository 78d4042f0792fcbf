import ScriptHost.Script.Builtins

/-! Evaluation of chunks. Expressions and statements are evaluated by recursion on the tree, over a
given way to call functions; `callAt` ties the knot, one level of depth for each nested call. What
calling a host function means is a parameter, `HostCall`. -/

namespace ScriptHost.Script

open Number

/-- The fixed surroundings of running code: its chunk, how many functions deep it lies, the extra
arguments of its function, and the places of its callers. -/
structure Activation where
  source : ByteArray
  depth : Nat
  rest : List Value
  callers : List (Option Position)

/-- How a statement ends. -/
inductive Exit where
  | next (scope : Scope)
  | broke
  | returned (values : List Value)

namespace Activation

def site (a : Activation) (line : Nat) : Site := ⟨some ⟨a.source, line⟩, a.callers⟩

/-- What messages call the value of an expression. Parentheses are not seen. -/
def naming (a : Activation) (scope : Scope) : Expr → Option Naming
  | .variable x _ =>
    match scope.find? (·.name == x) with
    | some b => some ⟨if b.depth = a.depth then "local" else "upvalue", x.toUTF8⟩
    | none => some ⟨"global", x.toUTF8⟩
  | .index _ (.text k) _ => some ⟨"field", k⟩
  | .index _ (.number (.integer i)) _ =>
    some ⟨"field", (if 0 ≤ i.toInt ∧ i.toInt ≤ 255 then "integer index" else "?").toUTF8⟩
  | .index .. => some ⟨"field", "?".toUTF8⟩
  | .text b => some ⟨"constant", b⟩
  | .single e => a.naming scope e
  | _ => none

end Activation

namespace Evaluation

/-! ### Variables -/

def readVariable (call : Call) (a : Activation) (scope : Scope) (x : String) (line : Nat) : Eval Value := do
  let s ← Eval.get
  match scope.find? (·.name == x) with
  | some b => pure (s.cell b.cell)
  | none => Operators.index call (a.site line) none (.table s.globals) (.ofString x)

def writeVariable (call : Call) (a : Activation) (scope : Scope) (x : String) (line : Nat) (v : Value) :
    Eval Unit := do
  let s ← Eval.get
  match scope.find? (·.name == x) with
  | some b => Eval.modify (·.setCell b.cell v)
  | none => Operators.store call (a.site line) none (.table s.globals) (.ofString x) v

/-- New variables over a scope, with nil for the values that are missing. -/
def declare (depth : Nat) : List String → List Value → Scope → Eval Scope
  | [], _, scope => pure scope
  | x :: xs, vs, scope => do
    let cell ← Eval.act (·.newCell (Value.first vs))
    declare depth xs (vs.drop 1) (⟨x, cell, depth⟩ :: scope)

/-- A target of an assignment, its parts evaluated. -/
inductive Place where
  | variable (name : String)
  | slot (object key : Value) (naming : Option Naming)

def assignTo (call : Call) (a : Activation) (scope : Scope) (line : Nat) (v : Value) : Place → Eval Unit
  | .variable x => writeVariable call a scope x line v
  | .slot o k naming => Operators.store call (a.site line) naming o k v

/-- Pairs targets with values, nil where values are missing; the last target is assigned first. -/
def assignAll (call : Call) (a : Activation) (scope : Scope) (line : Nat) : List Place → List Value → Eval Unit
  | [], _ => pure ()
  | p :: ps, vs => do
    assignAll call a scope line ps (vs.drop 1)
    assignTo call a scope line (Value.first vs) p

/-! ### Loops -/

/-- How many rounds a loop without a count of its own may take. -/
def loopLimit : Nat := 2 ^ 62

/-- Repeats until a round says how the loop ends. -/
def rounds : Nat → Eval (Option Exit) → Eval Exit
  | 0, _ => Eval.exhausted
  | n + 1, round => do
    match ← round with
    | some e => pure e
    | none => rounds n round

/-- A loop takes up a `break` of its body and goes on after a normal end. -/
def afterBody (scope : Scope) : Exit → Option Exit
  | .next _ => none
  | .broke => some (.next scope)
  | .returned vs => some (.returned vs)

def countInts (scope : Scope) (body : Value → Eval Exit) (step : Int64) : Nat → Int64 → Eval Exit
  | 0, _ => pure (.next scope)
  | n + 1, i => do
    match afterBody scope (← body (.number (.integer i))) with
    | some e => pure e
    | none => countInts scope body step n (i + step)

def countDoubles (scope : Scope) (body : Value → Eval Exit) (limit step : Double) : Nat → Double → Eval Exit
  | 0, _ => Eval.exhausted
  | n + 1, x => do
    if if Double.zero.less step then x.lessEqual limit else limit.lessEqual x then
      match afterBody scope (← body (.number (.double x))) with
      | some e => pure e
      | none => countDoubles scope body limit step n (x.add step)
    else pure (.next scope)

/-- The greatest (least, for a falling count) integer that a limit admits. -/
def integerLimit (rising : Bool) : Numeral → Int
  | .integer i => i.toInt
  | .double x =>
    if x.isNaN then (if rising then -(2 ^ 64) else 2 ^ 64)
    else if x.isInfinite then (if x.negative then -(2 ^ 64) else 2 ^ 64)
    else if rising then x.floorInt
    else -(x.neg.floorInt)

/-- Rounds of a count over 64-bit integers. -/
def countRounds (start limit step : Int) : Nat :=
  let limit := max (-(2 ^ 63)) (min (2 ^ 63 - 1) limit)
  if 0 < step then
    if start ≤ limit then ((limit - start) / step).toNat + 1 else 0
  else if limit ≤ start then ((start - limit) / (-step)).toNat + 1 else 0

/-- A count goes over integers when its start and step are integers, over doubles otherwise.
Strings that spell numbers serve as limits, and as start and step of a count over doubles. -/
def countLoop (site : Site) (scope : Scope) (start limit step : Value) (body : Value → Eval Exit) :
    Eval Exit := do
  match start, step with
  | .number (.integer i), .number (.integer d) =>
    if d == 0 then site.fail "'for' step is zero"
    else
      match limit.numeral? with
      | some l =>
        let bound := integerLimit (decide (0 < d.toInt)) l
        -- a limit beyond the integers cannot be passed, one before them admits nothing
        if 0 < d.toInt ∧ bound < -(2 ^ 63) ∨ d.toInt < 0 ∧ 2 ^ 63 ≤ bound then pure (.next scope)
        else countInts scope body d (countRounds i.toInt bound d.toInt) i
      | none => badValue "limit" limit
  | _, _ =>
    match limit.numeral?, step.numeral?, start.numeral? with
    | none, _, _ => badValue "limit" limit
    | _, none, _ => badValue "step" step
    | _, _, none => badValue "initial value" start
    | some l, some d, some i =>
      if d.toDouble.isZero then site.fail "'for' step is zero"
      else countDoubles scope body l.toDouble d.toDouble loopLimit i.toDouble
where
  badValue (what : String) (v : Value) : Eval Exit :=
    site.fail ("bad 'for' " ++ what ++ " (number expected, got " ++ v.typeName ++ ")")

/-! ### Expressions and statements -/

/-- A function value for a body, closed over the scope in which it stands. -/
def close (a : Activation) (scope : Scope) (body : FunctionBody) : Eval Value :=
  Value.function <$> Eval.act (·.newFunction (.closure body scope (a.depth + 1) a.source))

/-- The last call of a script function takes the place of its caller. -/
def invokeLast (call : Call) (a : Activation) (line : Nat) (naming : Option Naming) (f : Value)
    (args : List Value) : Eval (List Value) := do
  match f with
  | .function r =>
    match (← Eval.get).function? r with
    | some (.closure ..) => call r args ⟨a.callers, none⟩
    | _ => call r args ((a.site line).callSite naming)
  | _ => Operators.invoke call (a.site line) naming f args

def storePositional (r : TableRef) (vs : List Value) : Eval Unit :=
  Eval.modify fun s =>
    s.modifyTable r fun t =>
      { (vs.zipIdx 1).foldl (fun t (v, i) => t.set (.ofNat i) v) t with reserved := vs.length }

mutual

/-- All values of an expression; only calls and `...` have other than one. `last` says that the
expression is the whole of a `return`. -/
def values (call : Call) (a : Activation) : Expr → Scope → Bool → Eval (List Value)
  | .nil, _, _ => pure [.nil]
  | .boolean b, _, _ => pure [.boolean b]
  | .number n, _, _ => pure [.number n]
  | .text b, _, _ => pure [.text b]
  | .rest, _, _ => pure a.rest
  | .function body, scope, _ => List.singleton <$> close a scope body
  | .variable x line, scope, _ => List.singleton <$> readVariable call a scope x line
  | .index o k line, scope, _ => do
    let object := Value.first (← values call a o scope false)
    let key := Value.first (← values call a k scope false)
    List.singleton <$> Operators.index call (a.site line) (a.naming scope o) object key
  | .call f args line, scope, last => do
    let callee := Value.first (← values call a f scope false)
    let vs ← listValues call a args scope
    let naming := a.naming scope f
    if last then invokeLast call a line naming callee vs
    else Operators.invoke call (a.site line) naming callee vs
  | .method o name args line, scope, last => do
    let object := Value.first (← values call a o scope false)
    let callee ← Operators.index call (a.site line) (a.naming scope o) object (.ofString name)
    let vs ← listValues call a args scope
    let naming := some ⟨"method", name.toUTF8⟩
    if last then invokeLast call a line naming callee (object :: vs)
    else Operators.invoke call (a.site line) naming callee (object :: vs)
  | .binary op l r line, scope, _ => do
    let x := Value.first (← values call a l scope false)
    let y := Value.first (← values call a r scope false)
    List.singleton <$>
      Operators.binary call (a.site line) op x y (a.naming scope l) (a.naming scope r)
  | .unary op e line, scope, _ => do
    let x := Value.first (← values call a e scope false)
    List.singleton <$> Operators.unary call (a.site line) op x (a.naming scope e)
  | .and l r, scope, _ => do
    let x := Value.first (← values call a l scope false)
    if x.truthy then
      let y := Value.first (← values call a r scope false)
      pure [y]
    else pure [x]
  | .or l r, scope, _ => do
    let x := Value.first (← values call a l scope false)
    if x.truthy then pure [x]
    else
      let y := Value.first (← values call a r scope false)
      pure [y]
  | .single e, scope, _ => do
    let vs ← values call a e scope false
    pure [Value.first vs]
  | .table fields line, scope, _ => do
    let r ← Eval.act (·.newTable {})
    let vs ← fieldValues call a line r fields scope
    storePositional r vs
    pure [.table r]

/-- One value of each expression, and all of the last. -/
def listValues (call : Call) (a : Activation) : List Expr → Scope → Eval (List Value)
  | [], _ => pure []
  | e :: es, scope => do
    let vs ← values call a e scope false
    if es.isEmpty then pure vs
    else
      let rest ← listValues call a es scope
      pure (Value.first vs :: rest)

/-- Stores the keyed fields and answers the positional values, which are stored after them. -/
def fieldValues (call : Call) (a : Activation) (line : Nat) (r : TableRef) :
    List Field → Scope → Eval (List Value)
  | [], _ => pure []
  | .positional e :: fs, scope => do
    let vs ← values call a e scope false
    if fs.isEmpty then pure vs
    else
      let rest ← fieldValues call a line r fs scope
      pure (Value.first vs :: rest)
  | .keyed k v :: fs, scope => do
    let key := Value.first (← values call a k scope false)
    let value := Value.first (← values call a v scope false)
    Operators.rawStore (a.site line) r key value
    fieldValues call a line r fs scope

def place (call : Call) (a : Activation) : Expr → Scope → Eval Place
  | .variable x _, _ => pure (.variable x)
  | .index o k _, scope => do
    let object := Value.first (← values call a o scope false)
    let key := Value.first (← values call a k scope false)
    pure (.slot object key (a.naming scope o))
  | _, _ => pure (.slot .nil .nil none)

def places (call : Call) (a : Activation) : List Expr → Scope → Eval (List Place)
  | [], _ => pure []
  | e :: es, scope => do
    let p ← place call a e scope
    let ps ← places call a es scope
    pure (p :: ps)

def statement (call : Call) (a : Activation) : Stmt → Scope → Eval Exit
  | .declare names es, scope => do
    let vs ← listValues call a es scope
    let scope ← declare a.depth names vs scope
    pure (.next scope)
  | .declareFunction name body, scope => do
    let inner ← declare a.depth [name] [] scope
    let f ← close a inner body
    match inner with
    | b :: _ => Eval.modify (·.setCell b.cell f)
    | [] => pure ()
    pure (.next inner)
  | .assign targets es line, scope => do
    let ps ← places call a targets scope
    let vs ← listValues call a es scope
    assignAll call a scope line ps vs
    pure (.next scope)
  | .call e, scope => do
    let _ ← values call a e scope false
    pure (.next scope)
  | .block body, scope => do
    match ← block call a body scope with
    | .next _ => pure (.next scope)
    | e => pure e
  | .while c body, scope =>
    rounds loopLimit do
      let x := Value.first (← values call a c scope false)
      if x.truthy then
        let e ← block call a body scope
        pure (afterBody scope e)
      else pure (some (.next scope))
  | .repeat body c, scope =>
    rounds loopLimit do
      match ← block call a body scope with
      | .next inner =>
        let x := Value.first (← values call a c inner false)
        pure (if x.truthy then some (.next scope) else none)
      | e => pure (afterBody scope e)
  | .branch c yes no, scope => do
    let x := Value.first (← values call a c scope false)
    let e ← if x.truthy then block call a yes scope else block call a no scope
    match e with
    | .next _ => pure (.next scope)
    | e => pure e
  | .count name start limit step body line, scope => do
    let i := Value.first (← values call a start scope false)
    let l := Value.first (← values call a limit scope false)
    let d ← match step with
      | some e => do
        let vs ← values call a e scope false
        pure (Value.first vs)
      | none => pure (.ofInt 1)
    countLoop (a.site line) scope i l d fun v => do
      let inner ← declare a.depth [name] [v] scope
      block call a body inner
  | .each names es body line, scope => do
    let vs ← listValues call a es scope
    let f := Value.first vs
    let state := Value.first (vs.drop 1)
    let control ← Eval.act (·.newCell (Value.first (vs.drop 2)))
    rounds loopLimit do
      let now := (← Eval.get).cell control
      let results ←
        Operators.invoke call (a.site line) (some ⟨"for iterator", "for iterator".toUTF8⟩) f [state, now]
      match Value.first results with
      | .nil => pure (some (.next scope))
      | v =>
        Eval.modify (·.setCell control v)
        let inner ← declare a.depth names results scope
        let e ← block call a body inner
        pure (afterBody scope e)
  | .return es, scope => do
    match es with
    | [e] => Exit.returned <$> values call a e scope true
    | es => Exit.returned <$> listValues call a es scope
  | .break, _ => pure .broke

def block (call : Call) (a : Activation) : List Stmt → Scope → Eval Exit
  | [], scope => pure (.next scope)
  | s :: rest, scope => do
    match ← statement call a s scope with
    | .next inner => block call a rest inner
    | e => pure e

end

/-- Runs a function body on its arguments. -/
def enter (call : Call) (body : FunctionBody) (scope : Scope) (depth : Nat) (source : ByteArray)
    (args : List Value) (site : CallSite) : Eval (List Value) := do
  match body with
  | .mk parameters variadic statements =>
    let rest := if variadic then args.drop parameters.length else []
    let inner ← declare depth parameters args scope
    match ← block call ⟨source, depth, rest, site.callers⟩ statements inner with
    | .returned vs => pure vs
    | _ => pure []

/-- What a call of a host function does, given a way to call back into the script. -/
abbrev HostCall := Call → HostFunction → List Value → CallSite → Eval (List Value)

/-- One level of calling, over a way to make the calls inside. -/
def callWith (host : HostCall) (call : Call) : Call := fun r args site => do
  match (← Eval.get).function? r with
  | some (.closure body scope depth source) => enter call body scope depth source args site
  | some (.builtin b) => Builtins.run call ⟨b, args, site⟩
  | some (.host f) => host call f args site
  | none => Site.host.typeError "call" .nil none

/-- Calls nested at most `n` deep. -/
def callAt (host : HostCall) : Nat → Call
  | 0 => fun _ _ _ => Eval.exhausted
  | n + 1 => callWith host (callAt host n)

/-- A chunk as a function without arguments. -/
def loadChunk (body : FunctionBody) (source : ByteArray) : Eval FunctionRef :=
  Eval.act (·.newFunction (.closure body [] 0 source))

end Evaluation

end ScriptHost.Script
