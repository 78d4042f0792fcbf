import ScriptHost.Event
import ScriptHost.HostFunction
import ScriptHost.Script.Chunk
import ScriptHost.Script.Table

/-! The state of the script engine: everything that references point to. Objects are never removed,
so a reference stays good, and a new object gets the next free number. -/

namespace ScriptHost.Script

/-- A local variable: its name, the cell that holds its value, and how many functions deep the
function that declared it lies. -/
structure Binding where
  name : String
  cell : Nat
  depth : Nat

/-- Innermost binding first. -/
abbrev Scope := List Binding

/-- Functions that come with the language. -/
inductive Builtin where
  | assert | error | getMetatable | ipairs | ipairsStep | next | pairs | pcall | print | rawEqual
  | rawGet | rawLength | rawSet | select | setMetatable | toNumber | toString | type | xpcall
  | coroutineCreate
deriving DecidableEq

inductive Function where
  /-- Messages name the chunk by `source`. -/
  | closure (body : FunctionBody) (scope : Scope) (depth : Nat) (source : ByteArray)
  | builtin (b : Builtin)
  | host (f : HostFunction)

/-- What the error object of a failed host function holds. -/
inductive Failure where
  | error (text : String)
  /-- A broken promise of the host that no host operation has yet been stopped by. -/
  | fatal (message : String)
  /-- A broken promise that has stopped one. -/
  | spent
deriving DecidableEq, Inhabited

structure State where
  tables : Array Table := #[]
  functions : Array Function := #[]
  cells : Array Value := #[]
  failures : Array Failure := #[]
  threads : Nat := 0
  globals : TableRef := 0
  /-- The script function that stands for each host function pushed so far. -/
  wrappers : List (HostFunction × FunctionRef) := []
  /-- Newest event first. -/
  log : List Event := []
deriving Inhabited

namespace State

/-! ### Reading -/

def table (s : State) (r : TableRef) : Table := s.tables.getD r {}

def metatable? (s : State) (r : TableRef) : Option TableRef := (s.table r).metatable

def function? (s : State) (r : FunctionRef) : Option Function := s.functions[r]?

def cell (s : State) (r : Nat) : Value := s.cells.getD r .nil

def failure (s : State) (r : FailureRef) : Failure := s.failures.getD r .spent

def rawGet (s : State) (r : TableRef) (k : Value) : Value := (s.table r).get k

/-- The host function behind a script function, if it is the wrapper of one. -/
def hostFunction? (s : State) (r : FunctionRef) : Option HostFunction :=
  match s.function? r with
  | some (.host f) => some f
  | _ => none

/-! ### Writing -/

def newTable (s : State) (t : Table) : TableRef × State :=
  (s.tables.size, { s with tables := s.tables.push t })

def newFunction (s : State) (f : Function) : FunctionRef × State :=
  (s.functions.size, { s with functions := s.functions.push f })

def newCell (s : State) (v : Value) : Nat × State := (s.cells.size, { s with cells := s.cells.push v })

def newFailure (s : State) (f : Failure) : FailureRef × State :=
  (s.failures.size, { s with failures := s.failures.push f })

def newThread (s : State) : ThreadRef × State := (s.threads, { s with threads := s.threads + 1 })

def modifyTable (s : State) (r : TableRef) (f : Table → Table) : State :=
  { s with tables := s.tables.modify r f }

def rawSet (s : State) (r : TableRef) (k v : Value) : State := s.modifyTable r (·.set k v)

def setCell (s : State) (r : Nat) (v : Value) : State := { s with cells := s.cells.setIfInBounds r v }

def setMetatable (s : State) (r : TableRef) (m : Option TableRef) : State :=
  s.modifyTable r ({ · with metatable := m })

def spend (s : State) (r : FailureRef) : State :=
  { s with failures := s.failures.setIfInBounds r .spent }

def emit (s : State) (origin : Origin) (level : Level) (message : String) : State :=
  { s with log := ⟨origin, level, message⟩ :: s.log }

/-- The wrapper of a host function, made on first use and the same ever after. -/
def wrap (s : State) (f : HostFunction) : FunctionRef × State :=
  match s.wrappers.lookup f with
  | some r => (r, s)
  | none =>
    let (r, s) := s.newFunction (.host f)
    let s := { s with wrappers := (f, r) :: s.wrappers }
    (r, s.emit .stack .debug ("Wrapped host function " ++ f.name ++ " as script function"))

end State

/-! ### Outcomes -/

/-- How a piece of script ends: with a result, with an error value, or by running out of the
depth it was given. -/
inductive Flow (α : Type) where
  | done (result : α) (state : State)
  | raised (error : Value) (state : State)
  | exhausted

/-- A computation on the state that a script error can cut short. -/
def Eval (α : Type) : Type := State → Flow α

namespace Eval

instance : Monad Eval where
  pure a := fun s => .done a s
  bind m f := fun s =>
    match m s with
    | .done a s => f a s
    | .raised e s => .raised e s
    | .exhausted => .exhausted

def get : Eval State := fun s => .done s s

def modify (f : State → State) : Eval Unit := fun s => .done () (f s)

def act {α : Type} (f : State → α × State) : Eval α := fun s => let (a, s) := f s; .done a s

def raise {α : Type} (e : Value) : Eval α := fun s => .raised e s

def exhausted {α : Type} : Eval α := fun _ => .exhausted

/-- Both ways a computation can end become results. -/
def attempt {α : Type} (m : Eval α) : Eval (Except Value α) := fun s =>
  match m s with
  | .done a s => .done (.ok a) s
  | .raised e s => .done (.error e) s
  | .exhausted => .exhausted

end Eval

/-- Where running code stands: a chunk and a line. Code of the host has no place. -/
structure Position where
  source : ByteArray
  line : Nat

/-- What the text calls a function or value, such as `global 'x'`. -/
structure Naming where
  kind : String
  name : ByteArray

/-- What a called function can find out about its caller: the places of the callers, innermost
first, and how the innermost one named it. -/
structure CallSite where
  callers : List (Option Position) := []
  naming : Option Naming := none

/-- A way to call functions. The evaluator and the host are written over any such way. -/
abbrev Call := FunctionRef → List Value → CallSite → Eval (List Value)

end ScriptHost.Script
