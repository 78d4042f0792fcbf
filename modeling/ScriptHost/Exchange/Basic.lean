import ScriptHost.Host.Error
import ScriptHost.Host.Fault
import ScriptHost.Script.Operators
import ScriptHost.Text.Lossy

/-! Exchanges between host and script. An exchange works on an evaluation stack, the values in
transit, beside the state of the script engine. It ends with a result, with an error for the
caller, or by stopping on a fault of the host. How functions are called is a parameter. -/

namespace ScriptHost.Exchange

open Script (Value State Eval Call Site)
open Host (Error Fault)

/-- How to call into the script, and where the code that calls stands. -/
structure Channel where
  call : Call
  site : Site

/-- The top of the stack is the head of the list. -/
structure Frame where
  stack : List Value := []
  state : State
deriving Inhabited

inductive Outcome (α : Type) where
  | done (result : α) (frame : Frame)
  | failed (error : Error) (frame : Frame)
  | stopped (fault : Fault) (state : State)
  | exhausted

end Exchange

open Exchange in
def Exchange (α : Type) : Type := Channel → Frame → Outcome α

namespace Exchange

open Script (Value State Eval Call Site)
open Host (Error Fault)

instance : Monad Exchange where
  pure a := fun _ f => .done a f
  bind m g := fun c f =>
    match m c f with
    | .done a f => g a c f
    | .failed e f => .failed e f
    | .stopped fault s => .stopped fault s
    | .exhausted => .exhausted

/-! ### Parts -/

def channel : Exchange Channel := fun c f => .done c f

def state : Exchange State := fun _ f => .done f.state f

def stack : Exchange (List Value) := fun _ f => .done f.stack f

def modifyState (g : State → State) : Exchange Unit := fun _ f => .done () { f with state := g f.state }

def setStack (vs : List Value) : Exchange Unit := fun _ f => .done () { f with stack := vs }

def act {α : Type} (g : State → α × State) : Exchange α := fun _ f =>
  let (a, s) := g f.state
  .done a { f with state := s }

def emit (origin : Origin) (level : Level) (message : String) : Exchange Unit :=
  modifyState (·.emit origin level message)

/-! ### Endings -/

def fail {α : Type} (e : Error) : Exchange α := fun _ f => .failed e f

/-- A fault is logged where it happens. -/
def stop {α : Type} (fault : Fault) : Exchange α := fun _ f =>
  .stopped fault (f.state.emit fault.origin .error fault.message)

def exhausted {α : Type} : Exchange α := fun _ _ => .exhausted

/-- Carries on with a fault that was logged when it happened. -/
def stopCarried {α : Type} (message : String) : Exchange α := fun _ f => .stopped (.carried message) f.state

def ofExcept {α : Type} : Except Fault α → Exchange α
  | .ok a => pure a
  | .error fault => stop fault

/-- After an error the stack is cut back to its depth at the start. -/
def balanced {α : Type} (m : Exchange α) : Exchange α := fun c f =>
  match m c f with
  | .failed e g => .failed e { g with stack := g.stack.drop (g.stack.length - f.stack.length) }
  | r => r

/-- Both endings that a caller can handle become results. -/
def settle {α : Type} (m : Exchange α) : Exchange (Except Error α) := fun c f =>
  match m c f with
  | .done a f => .done (.ok a) f
  | .failed e f => .done (.error e) f
  | .stopped fault s => .stopped fault s
  | .exhausted => .exhausted

def ofResult {α : Type} : Except Error α → Exchange α
  | .ok a => pure a
  | .error e => fail e

/-! ### Crossing -/

/-- A value on its way from script to host. The error object of a fault stops the host, but only
once; after that it reads as nil. -/
def receive (v : Value) : Exchange Value := do
  match v with
  | .failure r =>
    match (← state).failure r with
    | .fatal message =>
      modifyState (·.spend r)
      stopCarried message
    | .spent => pure .nil
    | .error _ => pure v
  | v => pure v

def receiveAll : List Value → Exchange (List Value)
  | [] => pure []
  | v :: vs => do
    let v ← receive v
    let vs ← receiveAll vs
    pure (v :: vs)

/-- The message of an error value, which ends at its first zero byte. -/
def errorMessage (s : State) (v : Value) : String :=
  match v with
  | .failure r =>
    match s.failure r with
    | .error text => text
    | f => Script.Operators.failureText f
  | v => Text.Lossy.ofBytes (((Script.Operators.plainText s v).toList.takeWhile (· != 0)).toByteArray)

/-- Runs script code. An error of the script is a result here, by its message; a fault of the host
underneath it stops this exchange too. -/
def attempt {α : Type} (m : Call → Site → Eval α) : Exchange (Except String α) := fun c f =>
  match m c.call c.site f.state with
  | .done a s => .done (.ok a) { f with state := s }
  | .raised v s =>
    match v with
    | .failure r =>
      match s.failure r with
      | .fatal message => .stopped (.carried message) (s.spend r)
      | _ => .done (.error (errorMessage s v)) { f with state := s }
    | v => .done (.error (errorMessage s v)) { f with state := s }
  | .exhausted => .exhausted

/-- As `attempt`, the engine's refusal as an error. -/
def primitive {α : Type} (m : Call → Site → Eval α) : Exchange α := do
  match ← attempt m with
  | .ok a => pure a
  | .error message => fail (.refused ("runtime error: " ++ message))

end Exchange

end ScriptHost
