import ScriptHost.Exchange.Transfer
import ScriptHost.Host.Library

/-! What host code does with a script: taking the arguments of a call and returning results,
reading and writing globals by kind, calling script functions, and offering host functions. All of
them but the first two leave the stack as it was, also after an error. -/

namespace ScriptHost.Exchange

open Script (State)
open Host (Error Fault Kind Table Library)

/-! ### Inside a host function -/

/-- The arguments of a call. The stack must hold them and nothing else. -/
def args (kinds : List Kind) : Exchange (List Host.Value) := do
  let d ← depth
  if d = kinds.length then popAll .strict kinds else stop (.wrongArity kinds.length d)

/-- Pushes results and answers how many they are. -/
def returns (vs : List Host.Value) : Exchange Nat := do
  pushAll vs
  pure vs.length

def popArg (kind : Kind) : Exchange Host.Value := popSlot .strict kind

/-! ### Globals -/

/-- The global must be of the very kind; nothing converts here. -/
def getGlobal (name : String) (kind : Kind) : Exchange Host.Value :=
  balanced do
    pushGlobal name
    if (← topKind) = some kind then take kind
    else
      let what := describe (← peek)
      pop 1
      fail (.globalMismatch name what kind)

def setGlobal (name : String) (v : Host.Value) : Exchange Unit :=
  balanced do
    pushHost v
    popIntoGlobal name

/-! ### Calls -/

/-- Calls a global function and reads its results; surplus results are dropped. -/
def runFunction (name : String) (vs : List Host.Value) (kinds : List Kind) : Exchange (List Host.Value) := do
  let base ← depth
  let result ← settle <| balanced do
    pushGlobal name
    if (← topKind) = some .function then
      pushAll vs
      match ← protectedCall vs.length kinds.length with
      | .ok () => popAll .checked kinds
      | .error message => fail (.scriptFailed message)
    else
      let what := describe (← peek)
      pop 1
      fail (.notCallable name what)
  let d ← depth
  if d = base then ofResult result else stop (.unbalancedCall name d base)

/-! ### Host functions -/

/-- Makes a host function available as `space.name`. The namespace becomes a new table if its
global is none. -/
def registerFunction (space name : String) (f : HostFunction) : Exchange Unit :=
  balanced do
    pushGlobal space
    unless (← topKind) = some .table do
      pop 1
      newTable
      popIntoGlobal space
      pushGlobal space
    if (← topKind) = some .table then
      pushText name
      pushFunction f
      setTable
      pop 1
      emit .call .debug ("Registered host function " ++ space ++ "." ++ name)
    else
      pop 1
      fail (.namespaceMissing space)

def registerAll (space : String) : List (String × HostFunction) → Exchange Unit
  | [] => pure ()
  | (name, f) :: rest => do
    registerFunction space name f
    registerAll space rest

def install (l : Library) : Exchange Unit := registerAll l.name l.functions

end ScriptHost.Exchange
