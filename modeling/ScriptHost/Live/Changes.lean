import ScriptHost.Exchange.Operations

/-! The changes that the host made to a script's state. A later change to the same thing takes the
place of the earlier one and comes last, so that the list holds one entry for each global and one
for each registered function. -/

namespace ScriptHost.Live

open Exchange

inductive Change where
  | function (space name : String) (f : HostFunction)
  | global (name : String) (value : Host.Value)

namespace Change

def isFunction : Change → Bool
  | .function .. => true
  | .global .. => false

/-- Whether two changes concern the same global or the same registered name. -/
def sameSubject : Change → Change → Bool
  | .function s n _, .function s' n' _ => s == s' && n == n'
  | .global n _, .global n' _ => n == n'
  | _, _ => false

/-- Makes a change to the state at hand. -/
def apply : Change → Exchange Unit
  | .function space name f => registerFunction space name f
  | .global name v => do
    pushHost v
    popIntoGlobal name

end Change

/-- Oldest change first. -/
abbrev Changes := List Change

namespace Changes

def record (cs : Changes) (c : Change) : Changes := cs.filter (fun d => !d.sameSubject c) ++ [c]

def apply : Changes → Exchange Unit
  | [] => pure ()
  | c :: cs => do
    c.apply
    apply cs

def functions (cs : Changes) : Nat := (cs.filter (·.isFunction)).length

def globals (cs : Changes) : Nat := cs.length - functions cs

end Changes

end ScriptHost.Live
