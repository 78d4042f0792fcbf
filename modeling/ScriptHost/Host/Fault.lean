import ScriptHost.Event
import ScriptHost.Host.Kind

/-! Broken promises between host code and this library. They stop the host operation at once and
are kept apart from errors that a caller can handle. -/

namespace ScriptHost.Host

inductive Fault where
  | popTooMany (count depth : Nat)
  | emptyStack
  | storeNeedsThree
  | storeTarget (found : String)
  | notATable (found : String)
  | noTableToDrain (found : String)
  | callNeedsCallee (args depth : Nat)
  | tooManyResults (count depth : Nat)
  | wrongArity (wanted depth : Nat)
  | nilArgument
  | argumentKind (wanted : Kind) (found : String)
  | missingKey (key : String)
  | otherKind (key : String) (held wanted : Kind)
  | unbalancedCall (name : String) (depth wanted : Nat)
  | unbalancedOperation (chunk : String) (depth : Nat)
  | unbalancedReload (depth : Nat)
  /-- A fault that has been carried through a script. -/
  | carried (message : String)
deriving DecidableEq, Inhabited

namespace Fault

/-- The part of the library that notices a fault. -/
def origin : Fault → Origin
  | .nilArgument | .argumentKind .. => .transfer
  | .noTableToDrain _ | .missingKey _ | .otherKind .. => .table
  | .wrongArity .. | .unbalancedCall .. => .call
  | .unbalancedOperation .. | .unbalancedReload _ => .script
  | _ => .stack

def message : Fault → String
  | .popTooMany n depth => "cannot pop " ++ toString n ++ " values from a stack of " ++ toString depth
  | .emptyStack => "evaluation stack is empty"
  | .storeNeedsThree => "set_table needs a table, a key and a value on the stack"
  | .storeTarget found => "set_table target is " ++ found
  | .notATable found => "expected a table, found " ++ found
  | .noTableToDrain found => "expected a table at the top of the stack, found " ++ found
  | .callNeedsCallee n depth => "pcall with " ++ toString n ++ " arguments on a stack of " ++ toString depth
  | .tooManyResults n depth =>
    "host function returned " ++ toString n ++ " values but only " ++ toString depth ++ " are on the stack"
  | .wrongArity n depth =>
    "host function takes " ++ toString n ++ " arguments but was called with " ++ toString depth
  | .nilArgument => "argument is nil"
  | .argumentKind wanted found => "type mismatch: expected " ++ wanted.name ++ ", found " ++ found
  | .missingKey key => "table has no key \"" ++ key ++ "\""
  | .otherKind key held wanted => "key \"" ++ key ++ "\" holds a " ++ held.name ++ ", not a " ++ wanted.name
  | .unbalancedCall name depth wanted =>
    "call to " ++ name ++ " left the stack at " ++ toString depth ++ ", expected " ++ toString wanted
  | .unbalancedOperation chunk depth =>
    "operation on " ++ chunk ++ " left " ++ toString depth ++ " values on the stack"
  | .unbalancedReload depth => "reload left " ++ toString depth ++ " values on the stack"
  | .carried message => message

end Fault

end ScriptHost.Host
