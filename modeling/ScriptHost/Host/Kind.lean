import ScriptHost.Script.Value

/-! The six kinds of value that the host can store. -/

namespace ScriptHost.Host

inductive Kind where
  | number | text | boolean | function | table | pointer
deriving DecidableEq, Inhabited

namespace Kind

def name : Kind → String
  | .number => "number"
  | .text => "string"
  | .boolean => "boolean"
  | .function => "function"
  | .table => "table"
  | .pointer => "opaque"

/-- The kind of a script value; nil, coroutines and error objects have none. -/
def of? : Script.Value → Option Kind
  | .number _ => some .number
  | .text _ => some .text
  | .boolean _ => some .boolean
  | .function _ => some .function
  | .table _ => some .table
  | .pointer _ => some .pointer
  | .nil | .thread _ | .failure _ => none

end Kind

end ScriptHost.Host
