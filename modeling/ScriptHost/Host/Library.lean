import ScriptHost.Host.Table

/-! Libraries: host functions gathered under one namespace, in the order of their names' first
mention. A later function under the same name takes the place of the earlier. -/

namespace ScriptHost.Host

structure Library where
  name : String
  functions : List (String × HostFunction) := []

namespace Library

def insertFunction (k : String) (f : HostFunction) : List (String × HostFunction) → List (String × HostFunction)
  | [] => [(k, f)]
  | (k', f') :: rest => if k = k' then (k', f) :: rest else (k', f') :: insertFunction k f rest

def add (l : Library) (k : String) (f : HostFunction) : Library :=
  { l with functions := insertFunction k f l.functions }

def ofPairs (name : String) (pairs : List (String × HostFunction)) : Library :=
  pairs.foldl (fun l (k, f) => l.add k f) { name := name }

def size (l : Library) : Nat := l.functions.length

def isEmpty (l : Library) : Bool := l.functions.isEmpty

/-- The functions as a table, for handing them to a script as one value. -/
def asTable (l : Library) : Table := Table.ofPairs (l.functions.map fun (k, f) => (k, .function f))

end Library

end ScriptHost.Host
