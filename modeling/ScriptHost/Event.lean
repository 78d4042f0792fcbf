/-! Log events. -/

namespace ScriptHost

/-- Levels from the most to the least severe. -/
inductive Level where
  | error | warn | info | debug | trace
deriving DecidableEq, Inhabited

namespace Level

def name : Level → String
  | .error => "ERROR"
  | .warn => "WARN"
  | .info => "INFO"
  | .debug => "DEBUG"
  | .trace => "TRACE"

/-- How much a level lets through: a level admits itself and everything more severe. -/
def verbosity : Level → Nat
  | .error => 1
  | .warn => 2
  | .info => 3
  | .debug => 4
  | .trace => 5

end Level

/-- The part of the library that an event comes from. -/
inductive Origin where
  | stack | transfer | call | table | library | script
deriving DecidableEq, Inhabited

/-- The name by which log filters know a part. -/
def Origin.target : Origin → String
  | .stack => "sl_lua::lua::context"
  | .transfer => "sl_lua::lua::type_map"
  | .call => "sl_lua::lua::call"
  | .table => "sl_lua::lua::table"
  | .library => "sl_lua::lua::library"
  | .script => "sl_lua::lua::runtime"

structure Event where
  origin : Origin
  level : Level
  message : String
deriving DecidableEq, Inhabited

end ScriptHost
