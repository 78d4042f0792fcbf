/-! Functions that the host offers to scripts. A host function is known by its name alone: two of
them are the same function when their names agree. What a name does is settled by a catalog. -/

namespace ScriptHost

structure HostFunction where
  name : String
deriving DecidableEq, Inhabited

end ScriptHost
