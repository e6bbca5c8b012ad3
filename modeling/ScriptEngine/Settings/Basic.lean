import ScriptEngine.Files.Path

/-!
# Settings

What a host can choose about an engine.
-/
namespace ScriptEngine

structure Settings where
  /-- How many calls may be active at a time. -/
  maxCallDepth : Nat
  /-- Room in each direction of a worker's link. -/
  workerQueueCapacity : Nat
  /-- Further directories in which imports are looked up. -/
  modulePaths : List Path
  /-- A module that runs before everything else. -/
  prelude : Option Path
  /-- Whether timers and replies are waited for when a script ends. -/
  runEventLoop : Bool
  workerEventLoop : Bool
  logLevel : String
deriving Repr

namespace Settings

def default : Settings where
  maxCallDepth := 1000
  workerQueueCapacity := 1024
  modulePaths := []
  prelude := none
  runEventLoop := true
  workerEventLoop := false
  logLevel := "warn"

end Settings

end ScriptEngine
