import ScriptEngine.Library.Arrays
import ScriptEngine.Library.Files
import ScriptEngine.Library.Json
import ScriptEngine.Library.Network
import ScriptEngine.Library.Promises
import ScriptEngine.Library.System
import ScriptEngine.Library.Texts
import ScriptEngine.Library.Time
import ScriptEngine.Library.Workers

/-!
# Calling built-in functions
-/
namespace ScriptEngine.Library

/-- Runs a built-in function on arguments that it accepts. -/
def callNative (call : Caller) (n : Native) (receiver : Option Value) (args : List Value) :
    Eval Value :=
  match n with
  | .array method => arrayMethod call method receiver args
  | .text method => textMethod method receiver args
  | .textFunction f => textFunction f args
  | .system f => systemFunction f args
  | .file f => fileFunction f args
  | .timer f => timerFunction f args
  | .json f => jsonFunction f args
  | .date f => dateFunction f args
  | .worker f => workerFunction f receiver args
  | .promise method => promiseMethod call method receiver args
  | .network f => networkFunction f receiver args

end ScriptEngine.Library
