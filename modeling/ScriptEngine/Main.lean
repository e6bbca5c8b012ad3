import ScriptEngine.CommandLine.Program
import ScriptEngine.Host.Hub
import Std.Time.DateTime.Timestamp

/-!
# The executable

Runs the program of a command line against the real console, clock and files. Everything it decides
is decided elsewhere; here requests are only carried out.
-/
namespace ScriptEngine.Console

/-- Bounds the length of a run, and is out of reach. -/
def bound : Nat := Nat.pow 10 18

/-- Whether an action went through. -/
def succeeds (action : IO Unit) : IO Bool := do
  try
    action
    return true
  catch _ => return false

/-- What kept a file from being read. -/
def fileError : IO.Error → FileError
  | .inappropriateType _ code _ => if code = 21 then .isDirectory else .notDirectory
  | .invalidArgument _ code _ => if code = 36 then .nameTooLong else .badName
  | _ => .notFound

def readFile (p : Path) : IO (Except FileError (List UInt8)) := do
  try
    return .ok (← IO.FS.readBinFile p.text).toList
  catch e => return .error (fileError e)

def writeFile (p : Path) (contents : String) (append : Bool) : IO Bool :=
  succeeds do
    let file ← IO.FS.Handle.mk p.text (if append then .append else .write)
    file.putStr contents

/-- Whether something of that kind is at a path. -/
def isThere (p : Path) (directories : Bool) : IO Bool := do
  try
    let place ← IO.FS.realPath p.text
    return (← place.pathExists) && (directories || !(← place.isDir))
  catch _ => return false

def firstFile : List Path → IO (Option Path)
  | [] => return none
  | p :: rest => do
    if ← isThere p false then return some p else firstFile rest

def delete (p : Path) : IO Bool := do
  if ← succeeds (IO.FS.removeFile p.text) then return true
  else succeeds (IO.FS.removeDir p.text)

/-- The names in a directory, in ascending order. -/
def list (p : Path) : IO (List String) := do
  try
    let entries ← (← IO.FS.realPath p.text).readDir
    return (entries.toList.map (·.fileName)).mergeSort fun a b => decide (a ≤ b)
  catch _ => return []

def now : IO Nat :=
  return (← Std.Time.Timestamp.now).toNanosecondsSinceUnixEpoch.toInt.toNat

/-- Sleeps until the clock shows at least this time. -/
def waitUntil (time : Nat) : IO Unit := do
  IO.sleep (UInt32.ofNat ((time - (← now) + 999999) / 1000000))

/-- A line of the input with its line break; none at the end. -/
def readLine : IO (Except FileError (Option String)) := do
  try
    let line ← (← IO.getStdin).getLine
    return .ok (if line.isEmpty then none else some line)
  catch _ => return .error .notText

def write (stream : Stream) (text : String) : IO Unit := do
  let target ←
    match stream with
    | .output => IO.getStdout
    | .diagnostics => IO.getStderr
  target.putStr text
  target.flush

def random (low high : Int) : IO Int :=
  return low + (← IO.rand 0 (high - low).toNat)

/-- Carries out a request. -/
def answer : (q : OuterRequest) → IO q.Answer
  | .write stream text => write stream text
  | .readLine => readLine
  | .now => now
  | .waitUntil time => waitUntil time
  | .random low high => random low high
  | .readFile p => readFile p
  | .writeFile p contents append => writeFile p contents append
  | .firstFile paths => firstFile paths
  | .holds p => isThere p true
  | .delete p => delete p
  | .makeDirectory p => succeeds (IO.FS.createDirAll p.text)
  | .list p => list p

/-- Carries out all requests of a dialogue. -/
def perform {ρ : Type} : Hub.Outer ρ → IO ρ
  | .finished r => return r
  | .asking q next => do
    let a ← answer q
    perform (next a)

end ScriptEngine.Console

/-- Runs the program and returns its exit code. -/
def main (args : List String) : IO UInt32 := do
  let home := (← IO.getEnv "HOME").getD ""
  let program := ScriptEngine.CommandLine.run ScriptEngine.Console.bound ⟨home⟩ args
  let (code, _) ← ScriptEngine.Console.perform
    ((ScriptEngine.Hub.empty false).run ScriptEngine.Console.bound program)
  return UInt32.ofNat (ScriptEngine.CommandLine.processCode (code.getD 1))
