import ScriptEngine.Files.Module
import ScriptEngine.Library.Arguments

/-!
# Workers and tasks

A worker runs a script of its own and is reached through a link. A task is a worker of which only
the first message is wanted.
-/
namespace ScriptEngine.Library

/-- The file that a specifier stands for, seen from the module being run. -/
def resolve (spec : String) : Eval Path := do
  let places ← Eval.read fun m => Module.candidates m.settings.modulePaths spec m.importer?
  let found : Option Path ← Eval.askOuter (.firstFile places)
  match found with
  | some p => return p
  | none => Eval.fail (ModuleError.notFound spec).toFailure

/-- Starts a worker and keeps its link under a new number. -/
def startWorker (spec : String) : Eval Nat := do
  let p ← resolve spec
  let settings ← Eval.read fun m => m.settings
  let link : LinkRef ← Eval.ask (.startWorker p settings)
  Eval.change fun m =>
    match m.workers.insert link with
    | (id, workers) => (id, { m with workers })

/-- A class of the host, whose methods are built in. -/
def hostClass (name : String) (methods : List Native) : Eval Class := do
  return .mk (← Eval.freshId) name none [] methods

/-- An object that carries the number of a worker. -/
def newHandle (name : String) (methods : List Native) (id : Nat) : Eval Value := do
  let cls ← hostClass name methods
  return .object (← Eval.newInstance cls (.ofList [("id", .ofNat id)]))

def workerMethods : List Native := [.worker .postIn, .worker .pollOut, .worker .terminate]

def taskMethods : List Native := [.worker .wait]

/-- The link of the worker that a handle stands for. -/
def workerLink? (receiver : Option Value) : Eval (Option LinkRef) := Eval.read fun m =>
  (handleId? m.heap receiver).bind m.workers.get?

/-- Forgets the worker that a handle stands for, and returns its link. -/
def removeWorker (receiver : Option Value) : Eval (Option LinkRef) := Eval.change fun m =>
  match handleId? m.heap receiver with
  | none => (none, m)
  | some id =>
    match m.workers.remove id with
    | (link, workers) => (link, { m with workers })

def post (link : LinkRef) (direction : Direction) (message : Value) : Eval Value := do
  let text ← Eval.textOf message
  let sent : Bool ← Eval.ask (.push link direction text)
  return .bool sent

/-- All waiting messages as an array. -/
def poll (link : Option LinkRef) (direction : Direction) : Eval Value := do
  match link with
  | none => Eval.newArray #[]
  | some l =>
    let messages : List String ← Eval.ask (.drain l direction)
    Eval.newArray (messages.map Value.text).toArray

def closeLink (link : LinkRef) : Eval Unit := Eval.ask (.closeLink link)

/-- Waits for the first message of a task and lets the task go. -/
def waitForTask (receiver : Option Value) : Eval Value := do
  match ← removeWorker receiver with
  | none => return .nil
  | some link =>
    let message : Option String ← Eval.ask (.pop link .outbound)
    closeLink link
    return (message.map Value.text).getD .nil

def workerFunction (f : WorkerFunction) (receiver : Option Value) (args : List Value) :
    Eval Value := do
  match f with
  | .postOut =>
    match ← Eval.read fun m => m.link with
    | none => return .bool false
    | some link => post link .outbound (argument args 0)
  | .pollIn => poll (← Eval.read fun m => m.link) .inbound
  | .startWorker =>
    match argument args 0 with
    | .text spec => newHandle "WorkerHandle" workerMethods (← startWorker spec)
    | _ => return .nil
  | .startTask =>
    match argument args 0 with
    | .text spec => newHandle "Task" taskMethods (← startWorker spec)
    | _ => return .nil
  | .postIn =>
    match ← workerLink? receiver with
    | none => return .bool false
    | some link => post link .inbound (argument args 0)
  | .pollOut => poll (← workerLink? receiver) .outbound
  | .terminate =>
    match ← removeWorker receiver with
    | none => pure ()
    | some link => closeLink link
    return .bool true
  | .wait => waitForTask receiver

end ScriptEngine.Library
