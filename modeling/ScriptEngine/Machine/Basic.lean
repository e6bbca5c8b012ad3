import ScriptEngine.Concurrency.Channel
import ScriptEngine.Concurrency.ListenerControl
import ScriptEngine.Machine.Request
import ScriptEngine.Value.Failure

/-!
# The state of a running program

Everything that statements can change, and the tables by which the host's events find their way to
values of the program.
-/
namespace ScriptEngine

/-- Where a stream goes: to the host, or into a text that is kept. -/
inductive Sink where
  | host
  | kept (text : String)
deriving DecidableEq, Repr

def Sink.text : Sink → String
  | .host => ""
  | .kept s => s

/-- A listener: whom it calls, what the host knows it by, and what it shares with the host. -/
structure Listener where
  handler : Value
  reference : ListenerRef
  control : ListenerControl

/-- Open listeners and the requests that wait for a reply, each under its number. -/
structure ServerTable where
  lastServer : Nat
  lastRequest : Nat
  listeners : List (Nat × Listener)
  held : List (Nat × ConnectionRef)

namespace ServerTable

def empty : ServerTable := ⟨0, 0, [], []⟩

/-- Whom the requests of a listener go to, if it is open. -/
def handler? (t : ServerTable) (reference : ListenerRef) : Option Value :=
  (t.listeners.find? fun l => l.2.reference == reference).map fun l => l.2.handler

/-- Adds a listener under a number that was never used before. -/
def insert (t : ServerTable) (l : Listener) : Nat × ServerTable :=
  (t.lastServer + 1,
    { t with lastServer := t.lastServer + 1, listeners := t.listeners ++ [(t.lastServer + 1, l)] })

/-- Forgets a listener, and returns it if it was there. -/
def remove (t : ServerTable) (server : Nat) : Option Listener × ServerTable :=
  (t.listeners.lookup server, { t with listeners := t.listeners.filter fun s => s.1 != server })

/-- Keeps the connection of a request under a number that was never used before. -/
def hold (t : ServerTable) (c : ConnectionRef) : Nat × ServerTable :=
  (t.lastRequest + 1,
    { t with lastRequest := t.lastRequest + 1, held := t.held ++ [(t.lastRequest + 1, c)] })

/-- Lets go of a held connection, and returns it if it was there. -/
def take (t : ServerTable) (request : Nat) : Option ConnectionRef × ServerTable :=
  (t.held.lookup request, { t with held := t.held.filter fun r => r.1 != request })

end ServerTable

/-- Promises that are still pending, by ticket. -/
structure PromiseTable where
  lastTicket : Nat
  pending : List (Nat × InstanceRef)
deriving Repr

def PromiseTable.empty : PromiseTable := ⟨0, []⟩

/-- Work queued for the program. -/
inductive Task where
  /-- Settles the promise of a ticket. -/
  | settle (ticket : Nat) (outcome : Fetched)
  /-- Hands a request to the handler of its server. -/
  | dispatch (listener : ListenerRef) (request : Http.Request) (connection : ConnectionRef)
  /-- Calls whatever the global name then stands for. -/
  | callGlobal (name : String) (args : List Value)
  /-- Evaluates an expression in the global scope. -/
  | evaluate (expr : Expr)

structure Machine where
  scopes : Scopes Value
  heap : Heap
  /-- The next number by which functions and classes are told apart. -/
  nextId : Nat
  /-- How many function calls are active. -/
  depth : Nat
  settings : Settings
  loop : EventLoop Value Task
  promises : PromiseTable
  promiseClass : Class
  objectClass : Class
  workers : WorkerTable LinkRef
  /-- The link to the spawner, if this program is a worker. -/
  link : Option LinkRef
  servers : ServerTable
  /-- The directories of the modules being imported, the innermost first. -/
  importers : List Path
  args : List String
  output : Sink
  diagnostics : Sink

/-- The scope of all global names. -/
def ScopeRef.global : ScopeRef := ⟨0⟩

namespace Machine

/-- The directory that imports are relative to. -/
def importer? (m : Machine) : Option Path := m.importers.head?

/-- From now on imports are relative to the directory of this script. -/
def setScriptPath (m : Machine) (p : Path) : Machine :=
  { m with importers := [p.parent?.getD ⟨""⟩] }

/-- Keeps both streams from now on. -/
def capture (m : Machine) : Machine := { m with output := .kept "", diagnostics := .kept "" }

/-- What was kept of both streams since the last time, and the machine without it. -/
def takeKept (m : Machine) : (String × String) × Machine :=
  ((m.output.text, m.diagnostics.text), m.capture)

end Machine

end ScriptEngine
