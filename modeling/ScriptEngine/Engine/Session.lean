import ScriptEngine.Engine.Repl
import ScriptEngine.Host.Sandbox

/-!
# Sessions

A program in a world of its own that is used step by step: what one step leaves behind the next one
finds.
-/
namespace ScriptEngine

structure Session where
  machine : Machine
  world : World

/-- How a host sets a program up. -/
structure Setup where
  settings : Settings
  files : List (String × List UInt8)
  script : Option Path
  args : List String

namespace Session

/-- Bounds the length of everything that is done in a session. -/
def bound : Nat := Nat.pow 10 18

/-- Runs an evaluation; none if it waits for ever or does not end within the bound. -/
def perform {α : Type} (s : Session) (x : Eval α) : Option (Except Failure α) × Session :=
  match s.world.run bound (settled x s.machine) with
  | (some (.value a machine), world) => (some a, ⟨machine, world⟩)
  | (some (.stopped signal machine), world) =>
    (some (.error (signal.toFailure machine.heap)), ⟨machine, world⟩)
  | (_, world) => (none, { s with world })

/-- A session whose prelude has run. From then on its streams are kept. -/
def start (setup : Setup) : Session :=
  let fresh : Session := ⟨.fresh setup.settings, .ofFiles (.ofFiles setup.files) []⟩
  let (_, s) := fresh.perform (runPrelude bound)
  let machine := { s.machine.capture with args := setup.args }
  match setup.script with
  | some p => { s with machine := machine.setScriptPath p }
  | none => { s with machine }

/-- What was written since the last time. -/
def takeOutput (s : Session) : (String × String) × Session :=
  match s.machine.takeKept with
  | (texts, machine) => (texts, { s with machine })

end Session

/-! Single steps -/

/-- Runs a program without its event loop. -/
def interpretSource (n : Nat) (source : String) : Except ParseError (Eval Unit) :=
  (Grammar.parse source).map (interpret n)

/-- Executes each statement in the global scope, whatever came of those before. -/
def executeAll (n : Nat) (program : Program) : Eval (List (Except Failure Unit)) := do
  return (← Eval.mapList (fun s => settled ((Evaluator.bounded n).exec s .global)) program).toList

def evaluateGlobal (n : Nat) (e : Expr) : Eval Value := (Evaluator.bounded n).eval e .global

/-- Calls what a global name stands for. -/
def callGlobal (n : Nat) (name : String) (args : List Value) : Eval Value := do
  (Evaluator.bounded n).call ((← Eval.lookup? .global name).getD .nil) args

def global? (name : String) : Eval (Option Value) := Eval.lookup? .global name

def defineGlobal (name : String) (v : Value) : Eval Unit := Eval.define .global name v false

def globalNames : Eval (List String) :=
  Eval.read fun m => ((m.scopes.frame? .global).map Frame.names).getD []

/-- A pending promise under a global name; its ticket. -/
def definePromise (name : String) : Eval Nat := do
  let (ticket, promise) ← Library.newPromise
  defineGlobal name (.object promise)
  return ticket

def settlePromise (n : Nat) (ticket : Nat) (outcome : Fetched) : Eval Unit :=
  Library.settle (Evaluator.bounded n).call ticket outcome

/-- Begins a unit of work and ends it with the reply to a ticket. -/
def completeTicket (ticket : Nat) (outcome : Fetched) : Eval Unit :=
  Eval.update fun m => { m with loop := m.loop.beginWork.complete (.settle ticket outcome) }

def postCall (name : String) (args : List Value) : Eval Unit :=
  Eval.update fun m => { m with loop := m.loop.post (.callGlobal name args) }

/-- Arms a timer that calls what the name stands for now. -/
def scheduleGlobal (name : String) (delay : Nat) (repeating : Bool) : Eval Nat := do
  Library.schedule ((← global? name).getD .nil) delay repeating

/-- Timers that are scheduled and units of work that are not done. -/
def pendingCounts : Eval (Nat × Nat) :=
  Eval.read fun m => (m.loop.pendingTimers, m.loop.outstanding)

def setArgs (args : List String) : Eval Unit := Eval.update fun m => { m with args }

namespace Session

/-- Makes the program the worker side of a new link. -/
def attachLink (s : Session) (capacity : Nat) : Session :=
  match s.world.hub.newLink capacity with
  | (l, hub) => ⟨{ s.machine with link := some l }, { s.world with hub }⟩

/-- Sends a message to the program over its link; tells whether it was taken. -/
def send (s : Session) (message : String) : Bool × Session :=
  match s.machine.link.bind fun l => s.world.hub.push l .inbound message with
  | some (sent, hub) => (sent, { s with world := { s.world with hub } })
  | none => (false, s)

/-- Takes the messages of the program from its link. -/
def receive (s : Session) : List String × Session :=
  match s.machine.link with
  | none => ([], s)
  | some l =>
    match s.world.hub.drain l .outbound with
    | (messages, hub) => (messages, { s with world := { s.world with hub } })

def closeLink (s : Session) : Session :=
  match s.machine.link with
  | none => s
  | some l => { s with world := { s.world with hub := s.world.hub.closeLink l } }

end Session

end ScriptEngine
