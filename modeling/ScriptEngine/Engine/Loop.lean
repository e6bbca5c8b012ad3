import ScriptEngine.Evaluation.Bounded

/-!
# Running the event loop

Timers and tasks run one at a time until nothing is left that could happen. One that fails is
reported and the loop goes on; only the end of the program ends it early.
-/
namespace ScriptEngine

def runTask (ev : Evaluator) : Task → Eval Unit
  | .settle ticket outcome => Library.settle ev.call ticket outcome
  | .dispatch listener request connection => Library.dispatch ev.call listener request connection
  | .callGlobal name args => do
    let callee ← Eval.lookup? .global name
    discard (ev.call (callee.getD .nil) args)
  | .evaluate e => do discard (ev.eval e .global)

/-- Queues what has arrived from outside. The reply to a fetch also ends a unit of work. -/
def EventLoop.receive (l : EventLoop Value Task) : Arrival → EventLoop Value Task
  | .fetched ticket outcome => l.complete (.settle ticket outcome)
  | .request listener request connection => l.post (.dispatch listener request connection)
  | .posted e => l.post (.evaluate e)

/-- The failure that a signal amounts to. -/
def failureOf (s : Signal) : Eval Failure := Eval.read fun m => s.toFailure m.heap

/-- Reports a failure, unless it ends the program. -/
def reportOrEnd (f : Failure) : Eval Unit :=
  if f.isCatchable then Eval.report (.ofFailure f) else Eval.fail f

/-- Runs a callback or task whose failure is only reported. -/
def isolated (x : Eval Unit) : Eval Unit := do
  match ← Eval.attempt x with
  | .ok () => return
  | .error signal => reportOrEnd (← failureOf signal)

/-- Calls a timer's callback and arms the timer again if it repeats. -/
def fireTimer (ev : Evaluator) (t : Timer Value) : Eval Unit := do
  let outcome ← Eval.attempt (ev.call t.callback [])
  let time ← Library.now
  Eval.update fun m => { m with loop := m.loop.rearm time t }
  match outcome with
  | .ok _ => return
  | .error signal => Eval.stop signal

/-- The next thing to do, after what has arrived meanwhile is queued. -/
def nextReady : Eval (EventLoop.Ready Value Task) := do
  let time ← Library.now
  let arrivals : List Arrival ← Eval.ask .arrivals
  Eval.change fun m =>
    match (arrivals.foldl EventLoop.receive m.loop).poll time with
    | (ready, loop) => (ready, { m with loop })

/-- One turn of the loop; tells whether another one follows. -/
def loopTurn (ev : Evaluator) : Eval Bool := do
  match ← nextReady with
  | .timer t => isolated (fireTimer ev t)
  | .task t => isolated (runTask ev t)
  | .idle => return false
  | .wait deadline => Eval.ask (.rest deadline)
  return true

def runLoop (n : Nat) : Eval Unit := Eval.repeatWhile (loopTurn (.bounded n)) n

end ScriptEngine
