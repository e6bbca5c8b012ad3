import ScriptEngine.Engine.Loop
import ScriptEngine.Engine.Start

/-!
# Running scripts
-/
namespace ScriptEngine

/-- A failure with the place of the statement in which it came up. -/
def diagnosticLine (f : Failure) (p : Text.Position) : String :=
  (Diagnostic.ofFailure f).toText ++ " (line " ++ toString p.line ++ ", column "
    ++ toString p.column ++ ")"

/-- Runs a top-level statement; a failure is reported with the place of the statement. -/
def interpretStatement (ev : Evaluator) (s : Stmt) : Eval Unit := do
  match ← Eval.attempt (ev.exec s .global) with
  | .ok () => return
  | .error signal =>
    let f ← failureOf signal
    if f.isCatchable then Eval.writeLine .diagnostics (diagnosticLine f s.position)
    Eval.fail f

/-- Runs the statements of a program in the global scope, up to the first that fails. -/
def interpret (n : Nat) (program : Program) : Eval Unit :=
  Eval.forEach (interpretStatement (.bounded n)) program

def ParseError.diagnostic (e : ParseError) : Diagnostic := ⟨.syntaxCode, e.message⟩

/-- What a computation came to, with every signal as the failure it amounts to. -/
def settled {α : Type} (x : Eval α) : Eval (Except Failure α) := do
  match ← Eval.attempt x with
  | .ok a => return .ok a
  | .error signal => return .error (← failureOf signal)

/-- Parses and runs a script, and waits for its timers and replies if the settings say so. -/
def runSource (n : Nat) (source : String) : Eval (Except Diagnostic Unit) := do
  match Grammar.parse source with
  | .error e =>
    Eval.report e.diagnostic
    return .error e.diagnostic
  | .ok program =>
    let outcome ← settled do
      interpret n program
      if ← Eval.read fun m => m.settings.runEventLoop then runLoop n
    return outcome.mapError Diagnostic.ofFailure

/-- Runs the prelude, if there is one that can be loaded. -/
def runPrelude (n : Nat) : Eval Unit := do
  match ← Eval.read fun m => m.settings.prelude with
  | none => return
  | some p =>
    match ← loadModule p with
    | .error _ => return
    | .ok program => discard (Eval.attempt (interpret n program))

/-- Lets go of everything the host holds for the program. -/
def shutDown : Eval Unit := do
  let links ← Eval.change fun m =>
    match m.workers.clear with
    | (links, workers) => (links, { m with workers })
  Eval.forEach Library.closeLink links
  let servers ← Eval.read fun m => m.servers.listeners.map Prod.fst
  Eval.forEach (fun id => do discard (Library.stopServer id)) servers
  let held ← Eval.read fun m => m.servers.held.map Prod.fst
  Eval.forEach (fun id => do discard (Library.respond id 500 droppedBody)) held
where
  droppedBody : String := Http.reason 500 ++ " (Fsk dropped request)"

/-- The program of a worker: it runs its script, connected to its spawner, and closes its side of
the link when it has ended. -/
def workerScript (n : Nat) (script : Path) (link : LinkRef) : Eval Unit := do
  match ← loadModule script with
  | .error _ => return
  | .ok program =>
    runPrelude n
    Eval.update fun m => { m.setScriptPath script with link := some link }
    discard <| Eval.attempt do
      interpret n program
      if ← Eval.read fun m => m.settings.workerEventLoop then runLoop n
    shutDown

def workerTalk (n : Nat) (script : Path) (settings : Settings) (link : LinkRef) : Talk Unit :=
  (workerScript n script link (.fresh settings)).bind fun _ =>
    .asking (.closeOutbound link) fun _ => .finished ()

end ScriptEngine
