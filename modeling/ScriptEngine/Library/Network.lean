import ScriptEngine.Library.Promises
import ScriptEngine.Library.Workers

/-!
# Fetching and serving

A fetch is a promise that background work settles. A server hands each request to its handler; the
request is held until it is answered, by the handler, later, or by the end of the program.
-/
namespace ScriptEngine.Library

/-- The promise of the text at an address. -/
def fetch (url : String) : Eval Value := do
  let (ticket, promise) ← newPromise
  Eval.update fun m => { m with loop := m.loop.beginWork }
  let _ : Unit ← Eval.ask (.fetch ticket url)
  return .object promise

/-- The largest port number. -/
def maxPort : Nat := 65535

def portNumber (x : Float) : Except Failure Nat :=
  if 0 ≤ x && x ≤ Float.ofNat maxPort then .ok (toNat x) else .error .portRange

def serverMethods : List Native := [.network .closeServer]

def requestMethods : List Native := [.network .sendReply]

/-- Opens a listener whose requests go to the handler. -/
def listen (port : Nat) (handler : Value) : Eval Value := do
  let opened : Except String (ListenerRef × Nat) ← Eval.ask (.listen port)
  match opened with
  | .error message =>
    Eval.fail (.io ("could not listen on port " ++ toString port ++ ": " ++ message))
  | .ok (reference, port) =>
    let id ← Eval.change fun m =>
      match m.servers.insert ⟨handler, reference, .new⟩ with
      | (id, servers) => (id, { m with loop := m.loop.beginWork, servers })
    let cls ← hostClass "Server" serverMethods
    return .object (← Eval.newInstance cls
      (.ofList [("id", .ofNat id), ("port", .ofNat port)]))

/-- Stops a server and gives its unit of work back, unless that was done; tells whether there was
one. -/
def stopServer (id : Nat) : Eval Bool := do
  let listener ← Eval.change fun m =>
    match m.servers.remove id with
    | (none, _) => (none, m)
    | (some l, servers) =>
      (some l, { m with loop := (l.control.stop.release m.loop).2, servers })
  match listener with
  | none => return false
  | some l =>
    let _ : Unit ← Eval.ask (.stopListening l.reference)
    return true

/-- Answers a held request; tells whether it was still held. -/
def respond (id status : Nat) (body : String) : Eval Bool := do
  let connection ← Eval.change fun m =>
    match m.servers.take id with
    | (connection, servers) => (connection, { m with servers })
  match connection with
  | none => return false
  | some c =>
    let _ : Unit ← Eval.ask (.reply c status body)
    return true

/-- The status that an argument asks for; success if it is no status. -/
def statusOf : Value → Nat
  | .number x => if 100 ≤ x && x < 600 then toNat x else 200
  | _ => 200

/-- Gives a held request to a handler. One that fails answers with an error. -/
def handle (call : Caller) (handler : Value) (request : Http.Request) (id : Nat) : Eval Unit := do
  let cls ← hostClass "Request" requestMethods
  let value ← Eval.newInstance cls (.ofList [("id", .ofNat id), ("method", .text request.method),
    ("path", .text request.path), ("body", .text request.body)])
  match ← Eval.attempt (call handler [.object value]) with
  | .ok _ => return
  | .error signal =>
    discard (respond id 500 (Http.reason 500))
    Eval.stop signal

/-- Holds a request and gives it to the handler of its server; a server that is gone is not
found. -/
def dispatch (call : Caller) (reference : ListenerRef) (request : Http.Request)
    (connection : ConnectionRef) : Eval Unit := do
  match ← Eval.read fun m => m.servers.handler? reference with
  | none => Eval.ask (.reply connection 404 (Http.reason 404))
  | some handler =>
    let id ← Eval.change fun m =>
      match m.servers.hold connection with
      | (id, servers) => (id, { m with servers })
    handle call handler request id

def networkFunction (f : NetworkFunction) (receiver : Option Value) (args : List Value) :
    Eval Value := do
  match f with
  | .fetch => fetch (← Eval.ofExcept (textArgument args 0 "fetch"))
  | .listen =>
    let x ← Eval.ofExcept (numberArgument args 0 "listen")
    let port ← Eval.ofExcept (portNumber x)
    let handler := argument args 1
    if handler.isCallable then listen port handler else Eval.fail .handlerArgument
  | .closeServer =>
    match ← Eval.read fun m => handleId? m.heap receiver with
    | none => return .bool false
    | some id => return .bool (← stopServer id)
  | .sendReply =>
    match ← Eval.read fun m => handleId? m.heap receiver with
    | none => return .bool false
    | some id =>
      let body ← Eval.textOf (argument args 0)
      return .bool (← respond id (statusOf (argument args 1)) body)

end ScriptEngine.Library
