import ScriptEngine.Engine.Session

/-!
# Visits to a server

A visitor sends requests to a server one after the other, each over its own connection. For some it
waits until the reply is complete, after the others it goes on a little later. At last it has the
server closed. Without a network it gives up.
-/
namespace ScriptEngine

structure Visit where
  request : List UInt8
  waits : Bool

/-- Milliseconds before a visitor that does not wait goes on. -/
def visitPause : Nat := 40

/-- The expression that closes a server. -/
def closeCall (server : String) : Expr :=
  let p := Text.Position.start
  .call (.get (.name server p) "close" false p) [] p

/-- The visits of a visitor at a port, and the end of the server. -/
def visitorTalk (port : Nat) (server : String) : List Visit → Talk Unit
  | [] => .asking (.post (closeCall server)) fun _ => .finished ()
  | v :: rest => .asking (.connect port v.request) fun
      | none => .finished ()
      | some c =>
        if v.waits then .asking (.awaitReply c) fun _ => visitorTalk port server rest
        else .asking (.sleep visitPause) fun _ => visitorTalk port server rest

/-- The port of the server that a global name stands for. -/
def serverPort (m : Machine) (server : String) : Nat :=
  match (m.scopes.get? .global server).map fun v => m.heap.field v "port" with
  | some (.number x) => Library.toNat x
  | _ => 0

namespace Session

/-- Lets all programs but the main one go on until none can. -/
def finishOthers (s : Session) : Session :=
  let talk : Talk Unit := .asking (.rest none) fun _ => .finished ()
  { s with world := (s.world.run bound talk).2 }

/-- Runs the event loop while a visitor is there, ends the program, and returns what came of the
loop and the replies in the order of the requests that got through. -/
def serve (s : Session) (server : String) (visits : List Visit) :
    Option (Except Failure Unit) × List String × Session :=
  let talk := visitorTalk (serverPort s.machine server) server visits
  let s := { s with world := { s.world with hub := s.world.hub.start talk } }
  let (outcome, s) := s.perform (runLoop bound)
  let (_, s) := s.perform shutDown
  let s := s.finishOthers
  (outcome, s.world.hub.visitorResponses, s)

end Session

end ScriptEngine
