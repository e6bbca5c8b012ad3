import ScriptEngine.Files.Tree
import ScriptEngine.Http.Message
import ScriptEngine.Program.Basic
import ScriptEngine.Settings.Basic

/-!
# Requests to the host

A running program reaches everything outside itself by a request, and goes on with the answer. What
concerns the console, the clock and the files is kept apart from what concerns other programs:
workers and their links, servers and their clients.
-/
namespace ScriptEngine

/-- The two streams a program writes to. -/
inductive Stream where
  | output | diagnostics
deriving DecidableEq, Repr

/-- A link as its two sides know it. -/
structure LinkRef where
  index : Nat
deriving DecidableEq, Repr, Inhabited

/-- The two directions of a link. -/
inductive Direction where
  | inbound | outbound
deriving DecidableEq, Repr

/-- A listener of the host. -/
structure ListenerRef where
  index : Nat
deriving DecidableEq, Repr, Inhabited

/-- A connection whose request has been read. -/
structure ConnectionRef where
  index : Nat
deriving DecidableEq, Repr, Inhabited

/-- Requests that concern the surroundings of all programs. Times are nanoseconds. -/
inductive OuterRequest where
  | write (stream : Stream) (text : String)
  | readLine
  | now
  /-- Lets the time pass until a reading of the clock. -/
  | waitUntil (time : Nat)
  | random (low high : Int)
  | readFile (path : Path)
  | writeFile (path : Path) (contents : String) (append : Bool)
  /-- The first of these paths that is a file. -/
  | firstFile (paths : List Path)
  | holds (path : Path)
  | delete (path : Path)
  | makeDirectory (path : Path)
  | list (path : Path)
deriving Repr

namespace OuterRequest

/-- What a request is answered with. -/
def Answer : OuterRequest → Type
  | write .. => Unit
  | readLine => Except FileError (Option String)
  | now => Nat
  | waitUntil _ => Unit
  | random .. => Int
  | readFile _ => Except FileError (List UInt8)
  | writeFile .. => Bool
  | firstFile _ => Option Path
  | holds _ => Bool
  | delete _ => Bool
  | makeDirectory _ => Bool
  | list _ => List String

end OuterRequest

/-- The text fetched from an address, or why there is none. -/
abbrev Fetched := Except String String

/-- What reaches a program from outside while it runs. -/
inductive Arrival where
  | fetched (ticket : Nat) (outcome : Fetched)
  | request (listener : ListenerRef) (request : Http.Request) (connection : ConnectionRef)
  /-- An expression to be evaluated in the global scope. -/
  | posted (expr : Expr)

/-- Everything a program, or a visitor of its servers, can ask for. -/
inductive Request where
  | outer (request : OuterRequest)
  /-- Does nothing for that many milliseconds. -/
  | sleep (duration : Nat)
  | startWorker (script : Path) (settings : Settings)
  /-- Waits while there is no room; refused when the direction is closed. -/
  | push (link : LinkRef) (direction : Direction) (message : String)
  /-- Waits for a message while the direction is open. -/
  | pop (link : LinkRef) (direction : Direction)
  | drain (link : LinkRef) (direction : Direction)
  | closeLink (link : LinkRef)
  | closeOutbound (link : LinkRef)
  | listen (port : Nat)
  | stopListening (listener : ListenerRef)
  | reply (connection : ConnectionRef) (status : Nat) (body : String)
  | fetch (ticket : Nat) (url : String)
  /-- Takes what has arrived. -/
  | arrivals
  /-- Waits until something arrives or the deadline is reached. -/
  | rest (deadline : Option Nat)
  /-- Sends bytes to a port over a connection of its own; none if the port cannot be reached. -/
  | connect (port : Nat) (bytes : List UInt8)
  /-- Waits for all that comes back over a connection. -/
  | awaitReply (connection : ConnectionRef)
  /-- Has the main program evaluate an expression. -/
  | post (expr : Expr)

namespace Request

/-- What a request is answered with. -/
def Answer : Request → Type
  | outer q => q.Answer
  | sleep _ => Unit
  | startWorker .. => LinkRef
  | push .. => Bool
  | pop .. => Option String
  | drain .. => List String
  | closeLink _ => Unit
  | closeOutbound _ => Unit
  | listen _ => Except String (ListenerRef × Nat)
  | stopListening _ => Unit
  | reply .. => Unit
  | fetch .. => Unit
  | arrivals => List Arrival
  | rest _ => Unit
  | connect .. => Option ConnectionRef
  | awaitReply _ => String
  | post _ => Unit

end Request

end ScriptEngine
