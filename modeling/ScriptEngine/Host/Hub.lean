import ScriptEngine.Engine.Script
import ScriptEngine.Host.Address

/-!
# Programs side by side

The hub runs a main program together with its workers and the visitors of its servers. Programs take
turns: one moves to its next request, the request is answered, and the turn goes to the next program
that does not have to wait. When all have to wait, the time passes until one need not. What the hub
cannot answer itself it asks of the surroundings, so a run of the hub is a dialogue too.
-/
namespace ScriptEngine

/-- A program between two requests. A sleeping one knows when it wakes. -/
structure Activity (ρ : Type) where
  id : Nat
  talk : Talk ρ
  wake : Option Nat

/-- The main program has this number. -/
def mainId : Nat := 0

/-- An open or closed port and the program that listens on it. -/
structure OpenPort where
  port : Nat
  owner : Nat
  isOpen : Bool

/-- Who gets the answer of a connection: a fetch of a program, or a visitor. -/
inductive Client where
  | fetch (program ticket : Nat) (url : String)
  | visitor

structure Connection where
  client : Client
  response : Option String

structure Hub where
  /-- Whether there is no network: every fetch fails then, and no visitor gets through to a
  server. -/
  isolated : Bool
  links : Array Link
  ports : Array OpenPort
  connections : Array Connection
  /-- What has arrived for programs, the oldest first. -/
  mail : List (Nat × Arrival)
  /-- All programs but the main one. -/
  programs : List (Activity Unit)
  nextProgram : Nat

namespace Hub

def empty (isolated : Bool) : Hub := ⟨isolated, #[], #[], #[], [], [], mainId + 1⟩

/-! Links -/

def channel (link : Link) : Direction → Channel String
  | .inbound => link.inbound
  | .outbound => link.outbound

def setChannel (link : Link) (d : Direction) (c : Channel String) : Link :=
  match d with
  | .inbound => { link with inbound := c }
  | .outbound => { link with outbound := c }

def link? (hub : Hub) (l : LinkRef) : Option Link := hub.links[l.index]?

def setLink (hub : Hub) (l : LinkRef) (link : Link) : Hub :=
  { hub with links := hub.links.set! l.index link }

def newLink (hub : Hub) (capacity : Nat) : LinkRef × Hub :=
  (⟨hub.links.size⟩, { hub with links := hub.links.push (.open capacity) })

/-- Starts a program beside the others. -/
def start (hub : Hub) (talk : Talk Unit) : Hub :=
  { hub with
    programs := hub.programs ++ [⟨hub.nextProgram, talk, none⟩]
    nextProgram := hub.nextProgram + 1 }

/-- Starts a worker whose evaluations are bounded by `bound`. -/
def startWorker (bound : Nat) (hub : Hub) (script : Path) (settings : Settings) :
    LinkRef × Hub :=
  match hub.newLink settings.workerQueueCapacity with
  | (l, hub) => (l, hub.start (workerTalk bound script settings l))

def push (hub : Hub) (l : LinkRef) (d : Direction) (message : String) : Option (Bool × Hub) :=
  match hub.link? l with
  | none => some (false, hub)
  | some link =>
    match (channel link d).push message with
    | (.stored, c) => some (true, hub.setLink l (setChannel link d c))
    | (.refused _, _) => some (false, hub)
    | (.mustWait, _) => none

def pop (hub : Hub) (l : LinkRef) (d : Direction) : Option (Option String × Hub) :=
  match hub.link? l with
  | none => some (none, hub)
  | some link =>
    match (channel link d).pop with
    | (.item message, c) => some (some message, hub.setLink l (setChannel link d c))
    | (.nothingLeft, _) => some (none, hub)
    | (.mustWait, _) => none

def drain (hub : Hub) (l : LinkRef) (d : Direction) : List String × Hub :=
  match hub.link? l with
  | none => ([], hub)
  | some link =>
    match (channel link d).drain with
    | (messages, c) => (messages, hub.setLink l (setChannel link d c))

def closeLink (hub : Hub) (l : LinkRef) : Hub :=
  match hub.link? l with
  | none => hub
  | some link => hub.setLink l link.close

def closeOutbound (hub : Hub) (l : LinkRef) : Hub :=
  match hub.link? l with
  | none => hub
  | some link => hub.setLink l { link with outbound := link.outbound.close }

/-! Network -/

/-- Ports that are given out when any will do. -/
def firstFreePort : Nat := 49152

def portInUse (hub : Hub) (port : Nat) : Bool := hub.ports.any fun p => p.isOpen && p.port == port

/-- Opens a port; zero stands for any that is free. -/
def listen (hub : Hub) (owner port : Nat) : Except String (ListenerRef × Nat) × Hub :=
  let port := if port = 0 then firstFreePort + hub.ports.size else port
  if hub.portInUse port then (.error "Address already in use (os error 98)", hub)
  else (.ok (⟨hub.ports.size⟩, port), { hub with ports := hub.ports.push ⟨port, owner, true⟩ })

def stopListening (hub : Hub) (l : ListenerRef) : Hub :=
  { hub with ports := hub.ports.modify l.index fun p => { p with isOpen := false } }

/-- The open listener of a port. -/
def listener? (hub : Hub) (port : Nat) : Option (ListenerRef × Nat) :=
  match hub.ports.findIdx? fun p => p.isOpen && p.port == port with
  | none => none
  | some i => hub.ports[i]?.map fun p => (⟨i⟩, p.owner)

def deliver (hub : Hub) (program : Nat) (a : Arrival) : Hub :=
  { hub with mail := hub.mail ++ [(program, a)] }

/-- The outcome of a fetch that was answered; statuses of failure reject it. -/
def fetchOutcome (url : String) (status : Nat) (body : String) : Fetched :=
  if 400 ≤ status then .error (url ++ ": status code " ++ toString status) else .ok body

/-- Answers a connection. -/
def reply (hub : Hub) (c : ConnectionRef) (status : Nat) (body : String) : Hub :=
  match hub.connections[c.index]? with
  | none => hub
  | some connection =>
    let hub := { hub with connections := hub.connections.modify c.index fun x =>
      { x with response := some (Http.response status body) } }
    match connection.client with
    | .fetch program ticket url =>
      hub.deliver program (.fetched ticket (fetchOutcome url status body))
    | .visitor => hub

/-- Opens a connection for a client. -/
def newConnection (hub : Hub) (client : Client) : ConnectionRef × Hub :=
  (⟨hub.connections.size⟩, { hub with connections := hub.connections.push ⟨client, none⟩ })

/-- Where a fetch leads to: a listener with the program that owns it, and the request for it. -/
def destination (hub : Hub) (url : String) :
    Except Http.FetchError (ListenerRef × Nat × Http.Request) :=
  match Http.Address.parse? url with
  | none => .error .badAddress
  | some address =>
    if hub.isolated then .error .unreachable
    else if !address.isLocal then .error .unknownHost
    else
      match hub.listener? address.port with
      | none => .error .refused
      | some (l, owner) => .ok (l, owner, address.request)

/-- Starts a fetch; one that leads nowhere fails at once. -/
def fetch (hub : Hub) (program ticket : Nat) (url : String) : Hub :=
  match hub.destination url with
  | .error e => hub.deliver program (.fetched ticket (.error (e.message url)))
  | .ok (l, owner, request) =>
    match hub.newConnection (.fetch program ticket url) with
    | (c, hub) => hub.deliver owner (.request l request c)

/-- A visitor's request: one that cannot be read or finds nobody is answered at once. -/
def connect (hub : Hub) (port : Nat) (bytes : List UInt8) : Option ConnectionRef × Hub :=
  if hub.isolated then (none, hub)
  else
    match hub.newConnection .visitor with
    | (c, hub) =>
      match Http.readRequest bytes, hub.listener? port with
      | .error _, _ => (some c, hub.reply c 400 (Http.reason 400))
      | .ok _, none => (some c, hub.reply c 404 (Http.reason 404))
      | .ok request, some (l, owner) => (some c, hub.deliver owner (.request l request c))

/-- What visitors got back, in the order of their requests. -/
def visitorResponses (hub : Hub) : List String :=
  hub.connections.toList.filterMap fun c =>
    match c.client with
    | .visitor => some (c.response.getD "")
    | .fetch .. => none

/-! Answers and turns -/

def hasMail (hub : Hub) (program : Nat) : Bool := hub.mail.any fun m => m.1 == program

/-- Takes what has arrived for a program. -/
def takeMail (hub : Hub) (program : Nat) : List Arrival × Hub :=
  ((hub.mail.filter fun m => m.1 == program).map Prod.snd,
    { hub with mail := hub.mail.filter fun m => m.1 != program })

/-- The answer to a request of a program at some time; none if it has to wait. -/
def answer? (bound time : Nat) (hub : Hub) {ρ : Type} (p : Activity ρ) :
    (q : Request) → Option (q.Answer × Hub)
  | .outer _ => none
  | .sleep _ => if p.wake.any (· ≤ time) then some ((), hub) else none
  | .startWorker script settings => some (hub.startWorker bound script settings)
  | .push l d message => hub.push l d message
  | .pop l d => hub.pop l d
  | .drain l d => some (hub.drain l d)
  | .closeLink l => some ((), hub.closeLink l)
  | .closeOutbound l => some ((), hub.closeOutbound l)
  | .listen port => some (hub.listen p.id port)
  | .stopListening l => some ((), hub.stopListening l)
  | .reply c status body => some ((), hub.reply c status body)
  | .fetch ticket url => some ((), hub.fetch p.id ticket url)
  | .arrivals => some (hub.takeMail p.id)
  | .rest deadline =>
    if hub.hasMail p.id || deadline.any (· ≤ time) then some ((), hub) else none
  | .connect port bytes => some (hub.connect port bytes)
  | .awaitReply c =>
    match hub.connections[c.index]?.bind Connection.response with
    | some text => some (text, hub)
    | none => none
  | .post e => some ((), hub.deliver mainId (.posted e))

/-- A sleeping program is told when to wake as its sleep begins. -/
def fallAsleep {ρ : Type} (time : Nat) (p : Activity ρ) : Request → Activity ρ
  | .sleep duration =>
    match p.wake with
    | none => { p with wake := some (time + Library.toNanoseconds duration) }
    | some _ => p
  | _ => p

/-- When a waiting program goes on at the latest. -/
def wakeTime? {ρ : Type} (p : Activity ρ) : Option Nat :=
  match p.talk with
  | .asking (.rest deadline) _ => deadline
  | _ => p.wake

/-- The earlier of two times that may not be known. -/
def earlier : Option Nat → Option Nat → Option Nat
  | some a, some b => some (min a b)
  | some a, none => some a
  | none, b => b

/-- A program in the queue for the next turn. -/
inductive Turn (ρ : Type) where
  | main (p : Activity ρ)
  | other (p : Activity Unit)

/-- What a program does with its turn. Of results only that of the main program counts. -/
inductive Move (ρ : Type) where
  | ended (result : Option ρ)
  | asks (q : OuterRequest) (next : q.Answer → Turn ρ)
  | moved (next : Turn ρ) (hub : Hub)
  | waits (next : Turn ρ)

/-- Moves a program that is `toTurn` in the queue. -/
def move {σ ρ : Type} (bound time : Nat) (hub : Hub) (toTurn : Activity σ → Turn ρ)
    (toResult : σ → Option ρ) (p : Activity σ) : Move ρ :=
  match p.talk with
  | .finished r => .ended (toResult r)
  | .asking (.outer q) next => .asks q fun a => toTurn { p with talk := next a }
  | .asking q next =>
    let p := fallAsleep time p q
    match hub.answer? bound time p q with
    | some (a, hub) => .moved (toTurn { p with talk := next a, wake := none }) hub
    | none => .waits (toTurn p)

def Turn.move {ρ : Type} (bound time : Nat) (hub : Hub) : Turn ρ → Move ρ
  | main p => Hub.move bound time hub .main some p
  | other p => Hub.move bound time hub .other (fun _ => none) p

def Turn.wakeTime? {ρ : Type} : Turn ρ → Option Nat
  | main p => Hub.wakeTime? p
  | other p => Hub.wakeTime? p

/-- The programs other than the main one. -/
def others {ρ : Type} (queue : List (Turn ρ)) : List (Activity Unit) :=
  queue.filterMap fun
    | .main _ => none
    | .other p => some p

/-- Everything that is said to the surroundings, up to a result. -/
abbrev Outer (ρ : Type) : Type := Dialogue OuterRequest.Answer ρ

/-- Puts programs that were just started behind the others. -/
def enqueue {ρ : Type} (hub : Hub) (queue : List (Turn ρ)) : List (Turn ρ) × Hub :=
  (queue ++ hub.programs.map .other, { hub with programs := [] })

/-- The hub when the main program no longer runs. -/
def leave {ρ : Type} (hub : Hub) (queue : List (Turn ρ)) : Hub :=
  { hub with programs := others queue ++ hub.programs }

/-- Gives turns to the programs of a queue until the main one ends or nobody can go on, at most `n`
turns. Those in `waiting` have passed their turn since the last time that one moved. -/
def turns {ρ : Type} (bound : Nat) : Nat → Nat → Hub → List (Turn ρ) → List (Turn ρ) →
    Outer (Option ρ × Hub)
  | 0, _, hub, waiting, queue => .finished (none, hub.leave (queue ++ waiting))
  | n + 1, _, hub, waiting, [] =>
    match waiting.foldl (fun t w => earlier t w.wakeTime?) none with
    | none => .finished (none, hub.leave waiting)
    | some wake => .asking (.waitUntil wake) fun _ => .asking .now fun time =>
        turns bound n time hub [] waiting
  | n + 1, time, hub, waiting, t :: rest =>
    match t.move bound time hub with
    | .ended (some r) => .finished (some r, hub.leave (rest ++ waiting))
    | .ended none => turns bound n time hub [] (rest ++ waiting)
    | .asks q next => .asking q fun a => .asking .now fun time =>
        turns bound n time hub [] (rest ++ waiting ++ [next a])
    | .moved t hub =>
      match hub.enqueue (rest ++ waiting ++ [t]) with
      | (queue, hub) => .asking .now fun time => turns bound n time hub [] queue
    | .waits t => turns bound n time hub (waiting ++ [t]) rest

/-- Runs a main program together with all others. Evaluations of workers are bounded by `bound`, and
so is the number of turns. -/
def run {ρ : Type} (bound : Nat) (hub : Hub) (talk : Talk ρ) : Outer (Option ρ × Hub) :=
  match hub.enqueue [.main ⟨mainId, talk, none⟩] with
  | (queue, hub) => .asking .now fun time => turns bound bound time hub [] queue

end Hub

end ScriptEngine
