import ScriptEngine.Proofs.Evaluation.Conduct
import ScriptEngine.Proofs.Library.Desk
import ScriptEngine.Proofs.Value.Fields

/-!
# What evaluations do to servers and their requests

The account of a run says what happened at the program's desk and by what. Each of its entries is
made by a run of the function that brings it about: the script's call of a built-in function, the
loop that queues and hands out requests, the handler that is called with a request. Everything an
evaluator does has an account in which no request is taken up.
-/
namespace ScriptEngine
open Eval

def Task.connection? : Task → Option ConnectionRef
  | .dispatch _ _ c => some c
  | _ => none

def Arrival.connection? : Arrival → Option ConnectionRef
  | .request _ _ c => some c
  | _ => none

def Machine.desk (m : Machine) : Desk := ⟨m.servers, m.loop.tasks.filterMap Task.connection?⟩

/-- The reply that is asked for. -/
def Exchange.reply? : Exchange → Option Reply
  | ⟨.reply c status body, _⟩ => some ⟨c, status, body⟩
  | _ => none

/-- The requests that are found to have arrived. -/
def Exchange.arrivals : Exchange → List ConnectionRef
  | ⟨.arrivals, found⟩ => found.filterMap Arrival.connection?
  | _ => []

def repliesIn (log : List Exchange) : List Reply := log.filterMap Exchange.reply?

def arrivalsIn (log : List Exchange) : List ConnectionRef := log.flatMap Exchange.arrivals

@[simp]
theorem repliesIn_append (first last : List Exchange) :
    repliesIn (first ++ last) = repliesIn first ++ repliesIn last :=
  List.filterMap_append

@[simp]
theorem arrivalsIn_append (first last : List Exchange) :
    arrivalsIn (first ++ last) = arrivalsIn first ++ arrivalsIn last :=
  List.flatMap_append

@[simp]
theorem arrivalsIn_singleton (e : Exchange) : arrivalsIn [e] = e.arrivals := List.append_nil _

/-- The request that is handed out. -/
def EventLoop.Ready.connections : EventLoop.Ready Value Task → List ConnectionRef
  | .task t => t.connection?.toList
  | .timer _ | .idle | .wait _ => []

/-- An object that carries a request and its number, and answers it when told to send. -/
structure Heap.Carries (h : Heap) (o : InstanceRef) (request : Http.Request) (id : Nat) :
    Prop where
  id : h.field (.object o) "id" = .ofNat id
  method : h.field (.object o) "method" = .text request.method
  path : h.field (.object o) "path" = .text request.path
  body : h.field (.object o) "body" = .text request.body
  send : (h.instance? o).bind (fun i => i.cls.native? "send") = some (.network .sendReply)

namespace Desk

open Library

/-- What happens at the desk on the way from one machine to another while a log is written, and what
brings it about. -/
inductive Account (call : Caller) : Machine → List Exchange → List Event → Machine → Prop
  /-- The desk is left alone. -/
  | rest {m m' : Machine} {log : List Exchange} (hdesk : m'.desk = m.desk)
      (hreplies : repliesIn log = []) (harrivals : arrivalsIn log = []) : Account call m log [] m'
  | append {m m₁ m₂ : Machine} {first last : List Exchange} {es fs : List Event}
      (h : Account call m first es m₁) (h' : Account call m₁ last fs m₂) :
      Account call m (first ++ last) (es ++ fs) m₂
  /-- A server is opened. -/
  | opened {port actual : Nat} {reference : ListenerRef} {handler v : Value} {m m' : Machine}
      (hrun : (listen port handler m).Run
        [⟨.listen port, (.ok (reference, actual) : Except String (ListenerRef × Nat))⟩]
        (.value v m')) :
      Account call m [⟨.listen port, .ok (reference, actual)⟩]
        [.opened (m.servers.lastServer + 1) reference] m'
  /-- A call of the script closes a server. -/
  | closed {receiver : Option Value} {args : List Value} {id : Nat} {m m' : Machine}
      {log : List Exchange} (hid : handleId? m.heap receiver = some id)
      (hrun : (networkFunction .closeServer receiver args m).Run log (.value (.bool true) m')) :
      Account call m log [.closed id] m'
  /-- A call of the script sends a response; it tells whether that was the answer. -/
  | sent {receiver : Option Value} {args : List Value} {id : Nat} {answered : Bool}
      {m m' : Machine} {log : List Exchange} (hid : handleId? m.heap receiver = some id)
      (hrun : (networkFunction .sendReply receiver args m).Run log
        (.value (.bool answered) m')) :
      Account call m log [.tried (.send (statusOf (argument args 1))
        ((argument args 0).toText m.heap)) id answered] m'
  /-- The loop queues what has arrived, and takes the next thing to do off the queue. -/
  | polled {ready : EventLoop.Ready Value Task} {m m' : Machine} {log : List Exchange}
      (hrun : (nextReady m).Run log (.value ready m')) :
      Account call m log ((arrivalsIn log).map .arrived ++ ready.connections.map .handed) m'
  /-- A request whose server is gone is turned away. -/
  | refused {reference : ListenerRef} (c : ConnectionRef) {m : Machine}
      (hgone : m.servers.handler? reference = none) :
      Account call m [⟨.reply c 404 (Http.reason 404), ()⟩] [.refused reference c] m
  /-- A request is held, and the handler called with it returns. -/
  | handled {reference : ListenerRef} {request : Http.Request} {c : ConnectionRef}
      {handler v : Value} {o : InstanceRef} {m m₁ m' : Machine} {log : List Exchange}
      {es : List Event} (hhandler : m.servers.handler? reference = some handler)
      (hdesk : m₁.desk = ⟨(m.servers.hold c).2, m.desk.queue⟩)
      (hobject : m₁.heap.Carries o request (m.servers.hold c).1)
      (hrun : (call handler [.object o] m₁).Run log (.value v m'))
      (h : Account call m₁ log es m') :
      Account call m log (.dispatched (m.servers.hold c).1 reference c :: es) m'
  /-- A request is held, the handler called with it fails, and its failure is sent. -/
  | failed {reference : ListenerRef} {request : Http.Request} {c : ConnectionRef}
      {handler : Value} {o : InstanceRef} {s : Signal} {answered : Bool} {m m₁ m₂ m' : Machine}
      {log last : List Exchange} {es : List Event}
      (hhandler : m.servers.handler? reference = some handler)
      (hdesk : m₁.desk = ⟨(m.servers.hold c).2, m.desk.queue⟩)
      (hobject : m₁.heap.Carries o request (m.servers.hold c).1)
      (hrun : (call handler [.object o] m₁).Run log (.stopped s m₂))
      (h : Account call m₁ log es m₂)
      (hfailure : (respond (m.servers.hold c).1 500 (Http.reason 500) m₂).Run last
        (.value answered m')) :
      Account call m (log ++ last) (.dispatched (m.servers.hold c).1 reference c ::
        (es ++ [.tried .failure (m.servers.hold c).1 answered])) m'

/-- Courses with an account in which requests are taken up as they leave the queue. -/
def course (call : Caller) : Course where
  leads m log m' := ∃ es, Account call m log es m' ∧ Prompt es
  refl m := ⟨[], .rest rfl rfl rfl, .nil⟩
  trans := fun ⟨_, h, hprompt⟩ ⟨_, h', hprompt'⟩ => ⟨_, h.append h', hprompt.append hprompt'⟩
  plain {m m'} h := by
    have hservers : m'.servers = m.servers := congrArg Office.servers h
    have hloop : m'.loop = m.loop := congrArg Office.loop h
    have hdesk : m'.desk = m.desk := by rw [Machine.desk, hservers, hloop, Machine.desk]
    exact ⟨[], .rest hdesk rfl rfl, .nil⟩
  outer m q a := ⟨[], .rest rfl rfl rfl, .nil⟩
  sleep m duration := ⟨[], .rest rfl rfl rfl, .nil⟩

variable {call : Caller}

/-! What the operations do -/

theorem follows_change {α : Type} {f : Machine → α × Machine} (h : ∀ m, (f m).2.desk = m.desk) :
    Follows (course call) (Eval.change f) := by
  intro m log r hrun m' hm'
  cases hrun
  cases hm'
  exact ⟨[], .rest (h m) rfl rfl, .nil⟩

theorem follows_update {f : Machine → Machine} (h : ∀ m, (f m).desk = m.desk) :
    Follows (course call) (Eval.update f) :=
  follows_change (f := fun m => ((), f m)) h

/-- Asking for anything but a reply or what has arrived. -/
theorem follows_ask {q : Request} (hreplies : ∀ a, repliesIn [⟨q, a⟩] = [])
    (harrivals : ∀ a, arrivalsIn [⟨q, a⟩] = []) : Follows (course call) (Eval.ask q) := by
  intro m log r hrun m' hm'
  cases hrun with
  | asking a h =>
    cases h
    cases hm'
    exact ⟨[], .rest rfl (hreplies a) (harrivals a), .nil⟩

end Desk

namespace Library
open Desk

variable {call : Caller}

/-! Timers -/

theorem schedule_follows (callback : Value) (delay : Nat) (repeating : Bool) :
    Follows (course call) (schedule callback delay repeating) :=
  Follows.bind now_follows fun _ => follows_change fun _ => rfl

theorem cancel_follows (id : Nat) : Follows (course call) (cancel id) := by
  have htasks (l : EventLoop Value Task) : (l.cancel id).2.tasks = l.tasks := by
    unfold EventLoop.cancel
    split <;> rfl
  exact follows_change fun m => congrArg (Desk.mk m.servers) (by rw [htasks])

theorem timerFunction_follows (f : TimerFunction) (args : List Value) :
    Follows (course call) (timerFunction f args) := by
  have hschedule (repeating : Bool) (name : String) :
      Follows (course call) (scheduleArguments args repeating name) := by
    unfold scheduleArguments
    grind [schedule_follows]
  unfold timerFunction
  cases f <;> grind [cancel_follows]

/-! Workers -/

theorem startWorker_follows (spec : String) : Follows (course call) (startWorker spec) := by
  refine Follows.bind (resolve_allowed (D := Course.discipline (course call)) spec) fun p => ?_
  refine Follows.bind (Follows.read _) fun settings => ?_
  refine Follows.bind (follows_ask (fun _ => rfl) fun _ => rfl) fun link => ?_
  exact follows_change fun _ => rfl

theorem hostClass_follows (name : String) (methods : List Native) :
    Follows (course call) (hostClass name methods) :=
  Follows.bind Follows.freshId fun _ => Follows.pure _

theorem newHandle_follows (name : String) (methods : List Native) (id : Nat) :
    Follows (course call) (newHandle name methods id) :=
  Follows.bind (hostClass_follows name methods) fun _ =>
    Follows.bind (Follows.newInstance _ _) fun _ => Follows.pure _

theorem post_follows (link : LinkRef) (direction : Direction) (message : Value) :
    Follows (course call) (post link direction message) :=
  Follows.bind (Follows.textOf message) fun _ =>
    Follows.bind (follows_ask (fun _ => rfl) fun _ => rfl) fun _ => Follows.pure _

theorem poll_follows (link : Option LinkRef) (direction : Direction) :
    Follows (course call) (poll link direction) := by
  cases link with
  | none => exact Follows.newArray _
  | some l =>
    exact Follows.bind (follows_ask (fun _ => rfl) fun _ => rfl) fun _ => Follows.newArray _

theorem closeLink_follows (link : LinkRef) : Follows (course call) (closeLink link) :=
  follows_ask (fun _ => rfl) fun _ => rfl

theorem removeWorker_follows (receiver : Option Value) :
    Follows (course call) (removeWorker receiver) := by
  refine follows_change fun m => ?_
  split <;> rfl

theorem waitForTask_follows (receiver : Option Value) :
    Follows (course call) (waitForTask receiver) := by
  refine Follows.bind (removeWorker_follows receiver) fun link => ?_
  cases link with
  | none => exact Follows.pure _
  | some link =>
    refine Follows.bind (follows_ask (fun _ => rfl) fun _ => rfl) fun message => ?_
    exact Follows.bind (closeLink_follows link) fun _ => Follows.pure _

theorem workerLink?_follows (receiver : Option Value) :
    Follows (course call) (workerLink? receiver) := Follows.read _

theorem workerFunction_follows (f : WorkerFunction) (receiver : Option Value) (args : List Value) :
    Follows (course call) (workerFunction f receiver args) := by
  unfold workerFunction
  cases f <;> grind [startWorker_follows, newHandle_follows, post_follows, poll_follows,
    closeLink_follows, removeWorker_follows, waitForTask_follows, workerLink?_follows]

/-! The network -/

theorem newPromise_follows : Follows (course call) newPromise :=
  Follows.bind (Follows.newArray _) fun _ => Follows.bind (Follows.newArray _) fun _ =>
    Follows.bind (Follows.read _) fun _ => Follows.bind (Follows.newInstance _ _) fun _ =>
      Follows.bind (follows_change fun _ => rfl) fun _ => Follows.pure _

theorem fetch_follows (url : String) : Follows (course call) (fetch url) :=
  Follows.bind newPromise_follows fun _ => Follows.bind (follows_update fun _ => rfl) fun _ =>
    Follows.bind (follows_ask (fun _ => rfl) fun _ => rfl) fun _ => Follows.pure _

/-- Listening opens a server, or fails without one. -/
theorem listen_run {port : Nat} {handler : Value} {m : Machine} {log : List Exchange}
    {r : Ending Value} (h : (listen port handler m).Run log r) :
    (∃ message f, log = [⟨.listen port, (.error message : Except String (ListenerRef × Nat))⟩] ∧
      r = .stopped f m) ∨
    ∃ reference actual v m',
      log = [⟨.listen port, (.ok (reference, actual) : Except String (ListenerRef × Nat))⟩] ∧
      r = .value v m' ∧
      m'.desk = ⟨(m.servers.insert ⟨handler, reference, .new⟩).2, m.desk.queue⟩ := by
  cases h with
  | asking opened h =>
    match opened with
    | .error message =>
      cases h
      exact .inl ⟨message, _, rfl, rfl⟩
    | .ok (reference, actual) =>
      cases h
      exact .inr ⟨reference, actual, _, _, rfl, rfl, rfl⟩

theorem listen_follows (port : Nat) (handler : Value) :
    Follows (course call) (listen port handler) := by
  intro m log r hrun m' hm'
  obtain ⟨message, f, rfl, rfl⟩ | ⟨reference, actual, v, m₁, rfl, rfl, -⟩ := listen_run hrun
  · cases hm'
    exact ⟨[], .rest rfl rfl rfl, .nil⟩
  · cases hm'
    exact ⟨_, .opened hrun, .single rfl rfl⟩

theorem release_tasks (c : ListenerControl) (l : EventLoop Value Task) :
    (c.release l).2.tasks = l.tasks := by
  unfold ListenerControl.release
  split <;> rfl

theorem remove_of_lookup {t : ServerTable} {id : Nat} (h : t.listeners.lookup id = none) :
    (t.remove id).2 = t := by
  have hall : t.listeners.filter (fun s => s.1 != id) = t.listeners :=
    List.filter_eq_self.2 fun s hs => bne_comm.trans (List.lookup_eq_none_iff.1 h s hs)
  simp only [ServerTable.remove, hall]

/-- Stopping a server forgets it and tells whether it was there. -/
theorem stopServer_run {id : Nat} {m : Machine} {log : List Exchange} {r : Ending Bool}
    (h : (stopServer id m).Run log r) : ∃ m',
      r = .value (m.servers.listeners.lookup id).isSome m' ∧
      m'.desk = ⟨(m.servers.remove id).2, m.desk.queue⟩ ∧
      repliesIn log = [] ∧ arrivalsIn log = [] ∧ log.length ≤ 1 := by
  obtain ⟨_, e, last, rfl, hchange, hlast⟩ := run_bind.1 h
  unfold Eval.change at hchange
  cases hlookup : m.servers.listeners.lookup id with
  | none =>
    simp only [ServerTable.remove, hlookup] at hchange
    cases hchange
    cases hlast
    exact ⟨m, rfl, by rw [remove_of_lookup hlookup]; rfl, rfl, rfl, Nat.zero_le _⟩
  | some l =>
    simp only [ServerTable.remove, hlookup] at hchange
    cases hchange
    cases hlast with
    | asking _ hlast =>
      cases hlast
      exact ⟨_, rfl, by rw [Machine.desk, release_tasks]; rfl, rfl, rfl, Nat.le_refl _⟩

/-- The method by which a script closes a server. -/
theorem closeServer_run {receiver : Option Value} {args : List Value} {id : Nat} {m : Machine}
    {log : List Exchange} {r : Ending Value} (hid : handleId? m.heap receiver = some id)
    (h : (networkFunction .closeServer receiver args m).Run log r) : ∃ m',
      r = .value (.bool (m.servers.listeners.lookup id).isSome) m' ∧
      m'.desk = ⟨(m.servers.remove id).2, m.desk.queue⟩ ∧
      repliesIn log = [] ∧ arrivalsIn log = [] ∧ log.length ≤ 1 := by
  unfold networkFunction at h
  dsimp only at h
  rw [read_bind, hid] at h
  obtain ⟨first, e, last, rfl, hstop, hlast⟩ := run_bind.1 h
  obtain ⟨m', rfl, hrest⟩ := stopServer_run hstop
  cases hlast
  rw [List.append_nil]
  exact ⟨m', rfl, hrest⟩

/-- Answering lets go of a held connection and tells whether there was one. -/
theorem respond_run {id status : Nat} {body : String} {m : Machine} {log : List Exchange}
    {r : Ending Bool} (h : (respond id status body m).Run log r) :
    r = .value (m.servers.take id).1.isSome { m with servers := (m.servers.take id).2 } ∧
    repliesIn log = (m.servers.take id).1.toList.map (⟨·, status, body⟩) ∧ arrivalsIn log = [] ∧
    log.length ≤ 1 := by
  obtain ⟨_, e, last, rfl, hchange, hlast⟩ := run_bind.1 h
  obtain rfl : e = .value (m.servers.take id).1 { m with servers := (m.servers.take id).2 } := by
    cases hchange
    rfl
  cases hchange
  cases hlookup : (m.servers.take id).1 with
  | none =>
    rw [Eval.andThen, hlookup] at hlast
    cases hlast
    exact ⟨rfl, rfl, rfl, Nat.zero_le _⟩
  | some c =>
    rw [Eval.andThen, hlookup] at hlast
    cases hlast with
    | asking _ hlast =>
      cases hlast
      exact ⟨rfl, rfl, rfl, Nat.le_refl _⟩

/-- The method by which a script sends a response answers with its arguments. -/
theorem sendReply_run {receiver : Option Value} {args : List Value} {id : Nat} {m : Machine}
    {log : List Exchange} {r : Ending Value} (hid : handleId? m.heap receiver = some id)
    (h : (networkFunction .sendReply receiver args m).Run log r) : ∃ answered m',
      r = .value (.bool answered) m' ∧ (respond id (statusOf (argument args 1))
        ((argument args 0).toText m.heap) m).Run log (.value answered m') := by
  unfold networkFunction at h
  dsimp only at h
  rw [read_bind, hid] at h
  obtain ⟨_, _, log', rfl, htext, h⟩ := run_bind.1 h
  cases htext
  obtain ⟨first, e, last, rfl, hrespond, hlast⟩ := run_bind.1 h
  obtain ⟨rfl, -⟩ := respond_run hrespond
  cases hlast
  rw [List.nil_append, List.append_nil]
  exact ⟨_, _, rfl, hrespond⟩

theorem networkFunction_follows (f : NetworkFunction) (receiver : Option Value)
    (args : List Value) : Follows (course call) (networkFunction f receiver args) := by
  cases f with
  | fetch =>
    unfold networkFunction
    grind [fetch_follows]
  | listen =>
    unfold networkFunction
    grind [listen_follows]
  | closeServer =>
    intro m log r hrun m' hm'
    cases hid : handleId? m.heap receiver with
    | none =>
      unfold networkFunction at hrun
      dsimp only at hrun
      rw [read_bind, hid] at hrun
      exact Follows.pure _ hrun m' hm'
    | some id =>
      obtain ⟨m₁, rfl, hdesk, hreplies, harrivals, -⟩ := closeServer_run hid hrun
      cases hm'
      cases hlookup : m.servers.listeners.lookup id with
      | none =>
        rw [remove_of_lookup hlookup] at hdesk
        exact ⟨[], .rest hdesk hreplies harrivals, .nil⟩
      | some l =>
        rw [hlookup] at hrun
        exact ⟨_, .closed hid hrun, .single rfl rfl⟩
  | sendReply =>
    intro m log r hrun m' hm'
    cases hid : handleId? m.heap receiver with
    | none =>
      unfold networkFunction at hrun
      dsimp only at hrun
      rw [read_bind, hid] at hrun
      exact Follows.pure _ hrun m' hm'
    | some id =>
      obtain ⟨answered, m₁, rfl, -⟩ := sendReply_run hid hrun
      cases hm'
      exact ⟨_, .sent hid hrun, .single rfl rfl⟩

/-! Requests -/

/-- The object that is made for a handler. -/
theorem carries_newInstance (h : Heap) (cls : Nat) (request : Http.Request) (id : Nat) :
    (h.newInstance ⟨.mk cls "Request" none [] requestMethods, .ofList [("id", .ofNat id),
      ("method", .text request.method), ("path", .text request.path),
      ("body", .text request.body)]⟩).2.Carries ⟨h.instances.size⟩ request id := by
  have hobject (i : Instance) : (h.newInstance i).2.instance? ⟨h.instances.size⟩ = some i := by
    simp [Heap.newInstance, Heap.instance?]
  have hfield (i : Instance) (key : String) :
      (h.newInstance i).2.field (.object ⟨h.instances.size⟩) key =
        (i.fields.get? key).getD .nil := by
    rw [Heap.field, Heap.field?, hobject]
    rfl
  constructor
  case send => exact congrArg (Option.bind · _) (hobject _)
  all_goals
    rw [hfield]
    simp [Fields.ofList, Fields.get?_insert]

/-- The handler is called with an object that carries the request. If the call fails, the failure is
sent before it is passed on. -/
theorem handle_run {handler : Value} {request : Http.Request} {id : Nat} {m : Machine}
    {log : List Exchange} {r : Ending Unit} (h : (handle call handler request id m).Run log r) :
    ∃ o m₁ first e, m₁.desk = m.desk ∧ m₁.heap.Carries o request id ∧
      (call handler [.object o] m₁).Run first e ∧
      match e with
      | .value _ m₂ => log = first ∧ r = .value () m₂
      | .stopped s m₂ => ∃ answered m₃ last, log = first ++ last ∧
        (respond id 500 (Http.reason 500) m₂).Run last (.value answered m₃) ∧ r = .stopped s m₃
      | .exhausted => r = .exhausted := by
  obtain ⟨_, _, _, rfl, hcls, h⟩ := run_bind.1 h
  cases hcls
  obtain ⟨_, _, _, rfl, hobject, h⟩ := run_bind.1 h
  cases hobject
  obtain ⟨first, outcome, last, rfl, hattempt, hlast⟩ := run_bind.1 h
  obtain ⟨e, he, rfl⟩ := run_attempt.1 hattempt
  refine ⟨_, _, first, e, ?_, carries_newInstance m.heap m.nextId request id, he, ?_⟩
  · rfl
  cases e with
  | value v m₂ =>
    cases hlast
    exact ⟨List.append_nil first, rfl⟩
  | exhausted =>
    cases hlast
    rfl
  | stopped s m₂ =>
    obtain ⟨_, _, _, rfl, hdiscard, hstop⟩ := run_bind.1 hlast
    obtain ⟨_, _, _, rfl, hrespond, hpure⟩ := run_bind.1 hdiscard
    obtain ⟨rfl, -⟩ := respond_run hrespond
    cases hpure
    cases hstop
    exact ⟨_, _, _, by simp, hrespond, rfl⟩

/-- A request is turned away, or taken up with all that its handler does. -/
theorem dispatch_account (hcall : ∀ callee args, Follows (course call) (call callee args))
    {reference : ListenerRef} {request : Http.Request} {c : ConnectionRef} {m m' : Machine}
    {log : List Exchange} {r : Ending Unit}
    (hrun : (dispatch call reference request c m).Run log r) (hm' : m' ∈ r.machine?) :
    ∃ e es, Account call m log (e :: es) m' ∧ e.taken? = some c ∧ Prompt es := by
  unfold dispatch at hrun
  rw [read_bind] at hrun
  cases hhandler : m.servers.handler? reference with
  | none =>
    rw [hhandler] at hrun
    cases hrun with
    | asking _ hrun =>
      cases hrun
      cases hm'
      exact ⟨_, [], .refused c hhandler, rfl, .nil⟩
  | some handler =>
    rw [hhandler] at hrun
    obtain ⟨o, m₁, first, e, hdesk, hobject, he, hend⟩ := handle_run
      (m := { m with servers := (m.servers.hold c).2 }) hrun
    cases e with
    | value v m₂ =>
      obtain ⟨rfl, rfl⟩ := hend
      cases hm'
      obtain ⟨es, h, hprompt⟩ := hcall handler [.object o] he _ rfl
      exact ⟨_, es, .handled hhandler hdesk hobject he h, rfl, hprompt⟩
    | stopped s m₂ =>
      obtain ⟨answered, m₃, last, rfl, hfailure, rfl⟩ := hend
      cases hm'
      obtain ⟨es, h, hprompt⟩ := hcall handler [.object o] he m₂ rfl
      exact ⟨_, _, .failed hhandler hdesk hobject he h hfailure, rfl,
        hprompt.append (.single rfl rfl)⟩
    | exhausted =>
      subst hend
      cases hm'

end Library

theorem Desk.conduct (call : Library.Caller) : Conduct (Desk.course call) where
  timer := Library.timerFunction_follows
  worker := Library.workerFunction_follows
  network := Library.networkFunction_follows

end ScriptEngine
