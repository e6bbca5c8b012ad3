import Mathlib.Data.List.Chain
import ScriptEngine.Engine.Start
import ScriptEngine.Proofs.Evaluation.Watch
import ScriptEngine.Proofs.Value.Fields

/-!
# Settling a promise

Callbacks that are registered while a promise is pending wait in one queue for each way of settling
it. Settling takes the queue that matches and calls its callbacks in turn, until one of them fails.
-/
namespace ScriptEngine.Library

/-- How a promise is settled by what came of a request. -/
def settlementOf : Fetched → Settlement
  | .ok _ => .resolved
  | .error _ => .rejected

/-- The value that a promise is settled with. -/
def settledValue : Fetched → Value
  | .ok body => .text body
  | .error message => .text message

/-- The callbacks that a method of promises registers. -/
def kindOf : PromiseMethod → Settlement
  | .onResolve => .resolved
  | .onReject => .rejected

/-- A pending promise whose two queues hold the given callbacks. -/
structure Awaits (m : Machine) (ticket : Nat) (promise : InstanceRef)
    (callbacks : Settlement → List Value) : Prop where
  ticket : m.promises.pending.lookup ticket = some promise
  status : m.heap.field? promise "status" = some (.text pendingStatus)
  queues : ∃ queue : Settlement → ArrayRef, queue .resolved ≠ queue .rejected ∧
    ∀ kind, m.heap.field? promise kind.queue = some (.array (queue kind)) ∧
      m.heap.arrays[(queue kind).index]? = some (callbacks kind).toArray

/-- The status of the promise is that of the settlement. -/
def HasStatus (promise : InstanceRef) (outcome : Fetched) (m : Machine) : Prop :=
  m.heap.field? promise "status" = some (.text (settlementOf outcome).status)

/-- A settled promise whose ticket is spent and whose queues are empty. -/
structure Settled (m : Machine) (ticket : Nat) (promise : InstanceRef) (outcome : Fetched) :
    Prop where
  ticket : m.promises.pending.lookup ticket = none
  status : HasStatus promise outcome m
  value : m.heap.field? promise "value" = some (settledValue outcome)
  queues (kind : Settlement) :
    ∃ r, m.heap.field? promise kind.queue = some (.array r) ∧ m.heap.array r = #[]

/-- Nothing about a pending promise has changed from one machine to another. -/
structure Untouched (ticket : Nat) (promise : InstanceRef) (m m' : Machine) : Prop where
  ticket : m'.promises.pending.lookup ticket = m.promises.pending.lookup ticket
  fields : m'.heap.instance? promise = m.heap.instance? promise
  queues (kind : Settlement) (r : ArrayRef) :
    m.heap.field? promise kind.queue = some (.array r) →
      m'.heap.arrays[r.index]? = m.heap.arrays[r.index]?

/-- The callbacks registered with a promise, in their order, from its making up to a machine on
which it is still pending. -/
inductive Registered (ticket : Nat) (promise : InstanceRef) :
    List (Settlement × Value) → Machine → Prop
  | made {m m' : Machine} (hm : ∀ p ∈ m.promises.pending, p.1 ≤ m.promises.lastTicket)
      (h : newPromise m = .finished (.value (ticket, promise) m')) : Registered ticket promise [] m'
  | subscribed {rs : List (Settlement × Value)} {m m' : Machine}
      (h : Registered ticket promise rs m) (call : Caller) (method : PromiseMethod)
      (args : List Value) {log : List ((q : Request) × q.Answer)} {v : Value}
      (hrun : (promiseMethod call method (some (.object promise)) args m).Run log (.value v m')) :
      Registered ticket promise (rs ++ [(kindOf method, argument args 0)]) m'
  | elsewhere {rs : List (Settlement × Value)} {m m' : Machine} (h : Registered ticket promise rs m)
      (hm : Untouched ticket promise m m') : Registered ticket promise rs m'

/-- The callbacks of one kind. -/
def ofKind (kind : Settlement) (rs : List (Settlement × Value)) : List Value :=
  rs.filterMap fun r => if r.1 = kind then some r.2 else none

theorem ofKind_append_singleton (kind : Settlement) (rs : List (Settlement × Value))
    (r : Settlement × Value) :
    ofKind kind (rs ++ [r]) = if r.1 = kind then ofKind kind rs ++ [r.2] else ofKind kind rs := by
  by_cases h : r.1 = kind <;> simp [ofKind, h]

/-- The fields of a new promise with two queues. -/
def pendingFields (queue : Settlement → ArrayRef) : Fields Value :=
  .ofList [("status", .text pendingStatus), ("value", .nil),
    (Settlement.resolved.queue, .array (queue .resolved)),
    (Settlement.rejected.queue, .array (queue .rejected))]

/-- The places of the two queues of the next promise. -/
def nextQueue (h : Heap) : Settlement → ArrayRef
  | .resolved => ⟨h.arrays.size⟩
  | .rejected => ⟨h.arrays.size + 1⟩

/-- A machine with a new promise. -/
def promised (m : Machine) : Machine :=
  { m with
    heap := ⟨(m.heap.arrays.push #[]).push #[],
      m.heap.instances.push ⟨m.promiseClass, pendingFields (nextQueue m.heap)⟩⟩
    promises := ⟨m.promises.lastTicket + 1,
      m.promises.pending ++ [(m.promises.lastTicket + 1, ⟨m.heap.instances.size⟩)]⟩ }

theorem newPromise_eq (m : Machine) :
    newPromise m = .finished (.value (m.promises.lastTicket + 1, ⟨m.heap.instances.size⟩)
      (promised m)) := by
  simp only [promised, nextQueue, pendingFields, ← Array.size_push #[]]
  rfl

theorem pendingFields_status (queue : Settlement → ArrayRef) :
    (pendingFields queue).get? "status" = some (.text pendingStatus) := by
  simp [pendingFields, Fields.ofList, Fields.get?_insert, Settlement.queue]

theorem pendingFields_queue (queue : Settlement → ArrayRef) (kind : Settlement) :
    (pendingFields queue).get? kind.queue = some (.array (queue kind)) := by
  cases kind <;> simp [pendingFields, Fields.ofList, Fields.get?_insert, Settlement.queue]

theorem field?_promised_status (m : Machine) :
    (promised m).heap.field? ⟨m.heap.instances.size⟩ "status" = some (.text pendingStatus) := by
  simp [promised, Heap.field?, Heap.instance?, pendingFields_status]

theorem field?_promised_queue (m : Machine) (kind : Settlement) :
    (promised m).heap.field? ⟨m.heap.instances.size⟩ kind.queue =
      some (.array (nextQueue m.heap kind)) := by
  simp [promised, Heap.field?, Heap.instance?, pendingFields_queue]

/-- The next two arrays come behind all others. -/
theorem getElem?_nextQueue {h : Heap} {arrays : Array (Array Value)}
    (hsize : arrays.size = h.arrays.size) (items : Array Value) (kind : Settlement) :
    ((arrays.push items).push items)[(nextQueue h kind).index]? = some items := by
  cases kind with
  | resolved =>
    change ((arrays.push items).push items)[h.arrays.size]? = some items
    have hfront : h.arrays.size ≠ (arrays.push items).size := by rw [Array.size_push]; omega
    rw [Array.getElem?_push, if_neg hfront, Array.getElem?_push, if_pos hsize.symm]
  | rejected =>
    change ((arrays.push items).push items)[h.arrays.size + 1]? = some items
    rw [Array.getElem?_push, if_pos (by rw [Array.size_push, hsize])]

/-- The queues of a new promise are empty. -/
theorem getElem?_promised_queue (m : Machine) (kind : Settlement) :
    (promised m).heap.arrays[(nextQueue m.heap kind).index]? = some #[] :=
  getElem?_nextQueue rfl #[] kind

theorem awaits_newPromise {m m' : Machine} {ticket : Nat} {promise : InstanceRef}
    (hm : ∀ p ∈ m.promises.pending, p.1 ≤ m.promises.lastTicket)
    (h : newPromise m = .finished (.value (ticket, promise) m')) :
    Awaits m' ticket promise fun _ => [] := by
  rw [newPromise_eq] at h
  cases h
  have hfresh : m.promises.pending.lookup (m.promises.lastTicket + 1) = none := by
    rw [List.lookup_eq_none_iff]
    intro p hp
    have := hm p hp
    simp
    omega
  refine ⟨?_, field?_promised_status m, nextQueue m.heap, by simp [nextQueue], fun kind =>
    ⟨field?_promised_queue m kind, getElem?_promised_queue m kind⟩⟩
  simp [promised, List.lookup_append, hfresh]

/-- Registering with a pending promise puts the callback at the end of its queue, and does nothing
else. -/
theorem promiseMethod_pending {m : Machine} {promise : InstanceRef} {method : PromiseMethod}
    {queue : ArrayRef} (hstatus : m.heap.field? promise "status" = some (.text pendingStatus))
    (hqueue : m.heap.field? promise (kindOf method).queue = some (.array queue)) (call : Caller)
    (args : List Value) :
    promiseMethod call method (some (.object promise)) args m = .finished (.value (.object promise)
      { m with heap := m.heap.modifyArray queue fun a => a.push (argument args 0) }) := by
  have hother (kind : Settlement) : pendingStatus ≠ kind.status := by cases kind <;> decide
  cases method <;> rw [kindOf] at hqueue <;>
    simp [promiseMethod, subscribe, bind, Eval.bind, Eval.read, Heap.field, hstatus, hqueue, hother,
      Eval.update, pure, Eval.pure]

theorem Awaits.register {m : Machine} {ticket : Nat} {promise : InstanceRef}
    {callbacks : Settlement → List Value} (h : Awaits m ticket promise callbacks) (call : Caller)
    (method : PromiseMethod) (args : List Value) :
    ∃ m', promiseMethod call method (some (.object promise)) args m =
        .finished (.value (.object promise) m') ∧
      Awaits m' ticket promise fun kind =>
        if kindOf method = kind then callbacks kind ++ [argument args 0] else callbacks kind := by
  obtain ⟨hticket, hstatus, queue, hne, hqueue⟩ := h
  refine ⟨_, promiseMethod_pending hstatus (hqueue _).1 call args, hticket, hstatus, queue, hne,
    fun kind => ⟨(hqueue kind).1, ?_⟩⟩
  have hplace : (queue (kindOf method)).index = (queue kind).index ↔ kindOf method = kind := by
    have hne' : (queue .resolved).index ≠ (queue .rejected).index :=
      fun h => hne (congrArg ArrayRef.mk h)
    cases kindOf method <;> cases kind <;> simp [hne', hne'.symm]
  simp only [Heap.modifyArray, Array.getElem?_modify, hplace, (hqueue kind).2]
  split <;> simp

theorem Awaits.untouched {m m' : Machine} {ticket : Nat} {promise : InstanceRef}
    {callbacks : Settlement → List Value} (h : Awaits m ticket promise callbacks)
    (hm : Untouched ticket promise m m') : Awaits m' ticket promise callbacks := by
  have hfield (key : String) : m'.heap.field? promise key = m.heap.field? promise key := by
    rw [Heap.field?, hm.fields, Heap.field?]
  obtain ⟨hticket, hstatus, queue, hne, hqueue⟩ := h
  refine ⟨hm.ticket.trans hticket, (hfield _).trans hstatus, queue, hne, fun kind => ⟨?_, ?_⟩⟩
  · rw [hfield, (hqueue kind).1]
  · rw [hm.queues kind _ (hqueue kind).1, (hqueue kind).2]

/-- The queues hold what was registered, each kind in the order of registration. -/
theorem Registered.awaits {ticket : Nat} {promise : InstanceRef} {rs : List (Settlement × Value)}
    {m : Machine} (h : Registered ticket promise rs m) :
    Awaits m ticket promise fun kind => ofKind kind rs := by
  induction h with
  | made hm h => exact awaits_newPromise hm h
  | @subscribed rs m m' _ call method args log v hrun ih =>
    obtain ⟨m'', heq, hawaits⟩ := ih.register call method args
    rw [heq] at hrun
    cases hrun
    simpa only [ofKind_append_singleton] using hawaits
  | elsewhere _ hm ih => exact ih.untouched hm

/-- Calls callbacks on a value, one after the other. -/
def callEach (call : Caller) (value : Value) (callbacks : List Value) : Eval Unit :=
  Eval.forEach (fun callback => do discard (call callback [value])) callbacks

/-- The heap on which the callbacks of a promise are called: the promise is settled, the queue that
was taken is empty, and the promise has two new ones. -/
def settledHeap (h : Heap) (promise : InstanceRef) (kind : Settlement) (value : Value)
    (queue : ArrayRef) : Heap :=
  let taken := ((h.setField promise "status" (.text kind.status)).setField promise "value"
    value).modifyArray queue fun _ => #[]
  let resolved := (taken.newArray #[]).2.setField promise Settlement.resolved.queue
    (.array (taken.newArray #[]).1)
  (resolved.newArray #[]).2.setField promise Settlement.rejected.queue
    (.array (resolved.newArray #[]).1)

theorem Settlement.queue_ne (kind : Settlement) : kind.queue ≠ "status" ∧ kind.queue ≠ "value" := by
  cases kind <;> decide

theorem field?_settled {h : Heap} {promise : InstanceRef} (hp : (h.instance? promise).isSome)
    (kind : Settlement) (value : Value) (key : String) :
    ((h.setField promise "status" (.text kind.status)).setField promise "value" value).field?
        promise key =
      if key = "value" then some value else
        if key = "status" then some (.text kind.status) else h.field? promise key := by
  rw [Heap.field?_setField _ _ _ (by simpa using hp), Heap.field?_setField _ _ _ hp]

/-- The fields of the promise when its callbacks are called. -/
theorem field?_settledHeap {h : Heap} {promise : InstanceRef} (hp : (h.instance? promise).isSome)
    (kind : Settlement) (value : Value) (queue : ArrayRef) (key : String) :
    (settledHeap h promise kind value queue).field? promise key =
      if key = Settlement.rejected.queue then some (.array (nextQueue h .rejected))
      else if key = Settlement.resolved.queue then some (.array (nextQueue h .resolved))
      else if key = "value" then some value
      else if key = "status" then some (.text kind.status)
      else h.field? promise key := by
  simp [settledHeap, Heap.field?_setField, hp]
  simp [Heap.newArray, Heap.setField, Heap.modifyArray, nextQueue]

theorem arrays_settledHeap (h : Heap) (promise : InstanceRef) (kind : Settlement) (value : Value)
    (queue : ArrayRef) :
    (settledHeap h promise kind value queue).arrays =
      ((h.arrays.modify queue.index fun _ => #[]).push #[]).push #[] := rfl

/-- The queues of a settled promise are empty. -/
theorem getElem?_settledHeap_nextQueue (h : Heap) (promise : InstanceRef) (kind : Settlement)
    (value : Value) (queue : ArrayRef) (kind' : Settlement) :
    (settledHeap h promise kind value queue).arrays[(nextQueue h kind').index]? = some #[] := by
  rw [arrays_settledHeap]
  exact getElem?_nextQueue Array.size_modify #[] kind'

theorem array_settledHeap (h : Heap) (promise : InstanceRef) (kind : Settlement) (value : Value)
    (queue : ArrayRef) (kind' : Settlement) :
    (settledHeap h promise kind value queue).array (nextQueue h kind') = #[] :=
  Heap.array_of_getElem? (getElem?_settledHeap_nextQueue h promise kind value queue kind')

theorem settle_eq {m : Machine} {ticket : Nat} {promise : InstanceRef} {outcome : Fetched}
    {queue : ArrayRef} (hticket : m.promises.pending.lookup ticket = some promise)
    (hqueue : m.heap.field? promise (settlementOf outcome).queue = some (.array queue))
    (call : Caller) :
    settle call ticket outcome m =
      callEach call (settledValue outcome) (m.heap.array queue).toList
        { m with
          heap := settledHeap m.heap promise (settlementOf outcome) (settledValue outcome) queue
          promises := { m.promises with
            pending := m.promises.pending.filter fun p => p.1 != ticket } } := by
  have htake : takePromise ticket m = .finished (.value (some promise) { m with
      promises := { m.promises with
        pending := m.promises.pending.filter fun p => p.1 != ticket } }) := by
    rw [takePromise, Eval.change, hticket]
  have hinstance := Heap.isSome_instance?_of_field? hqueue
  have hread (kind : Settlement) (value : Value)
      (hqueue : m.heap.field? promise kind.queue = some (.array queue)) :
      ((m.heap.setField promise "status" (.text kind.status)).setField promise "value" value).field?
        promise kind.queue = some (.array queue) := by
    rw [field?_settled hinstance, if_neg kind.queue_ne.2, if_neg kind.queue_ne.1, hqueue]
  unfold settle
  change Eval.bind (takePromise ticket) _ m = _
  rw [Eval.bind_apply, htake]
  cases outcome with
  | ok body =>
    change Eval.bind (takeCallbacks (Heap.field? ((m.heap.setField promise "status"
      (.text Settlement.resolved.status)).setField promise "value" (.text body)) promise
        Settlement.resolved.queue)) _ _ = _
    rw [Eval.bind_apply, hread .resolved (.text body) hqueue]
    rfl
  | error message =>
    change Eval.bind (takeCallbacks (Heap.field? ((m.heap.setField promise "status"
      (.text Settlement.rejected.status)).setField promise "value" (.text message)) promise
        Settlement.rejected.queue)) _ _ = _
    rw [Eval.bind_apply, hread .rejected (.text message) hqueue]
    rfl

theorem Awaits.settles {m : Machine} {ticket : Nat} {promise : InstanceRef}
    {callbacks : Settlement → List Value} (h : Awaits m ticket promise callbacks) (call : Caller)
    (outcome : Fetched) :
    ∃ m', settle call ticket outcome m =
        callEach call (settledValue outcome) (callbacks (settlementOf outcome)) m' ∧
      Settled m' ticket promise outcome := by
  obtain ⟨hticket, -, queue, -, hqueue⟩ := h
  obtain ⟨hfield, harray⟩ := hqueue (settlementOf outcome)
  have hinstance := Heap.isSome_instance?_of_field? hfield
  have hcallbacks : (m.heap.array (queue (settlementOf outcome))).toList =
      callbacks (settlementOf outcome) := by
    simp [Heap.array, harray]
  refine ⟨_, (settle_eq hticket hfield call).trans (by rw [hcallbacks]), ?_, ?_, ?_, fun kind => ?_⟩
  · rw [List.lookup_eq_none_iff]
    intro p hp
    have := (List.mem_filter.1 hp).2
    simpa [bne, Bool.beq_comm] using this
  · simp [HasStatus, field?_settledHeap hinstance, Settlement.queue]
  · simp [field?_settledHeap hinstance, Settlement.queue]
  · refine ⟨nextQueue m.heap kind, ?_, array_settledHeap ..⟩
    cases kind <;> simp [field?_settledHeap hinstance, Settlement.queue]

/-- A call that was made: of which callback, on which machine it began, and how it ended. -/
structure Called where
  callback : Value
  start : Machine
  ending : Ending Value

/-- The ending of calls in turn whose last one ended like this. -/
def ended : Ending Value → Ending Unit
  | .value _ m => .value () m
  | .stopped s m => .stopped s m
  | .exhausted => .exhausted

/-- The calls that are made in turn, from a machine on: each callback begins where the one before it
returned, and after one that does not return no other is called. -/
inductive InTurn (call : Caller) (value : Value) : List Value → Machine → List Called →
    List ((q : Request) × q.Answer) → Ending Unit → Prop
  | done (m : Machine) : InTurn call value [] m [] [] (.value () m)
  | returned {c : Value} {cs : List Value} {m m' : Machine} {v : Value} {calls : List Called}
      {log later : List ((q : Request) × q.Answer)} {r : Ending Unit}
      (h : (call c [value] m).Run log (.value v m')) (hcs : InTurn call value cs m' calls later r) :
      InTurn call value (c :: cs) m (⟨c, m, .value v m'⟩ :: calls) (log ++ later) r
  | failed {c : Value} {cs : List Value} {m : Machine} {log : List ((q : Request) × q.Answer)}
      {e : Ending Value} (h : (call c [value] m).Run log e) (he : ∀ v m', e ≠ .value v m') :
      InTurn call value (c :: cs) m [⟨c, m, e⟩] log (ended e)

theorem callEach_cons (call : Caller) (value c : Value) (cs : List Value) (m : Machine) :
    callEach call value (c :: cs) m = (call c [value] m).bind fun e =>
      Eval.andThen (fun _ => callEach call value cs) (ended e) := by
  have hdiscard : (discard (call c [value]) : Eval Unit) m =
      (call c [value] m).bind fun e => .finished (ended e) := by
    change Eval.bind (call c [value]) (fun _ => Eval.pure ()) m = _
    rw [Eval.bind_apply]
    refine congrArg _ (funext fun e => ?_)
    cases e <;> rfl
  rw [callEach, Eval.forEach, Eval.foldList_cons]
  change Dialogue.bind ((discard (call c [value]) : Eval Unit) m) _ = _
  rw [hdiscard, Dialogue.bind_assoc]
  rfl

/-- The runs through a list of callbacks are the calls made in turn. -/
theorem callEach_run {call : Caller} {value : Value} {callbacks : List Value} {m : Machine}
    {log : List ((q : Request) × q.Answer)} {r : Ending Unit} :
    (callEach call value callbacks m).Run log r ↔
      ∃ calls, InTurn call value callbacks m calls log r := by
  induction callbacks generalizing m log with
  | nil =>
    constructor
    · intro h
      cases h
      exact ⟨[], .done m⟩
    · rintro ⟨_, h⟩
      cases h
      exact .finished _
  | cons c cs ih =>
    rw [callEach_cons, Dialogue.run_bind]
    constructor
    · rintro ⟨first, e, later, rfl, hfirst, hlater⟩
      cases e with
      | value v m' =>
        obtain ⟨calls, hcalls⟩ := ih.1 hlater
        exact ⟨_, .returned hfirst hcalls⟩
      | stopped s m' =>
        cases hlater
        exact ⟨_, by simpa using .failed hfirst nofun⟩
      | exhausted =>
        cases hlater
        exact ⟨_, by simpa using .failed hfirst nofun⟩
    · rintro ⟨calls, hcalls⟩
      cases hcalls with
      | returned h hcs => exact ⟨_, _, _, rfl, h, ih.2 ⟨_, hcs⟩⟩
      | @failed _ _ _ _ e h he =>
        refine ⟨log, e, [], by simp, h, ?_⟩
        cases e with
        | value v m' => exact absurd rfl (he v m')
        | stopped s m' => exact .finished _
        | exhausted => exact .finished _

namespace InTurn

variable {call : Caller} {value : Value} {callbacks : List Value} {m : Machine}
  {calls : List Called} {log : List ((q : Request) × q.Answer)} {r : Ending Unit}

/-- Callbacks are called in their order, each at most once. -/
theorem callbacks_in_order (h : InTurn call value callbacks m calls log r) :
    calls.map Called.callback <+: callbacks := by
  induction h with
  | done => exact List.prefix_rfl
  | returned _ _ ih => exact List.cons_prefix_cons.2 ⟨rfl, ih⟩
  | failed => exact List.cons_prefix_cons.2 ⟨rfl, List.nil_prefix⟩

/-- Every call is made with the value, begins where the one before it returned, and all but the last
return. -/
theorem chain (h : InTurn call value callbacks m calls log r) :
    (∀ c ∈ calls, ∃ log, (call c.callback [value] c.start).Run log c.ending) ∧
      (∀ c ∈ calls.head?, c.start = m) ∧
      calls.IsChain fun c d => ∃ v, c.ending = .value v d.start := by
  induction h with
  | done => simp
  | @returned c cs m m' v calls log later r h hcs ih =>
    obtain ⟨hruns, hhead, hchain⟩ := ih
    refine ⟨?_, by simp, ?_⟩
    · rintro d (_ | ⟨_, hd⟩)
      · exact ⟨log, h⟩
      · exact hruns d hd
    · rw [List.isChain_cons]
      exact ⟨fun d hd => ⟨v, by rw [hhead d hd]⟩, hchain⟩
  | @failed c cs m log e h he =>
    refine ⟨?_, by simp, by simp⟩
    rintro d (_ | ⟨_, hd⟩)
    · exact ⟨log, h⟩
    · cases hd

/-- What holds at the start and is kept by every call that returns holds whenever a call begins. -/
theorem invariant (h : InTurn call value callbacks m calls log r) {I : Machine → Prop} (hm : I m)
    (hkept : ∀ c ∈ calls, ∀ v m', c.ending = .value v m' → I c.start → I m') :
    ∀ c ∈ calls, I c.start := by
  induction h with
  | done => simp
  | @returned c cs m m' v calls log later r h hcs ih =>
    have hnext := ih (hkept _ List.mem_cons_self v m' rfl hm) fun d hd =>
      hkept d (List.mem_cons_of_mem _ hd)
    rintro d (_ | ⟨_, hd⟩)
    · exact hm
    · exact hnext d hd
  | failed => simpa using hm

/-- Either every callback is called and returns, or the last one called is the only one that does
not return, and everything ends the way it does. -/
theorem all_or_failed (h : InTurn call value callbacks m calls log r) :
    (calls.map Called.callback = callbacks ∧ (∀ c ∈ calls, ∃ v m', c.ending = .value v m') ∧
        ∃ m', r = .value () m') ∨
      ∃ last ∈ calls.getLast?, (∀ v m', last.ending ≠ .value v m') ∧ r = ended last.ending := by
  induction h with
  | done m => exact .inl ⟨rfl, by simp, m, rfl⟩
  | @returned c cs m m' v calls log later r h hcs ih =>
    rcases ih with ⟨hall, hreturned, hr⟩ | ⟨last, hlast, hfailed, hr⟩
    · left
      refine ⟨by simp [hall], ?_, hr⟩
      rintro d (_ | ⟨_, hd⟩)
      · exact ⟨v, m', rfl⟩
      · exact hreturned d hd
    · exact .inr ⟨last, by simp_all [List.getLast?_cons], hfailed, hr⟩
  | @failed c cs m log e h he => exact .inr ⟨_, rfl, he, rfl⟩

end InTurn

/-- A settlement calls the callbacks of the matching kind and no others: in the order of their
registration, each at most once, with the value of the settlement. The first call begins with the
promise already settled and its queues empty, each other one where the one before it returned, so
that the status is still the new one unless a callback has written to it. If all return, all are
called. A callback that does not return is the last one called, and the settlement ends the way it
does. -/
theorem settle_calls_until_failure {ticket : Nat} {promise : InstanceRef}
    {rs : List (Settlement × Value)} {m : Machine} (h : Registered ticket promise rs m)
    (call : Caller) (outcome : Fetched) :
    ∃ start, Settled start ticket promise outcome ∧
      (∀ log r, (settle call ticket outcome m).Run log r ↔
        ∃ calls, InTurn call (settledValue outcome) (ofKind (settlementOf outcome) rs) start calls
          log r) ∧
      ∀ calls log r,
        InTurn call (settledValue outcome) (ofKind (settlementOf outcome) rs) start calls log r →
        calls.map Called.callback <+: ofKind (settlementOf outcome) rs ∧
        (∀ c ∈ calls, ∃ log,
          (call c.callback [settledValue outcome] c.start).Run log c.ending) ∧
        (∀ c ∈ calls.head?, c.start = start) ∧
        (calls.IsChain fun c d => ∃ v, c.ending = .value v d.start) ∧
        ((∀ c ∈ calls, ∀ v m', c.ending = .value v m' → HasStatus promise outcome c.start →
            HasStatus promise outcome m') →
          ∀ c ∈ calls, HasStatus promise outcome c.start) ∧
        ((calls.map Called.callback = ofKind (settlementOf outcome) rs ∧
            (∀ c ∈ calls, ∃ v m', c.ending = .value v m') ∧ ∃ m', r = .value () m') ∨
          ∃ last ∈ calls.getLast?, (∀ v m', last.ending ≠ .value v m') ∧
            r = ended last.ending) := by
  obtain ⟨start, heq, hstart⟩ := h.awaits.settles call outcome
  refine ⟨start, hstart, fun log r => by rw [heq, callEach_run], fun calls log r hcalls => ?_⟩
  obtain ⟨hruns, hhead, hchain⟩ := hcalls.chain
  exact ⟨hcalls.callbacks_in_order, hruns, hhead, hchain, hcalls.invariant hstart.status,
    hcalls.all_or_failed⟩

/-- The `push` of an array. -/
def pusher (r : ArrayRef) : Value := .native 0 (.array .push) (some (.array r))

/-- The next array after those of a new promise. -/
def seen (m : Machine) : ArrayRef := ((promised m).heap.newArray #[]).1

/-- A machine with a new promise and a new array. Two callbacks are registered with the promise: one
that cannot be called, and the `push` of the array. -/
def unheard (m : Machine) : Machine :=
  { promised m with
    heap := (((promised m).heap.newArray #[]).2.modifyArray (nextQueue m.heap .resolved)
      fun a => a.push .nil).modifyArray (nextQueue m.heap .resolved)
        fun a => a.push (pusher (seen m)) }

theorem Registered.register {ticket : Nat} {promise : InstanceRef} {rs : List (Settlement × Value)}
    {m : Machine} (h : Registered ticket promise rs m) (method : PromiseMethod) {queue : ArrayRef}
    (hstatus : m.heap.field? promise "status" = some (.text pendingStatus))
    (hqueue : m.heap.field? promise (kindOf method).queue = some (.array queue))
    (callback : Value) :
    Registered ticket promise (rs ++ [(kindOf method, callback)])
      { m with heap := m.heap.modifyArray queue fun a => a.push callback } := by
  apply h.subscribed Evaluator.exhausted.call method [callback]
  rw [promiseMethod_pending hstatus hqueue]
  exact .finished _

theorem unheard_registered (m : Machine)
    (hm : ∀ p ∈ m.promises.pending, p.1 ≤ m.promises.lastTicket) :
    Registered (m.promises.lastTicket + 1) ⟨m.heap.instances.size⟩
      [(.resolved, .nil), (.resolved, pusher (seen m))] (unheard m) := by
  have hlisted : Registered (m.promises.lastTicket + 1) ⟨m.heap.instances.size⟩ []
      { promised m with heap := ((promised m).heap.newArray #[]).2 } := by
    refine (Registered.made hm (newPromise_eq m)).elsewhere ⟨rfl, rfl, fun kind r hr => ?_⟩
    obtain rfl : nextQueue m.heap kind = r := by simpa [field?_promised_queue] using hr
    cases kind <;>
      simp [promised, nextQueue, Heap.newArray, Array.getElem?_push, Array.getElem_push]
  have hfirst := hlisted.register .onResolve (field?_promised_status m)
    (field?_promised_queue m .resolved) .nil
  exact hfirst.register .onResolve (field?_promised_status m) (field?_promised_queue m .resolved) _

theorem array_unheard (m : Machine) :
    (unheard m).heap.array (nextQueue m.heap .resolved) = #[.nil, pusher (seen m)] := by
  simp [unheard, Heap.array, nextQueue, Heap.modifyArray, Heap.newArray, promised,
    Array.getElem?_modify, Array.getElem?_push, Array.getElem_push]

/-- The array whose `push` was registered is there, and stays empty. -/
theorem unheard_settle (m : Machine)
    (hm : ∀ p ∈ m.promises.pending, p.1 ≤ m.promises.lastTicket) (n : Nat) :
    ∃ m', settle (Evaluator.bounded (n + 1)).call (m.promises.lastTicket + 1) (.ok "body")
          (unheard m) = .finished (.stopped (.failed .notCallable) m') ∧
      m'.heap.arrays[(seen m).index]? = some #[] := by
  obtain ⟨hticket, -⟩ := (unheard_registered m hm).awaits
  have hqueue : (unheard m).heap.field? ⟨m.heap.instances.size⟩ (settlementOf (.ok "body")).queue =
      some (.array (nextQueue m.heap .resolved)) := field?_promised_queue m .resolved
  rw [settle_eq hticket hqueue, array_unheard, callEach_cons]
  refine ⟨_, rfl, ?_⟩
  simp [settledHeap, seen, unheard, nextQueue, Heap.modifyArray, Heap.newArray, promised,
    Heap.setField, Array.getElem_modify, Array.getElem_push, Nat.add_assoc]

theorem pusher_call {m : Machine} {r : ArrayRef} {items : Array Value}
    (hr : m.heap.arrays[r.index]? = some items) (n : Nat) (v : Value) :
    ∃ length m', (Evaluator.bounded (n + 1)).call (pusher r) [v] m =
        .finished (.value length m') ∧ m'.heap.array r = items.push v := by
  refine ⟨_, _, rfl, ?_⟩
  simp [Heap.array, Heap.modifyArray, Array.getElem?_modify, hr]
  rfl

theorem unheard_calls_in_turn :
    ∃ ticket promise seen m start,
      Registered ticket promise [(.resolved, .nil), (.resolved, pusher seen)] m ∧
      Settled start ticket promise (.ok "body") ∧
      ∀ log r, (settle (Evaluator.bounded 1).call ticket (.ok "body") m).Run log r ↔
        ∃ calls, InTurn (Evaluator.bounded 1).call (.text "body") [.nil, pusher seen]
          start calls log r := by
  have hregistered := unheard_registered (.fresh .default) nofun
  obtain ⟨start, hsettled, hruns, -⟩ :=
    settle_calls_until_failure hregistered (Evaluator.bounded 1).call (.ok "body")
  exact ⟨_, _, _, _, start, hregistered, hsettled, hruns⟩

/-- A callback that cannot be called keeps the next one from being called, which could be. -/
theorem unheard_skips :
    ∃ ticket promise seen m,
      Registered ticket promise [(.resolved, .nil), (.resolved, pusher seen)] m ∧
      ∀ n, ∃ m', settle (Evaluator.bounded (n + 1)).call ticket (.ok "body") m =
          .finished (.stopped (.failed .notCallable) m') ∧
        m'.heap.array seen = #[] ∧
        ∃ v m'', (Evaluator.bounded (n + 1)).call (pusher seen) [.text "body"] m' =
          .finished (.value v m'') ∧ m''.heap.array seen = #[.text "body"] := by
  have hregistered := unheard_registered (.fresh .default) nofun
  refine ⟨_, _, _, _, hregistered, fun n => ?_⟩
  obtain ⟨m', hsettle, hseen⟩ := unheard_settle (.fresh .default) nofun n
  exact ⟨m', hsettle, by simp [Heap.array, hseen], pusher_call hseen n _⟩

end ScriptEngine.Library
