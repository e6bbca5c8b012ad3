import ScriptEngine.Library.Dispatch
import ScriptEngine.Proofs.Evaluation.Oversight
import ScriptEngine.Proofs.Library.Discipline

/-!
# Built-in functions and the custody of promises

An evaluation upholds a property of machines if every ending that it comes to from a machine with
the property leaves a machine with the property, whatever the host answers. All ways to build
evaluations keep this.

A property of machines is in custody if it only depends on the heap, the promises and the two
classes that the host knows, and if it survives everything that is done to these: new arrays and
instances, promises that are made and settled, and what scripts are not forbidden to do. Built-in
functions uphold every such property, as far as their callbacks do.
-/
namespace ScriptEngine

/-! Evaluations that uphold a property of machines -/

section

variable {α β : Type} {I : Machine → Prop}

/-- An ending that leaves a machine with a property, if it leaves one. -/
def Ending.Leaves (I : Machine → Prop) : Ending α → Prop
  | .value _ m | .stopped _ m => I m
  | .exhausted => True

/-- Whatever an evaluation comes to on a machine, it leaves one with a property. -/
def Eval.EndsIn (I : Machine → Prop) (x : Eval α) (m : Machine) : Prop :=
  (x m).Every (Ending.Leaves I)

def Eval.Upholds (I : Machine → Prop) (x : Eval α) : Prop :=
  ∀ ⦃m : Machine⦄, I m → x.EndsIn I m

namespace Eval

theorem EndsIn.bind {x : Eval α} {f : α → Eval β} {m : Machine} (hx : x.EndsIn I m)
    (hf : ∀ a, Upholds I (f a)) : EndsIn I (x >>= f) m := by
  change (Eval.bind x f m).Every _
  rw [bind_apply]
  refine Dialogue.every_bind _ hx fun r hr => ?_
  cases r with
  | value a m => exact hf a hr
  | stopped s m => exact hr
  | exhausted => trivial

/-- What follows a look at the machine happens on the same machine. -/
theorem EndsIn.read_bind {r : Machine → α} {f : α → Eval β} {m : Machine}
    (h : (f (r m)).EndsIn I m) : EndsIn I (Eval.read r >>= f) m := h

/-- What follows a check happens on the same machine. -/
theorem EndsIn.ofExcept_bind {x : Except Failure α} {f : α → Eval β} {m : Machine} (hm : I m)
    (h : ∀ a, (f a).EndsIn I m) : EndsIn I (Eval.ofExcept x >>= f) m := by
  cases x with
  | ok a => exact h a
  | error _ => exact hm

namespace Upholds

variable {x : Eval α}

@[grind .]
theorem pure (a : α) : Upholds I (Pure.pure a : Eval α) := fun _ hm => hm

@[grind .]
theorem pure' (a : α) : Upholds I (Eval.pure a) := pure a

@[grind .]
theorem stop (s : Signal) : Upholds I (Eval.stop s : Eval α) := fun _ hm => hm

@[grind .]
theorem fail (f : Failure) : Upholds I (Eval.fail f : Eval α) := stop _

@[grind .]
theorem exhausted : Upholds I (Eval.exhausted : Eval α) := fun _ _ => trivial

@[grind .]
theorem read (f : Machine → α) : Upholds I (Eval.read f) := fun _ hm => hm

theorem update {f : Machine → Machine} (h : ∀ m, I m → I (f m)) : Upholds I (Eval.update f) := h

theorem change {f : Machine → α × Machine} (h : ∀ m, I m → I (f m).2) : Upholds I (Eval.change f) :=
  h

@[grind .]
theorem ofExcept (x : Except Failure α) : Upholds I (Eval.ofExcept x) := by
  cases x with
  | ok a => exact pure a
  | error f => exact fail f

@[grind .]
theorem ask (q : Request) : Upholds I (Eval.ask q) := fun _ hm _ => hm

@[grind .]
theorem askOuter (q : OuterRequest) : Upholds I (Eval.askOuter q) := ask _

@[grind .]
theorem bind {f : α → Eval β} (hx : Upholds I x) (hf : ∀ a, Upholds I (f a)) :
    Upholds I (x >>= f) :=
  fun _ hm => (hx hm).bind hf

@[grind .]
theorem bind' {f : α → Eval β} (hx : Upholds I x) (hf : ∀ a, Upholds I (f a)) :
    Upholds I (Eval.bind x f) :=
  bind hx hf

@[grind .]
theorem attempt (hx : Upholds I x) : Upholds I (Eval.attempt x) := by
  intro m hm
  unfold EndsIn
  rw [attempt_apply]
  refine Dialogue.every_bind _ (hx hm) fun r hr => ?_
  cases r with
  | value a m => exact hr
  | stopped s m => exact hr
  | exhausted => trivial

@[grind .]
theorem discard (hx : Upholds I x) : Upholds I (Functor.discard x) := bind hx fun _ => pure ()

/-- What is guarded against runs only where it is not noticed. -/
theorem guarded {notice : Machine → Bool} {alarm : Failure}
    (h : ∀ m, I m → notice m = false → x.EndsIn I m) : Upholds I (Eval.guarded notice alarm x) := by
  intro m hm
  unfold EndsIn Eval.guarded
  split
  · exact hm
  next hquiet => exact h m hm (eq_false_of_ne_true hquiet)

@[grind .]
theorem textOf (v : Value) : Upholds I (Eval.textOf v) := read _

@[grind .]
theorem lookup? (s : ScopeRef) (name : String) : Upholds I (Eval.lookup? s name) := read _

end Upholds

end Eval

end

/-! Custody -/

/-- Machines that differ only in what has nothing to do with promises. -/
structure Machine.Beside (m m' : Machine) : Prop where
  heap : m'.heap = m.heap
  promises : m'.promises = m.promises
  promiseClass : m'.promiseClass = m.promiseClass
  objectClass : m'.objectClass = m.objectClass
  nextId : m.nextId ≤ m'.nextId

theorem Machine.Aside.beside {m m' : Machine} (h : m.Aside m') : m.Beside m' := by
  cases h with
  | step scopes nextId depth importers output diagnostics hid => exact ⟨rfl, rfl, rfl, rfl, hid⟩

/-- The machine on which the callbacks of a promise are called. -/
def Machine.settling (m : Machine) (ticket : Nat) (promise : InstanceRef) (outcome : Fetched)
    (queue : ArrayRef) : Machine :=
  { m with
    heap := Library.settledHeap m.heap promise (Library.settlementOf outcome)
      (Library.settledValue outcome) queue
    promises := { m.promises with
      pending := m.promises.pending.filter fun p => p.1 != ticket } }

structure Custody (forbids : Deed → Machine → Bool) (I : Machine → Prop) : Prop where
  beside {m m' : Machine} : I m → m.Beside m' → I m'
  classes {m : Machine} : I m →
    m.promiseClass.id < m.nextId ∧ m.objectClass.id ≠ m.promiseClass.id
  newArray {m : Machine} (items : Array Value) :
    I m → I { m with heap := (m.heap.newArray items).2 }
  newInstance {m : Machine} {cls : Class} {fields : Fields Value} :
    I m → fields = .empty ∨ cls.id ≠ m.promiseClass.id →
      I { m with heap := (m.heap.newInstance ⟨cls, fields⟩).2 }
  setField {m : Machine} {r : InstanceRef} {key : String} (v : Value) :
    I m → forbids (.setField r key) m = false → I { m with heap := m.heap.setField r key v }
  changeArray {m : Machine} {a : ArrayRef} (f : Array Value → Array Value) :
    I m → forbids (.changeArray a) m = false → I { m with heap := m.heap.modifyArray a f }
  newPromise {m : Machine} : I m → I (Library.promised m)
  register {m : Machine} {r : InstanceRef} {kind : Library.Settlement} {a : ArrayRef}
      (callback : Value) :
    I m → forbids (.subscribe r kind) m = false →
      m.heap.field? r "status" = some (.text Library.pendingStatus) →
      m.heap.field? r kind.queue = some (.array a) →
      I { m with heap := m.heap.modifyArray a fun items => items.push callback }
  settle {m : Machine} {ticket : Nat} {promise : InstanceRef} (outcome : Fetched) :
    I m → m.promises.pending.lookup ticket = some promise →
      ∃ queue, m.heap.field? promise (Library.settlementOf outcome).queue = some (.array queue) ∧
        I (m.settling ticket promise outcome queue)

variable {forbids : Deed → Machine → Bool} {I : Machine → Prop} {α : Type}

namespace Custody

open Eval

variable (hI : Custody forbids I)
include hI

theorem update {f : Machine → Machine} (h : ∀ m : Machine, m.Beside (f m)) :
    Upholds I (Eval.update f) :=
  Upholds.update fun m hm => hI.beside hm (h m)

theorem change {f : Machine → α × Machine} (h : ∀ m : Machine, m.Beside (f m).2) :
    Upholds I (Eval.change f) :=
  Upholds.change fun m hm => hI.beside hm (h m)

/-- To uphold what is in custody is a discipline. Instances that are made by calling a class have no
fields yet, and objects that are written down are no promises. -/
def discipline : Discipline where
  Allows := Upholds I
  pure := Upholds.pure
  stop := Upholds.stop
  exhausted := @fun _ => Upholds.exhausted
  read := Upholds.read
  change h := hI.change fun m => (h m).beside
  askOuter := Upholds.askOuter
  sleep _ := Upholds.ask _
  bind := Upholds.bind
  attempt := Upholds.attempt
  newArray items := Upholds.change fun _ hm => hI.newArray items hm
  emptyInstance _ := Upholds.change fun _ hm => hI.newInstance hm (.inl rfl)
  object _ _ hf := fun _ hm => hf _ (hI.newInstance hm (.inr (hI.classes hm).2))

theorem array (items : Array Value) : Upholds I (Eval.newArray items) :=
  hI.discipline.newArray items

/-- The classes of the host are not that of promises. -/
theorem hostObject (name : String) (methods : List Native) (fields : Fields Value)
    {f : InstanceRef → Eval α} (hf : ∀ r, Upholds I (f r)) :
    Upholds I (Eval.bind (Library.hostClass name methods) fun cls =>
      Eval.bind (Eval.newInstance cls fields) f) := by
  intro m hm
  have hid : I { m with nextId := m.nextId + 1 } :=
    hI.beside hm ⟨rfl, rfl, rfl, rfl, Nat.le_succ _⟩
  exact hf _ (hI.newInstance hid (.inr (hI.classes hm).1.ne'))

end Custody

/-! JSON -/

section

variable {m : Machine}

mutual

theorem Json.toValue_upholds (hI : Custody forbids I) {h : Heap} (hm : I { m with heap := h }) :
    ∀ j : Json, I { m with heap := (j.toValue m.objectClass h).2 }
  | .null | .bool _ | .number _ | .text _ => hm
  | .array items => by
    rw [Json.toValue]
    exact hI.newArray _ (Json.toValues_upholds hI hm items)
  | .object members => by
    have hrest := Json.toFields_upholds hI hm members
    rw [Json.toValue]
    exact hI.newInstance hrest (.inr (hI.classes hrest).2)

theorem Json.toValues_upholds (hI : Custody forbids I) {h : Heap} (hm : I { m with heap := h }) :
    ∀ items : List Json, I { m with heap := (Json.toValues m.objectClass h items).2 }
  | [] => hm
  | j :: rest => by
    rw [Json.toValues]
    exact Json.toValues_upholds hI (Json.toValue_upholds hI hm j) rest

theorem Json.toFields_upholds (hI : Custody forbids I) {h : Heap} (hm : I { m with heap := h }) :
    ∀ members : List (String × Json),
      I { m with heap := (Json.toFields m.objectClass h members).2 }
  | [] => hm
  | (_, j) :: rest => by
    rw [Json.toFields]
    exact Json.toFields_upholds hI (Json.toValue_upholds hI hm j) rest

end

end

namespace Library

open Eval

variable (hI : Custody forbids I) {call : Caller}
include hI

theorem jsonFunction_upholds (f : JsonFunction) (args : List Value) :
    Upholds I (jsonFunction f args) := by
  unfold jsonFunction
  cases f with
  | parse =>
    dsimp only
    split
    · split
      next j _ => exact Upholds.change fun _ hm => Json.toValue_upholds hI hm j
      next => exact Upholds.pure _
    · exact Upholds.pure _
  | stringify => exact Upholds.bind (Upholds.read _) fun _ => Upholds.ofExcept _

/-! Timers -/

omit hI in
theorem now_upholds : Upholds I now := Upholds.askOuter .now

@[grind .]
theorem schedule_upholds (callback : Value) (delay : Nat) (repeating : Bool) :
    Upholds I (schedule callback delay repeating) :=
  Upholds.bind now_upholds fun _ => hI.change fun _ => ⟨rfl, rfl, rfl, rfl, Nat.le_refl _⟩

@[grind .]
theorem cancel_upholds (id : Nat) : Upholds I (cancel id) :=
  hI.change fun _ => ⟨rfl, rfl, rfl, rfl, Nat.le_refl _⟩

@[grind .]
theorem scheduleArguments_upholds (args : List Value) (repeating : Bool) (name : String) :
    Upholds I (scheduleArguments args repeating name) := by
  have hschedule (callback : Value) (delay : Nat) :
      Upholds I (return .ofNat (← schedule callback delay repeating) : Eval Value) :=
    Upholds.bind (schedule_upholds hI callback delay repeating) fun _ => Upholds.pure _
  unfold scheduleArguments
  dsimp only
  split
  · exact Upholds.fail _
  · split
    · exact hschedule _ _
    · exact hschedule _ _
    · exact Upholds.fail _

theorem timerFunction_upholds (f : TimerFunction) (args : List Value) :
    Upholds I (timerFunction f args) := by
  unfold timerFunction
  cases f <;> grind

/-! Workers and tasks -/

@[grind .]
theorem startWorker_upholds (spec : String) : Upholds I (startWorker spec) := by
  unfold startWorker
  refine Upholds.bind (resolve_allowed (D := hI.discipline) spec) fun p =>
    Upholds.bind (Upholds.read _) fun _ => ?_
  refine Upholds.bind (Upholds.ask (.startWorker p _)) fun link => ?_
  exact hI.change fun _ => ⟨rfl, rfl, rfl, rfl, Nat.le_refl _⟩

@[grind .]
theorem newHandle_upholds (name : String) (methods : List Native) (id : Nat) :
    Upholds I (newHandle name methods id) :=
  hI.hostObject name methods _ fun _ => Upholds.pure _

@[grind .]
theorem removeWorker_upholds (receiver : Option Value) : Upholds I (removeWorker receiver) := by
  refine Upholds.change fun m hm => ?_
  split
  · exact hm
  · exact hI.beside hm ⟨rfl, rfl, rfl, rfl, Nat.le_refl _⟩

omit hI in
@[grind .]
theorem workerLink?_upholds (receiver : Option Value) : Upholds I (workerLink? receiver) :=
  Upholds.read _

omit hI in
@[grind .]
theorem post_upholds (link : LinkRef) (direction : Direction) (message : Value) :
    Upholds I (post link direction message) :=
  Upholds.bind (Upholds.textOf _) fun _ => Upholds.bind (Upholds.ask _) fun _ => Upholds.pure _

@[grind .]
theorem poll_upholds (link : Option LinkRef) (direction : Direction) :
    Upholds I (poll link direction) := by
  unfold poll
  split
  · exact hI.array _
  next l => exact Upholds.bind (Upholds.ask (.drain l direction)) fun _ => hI.array _

omit hI in
@[grind .]
theorem closeLink_upholds (link : LinkRef) : Upholds I (closeLink link) := Upholds.ask _

@[grind .]
theorem waitForTask_upholds (receiver : Option Value) : Upholds I (waitForTask receiver) := by
  unfold waitForTask
  refine Upholds.bind (removeWorker_upholds hI receiver) fun link => ?_
  split
  · exact Upholds.pure _
  next link =>
    refine Upholds.bind (Upholds.ask (.pop link .outbound)) fun message => ?_
    exact Upholds.bind (closeLink_upholds link) fun _ => Upholds.pure _

theorem workerFunction_upholds (f : WorkerFunction) (receiver : Option Value)
    (args : List Value) : Upholds I (workerFunction f receiver args) := by
  have hstart (name : String) (methods : List Native) (spec : String) :
      Upholds I (startWorker spec >>= newHandle name methods) :=
    Upholds.bind (startWorker_upholds hI spec) fun id => newHandle_upholds hI name methods id
  unfold workerFunction
  cases f with
  | postOut =>
    refine Upholds.bind (Upholds.read _) fun link => ?_
    cases link with
    | none => exact Upholds.pure _
    | some link => exact post_upholds link .outbound _
  | pollIn => exact Upholds.bind (Upholds.read _) fun link => poll_upholds hI link .inbound
  | startWorker =>
    cases argument args 0 with
    | text spec => exact hstart "WorkerHandle" workerMethods spec
    | _ => exact Upholds.pure _
  | startTask =>
    cases argument args 0 with
    | text spec => exact hstart "Task" taskMethods spec
    | _ => exact Upholds.pure _
  | postIn =>
    refine Upholds.bind (workerLink?_upholds receiver) fun link => ?_
    cases link with
    | none => exact Upholds.pure _
    | some link => exact post_upholds link .inbound _
  | pollOut =>
    exact Upholds.bind (workerLink?_upholds receiver) fun link => poll_upholds hI link .outbound
  | terminate =>
    refine Upholds.bind (removeWorker_upholds hI receiver) fun link => ?_
    cases link with
    | none => exact Upholds.pure _
    | some link => exact Upholds.bind (closeLink_upholds link) fun _ => Upholds.pure _
  | wait => exact waitForTask_upholds hI receiver

/-! Arrays -/

variable (hcall : ∀ callee args, Upholds I (call callee args))
include hcall

omit hcall in
/-- Methods that change an array do so where it is not forbidden. -/
theorem changeItems_endsIn {m : Machine} (hm : I m) {r : ArrayRef}
    (hallowed : forbids (.changeArray r) m = false) (value : Array Value → Value)
    (f : Array Value → Array Value) : (changeItems r value f).EndsIn I m :=
  hI.changeArray f hm hallowed

theorem arrayMethod_endsIn {m : Machine} (hm : I m) (method : ArrayMethod)
    {receiver : Option Value} {id : Nat}
    (hallowed : ∀ deed ∈ Deed.ofCall? (.native id (.array method) receiver), forbids deed m = false)
    (args : List Value) : (arrayMethod call method receiver args).EndsIn I m := by
  cases hmethod : method.changes with
  | false => exact arrayMethod_allowed (D := hI.discipline) hcall hmethod receiver args hm
  | true =>
    unfold arrayMethod
    split
    next r =>
      cases method with
      | push | pop | pushFront | popFront => exact changeItems_endsIn hI hm (hallowed _ rfl) _ _
      | _ => cases hmethod
    next => exact hm

/-! Promises -/

omit hI hcall in
/-- A ticket that is not registered changes nothing. -/
theorem settle_unregistered {m : Machine} {ticket : Nat}
    (h : m.promises.pending.lookup ticket = none) (outcome : Fetched) :
    settle call ticket outcome m = .finished (.value () m) := by
  have hkept : m.promises.pending.filter (fun p => p.1 != ticket) = m.promises.pending := by
    refine List.filter_eq_self.2 fun p hp => ?_
    have hother : (ticket != p.1) = true := List.lookup_eq_none_iff.1 h p hp
    exact bne_iff_ne.2 (bne_iff_ne.1 hother).symm
  have htake : takePromise ticket m = .finished (.value none m) := by
    unfold takePromise Eval.change
    dsimp only
    rw [h, hkept]
  unfold settle
  change Eval.bind (takePromise ticket) _ m = _
  rw [bind_apply, htake]
  rfl

omit hcall in
theorem newPromise_upholds : Upholds I newPromise := by
  intro m hm
  unfold EndsIn
  rw [newPromise_eq]
  exact hI.newPromise hm

omit hI hcall in
/-- A field that has been read was there, unless it reads as nil. -/
theorem field?_of_field {h : Heap} {v w : Value} {key : String} (hw : h.field v key = w)
    (hnil : w ≠ .nil) : ∃ r, v = .object r ∧ h.field? r key = some w := by
  unfold Heap.field at hw
  split at hw
  next r =>
    cases hf : h.field? r key with
    | none =>
      rw [hf] at hw
      exact absurd hw.symm hnil
    | some u =>
      rw [hf] at hw
      exact ⟨r, rfl, hw ▸ hf⟩
  next => exact absurd hw.symm hnil

/-- Subscribing calls back, registers where it is not forbidden, or does nothing. -/
theorem subscribe_endsIn {m : Machine} (hm : I m) (kind : Settlement) {receiver : Option Value}
    (hallowed : ∀ r, receiver = some (.object r) → forbids (.subscribe r kind) m = false)
    (args : List Value) : (subscribe call kind receiver args).EndsIn I m := by
  have hdone : Upholds I (Pure.pure (receiver.getD .nil) : Eval Value) := Upholds.pure _
  unfold subscribe
  refine EndsIn.read_bind ?_
  split
  next status hstatus =>
    split
    · refine EndsIn.read_bind ?_
      exact Upholds.bind (Upholds.discard (hcall _ _)) (fun _ => hdone) hm
    · split
      next hpending =>
        obtain ⟨r, hr, hfield⟩ := field?_of_field hstatus (by simp)
        obtain rfl : receiver = some (.object r) := by
          cases receiver with
          | none => cases hr
          | some v => exact congrArg some hr
        rw [eq_of_beq hpending] at hfield
        refine EndsIn.read_bind ?_
        split
        next a ha =>
          obtain ⟨r', hr', hqueue⟩ := field?_of_field ha (by simp)
          cases hr'
          exact hI.register _ hm (hallowed r rfl) hfield hqueue
        next => exact hm
      next => exact hm
  next => exact hm

/-- Settling calls back when it has settled the promise. -/
theorem settle_upholds (ticket : Nat) (outcome : Fetched) :
    Upholds I (settle call ticket outcome) := by
  intro m hm
  cases hticket : m.promises.pending.lookup ticket with
  | none =>
    unfold EndsIn
    rw [settle_unregistered hticket]
    exact hm
  | some promise =>
    obtain ⟨queue, hqueue, hsettled⟩ := hI.settle outcome hm hticket
    unfold EndsIn
    rw [settle_eq hticket hqueue]
    exact Discipline.forEach (D := hI.discipline)
      (fun callback => Upholds.discard (hcall callback _)) _ hsettled

/-! Fetching and serving -/

omit hcall in
@[grind .]
theorem fetch_upholds (url : String) : Upholds I (fetch url) := by
  unfold fetch
  refine Upholds.bind (newPromise_upholds hI) fun _ => ?_
  refine Upholds.bind (hI.update fun _ => ⟨rfl, rfl, rfl, rfl, Nat.le_refl _⟩) fun _ => ?_
  exact Upholds.bind (Upholds.ask _) fun _ => Upholds.pure _

omit hcall in
@[grind .]
theorem listen_upholds (port : Nat) (handler : Value) : Upholds I (listen port handler) := by
  unfold listen
  refine Upholds.bind (Upholds.ask (.listen port)) fun opened => ?_
  split
  · exact Upholds.fail _
  · refine Upholds.bind (hI.change fun _ => ⟨rfl, rfl, rfl, rfl, Nat.le_refl _⟩) fun id => ?_
    exact hI.hostObject _ _ _ fun _ => Upholds.pure _

omit hcall in
@[grind .]
theorem stopServer_upholds (id : Nat) : Upholds I (stopServer id) := by
  unfold stopServer
  refine Upholds.bind (Upholds.change fun m hm => ?_) fun listener => ?_
  · split
    · exact hm
    · exact hI.beside hm ⟨rfl, rfl, rfl, rfl, Nat.le_refl _⟩
  · split
    · exact Upholds.pure _
    next l => exact Upholds.bind (Upholds.ask (.stopListening l.reference)) fun _ => Upholds.pure _

omit hcall in
@[grind .]
theorem respond_upholds (id status : Nat) (body : String) :
    Upholds I (respond id status body) := by
  unfold respond
  refine Upholds.bind (hI.change fun _ => ⟨rfl, rfl, rfl, rfl, Nat.le_refl _⟩) fun connection => ?_
  split
  · exact Upholds.pure _
  next c => exact Upholds.bind (Upholds.ask (.reply c status body)) fun _ => Upholds.pure _

omit hcall in
theorem networkFunction_upholds (f : NetworkFunction) (receiver : Option Value)
    (args : List Value) : Upholds I (networkFunction f receiver args) := by
  cases f with
  | fetch => exact Upholds.bind (Upholds.ofExcept _) fun url => fetch_upholds hI url
  | listen =>
    refine Upholds.bind (Upholds.ofExcept _) fun x => ?_
    refine Upholds.bind (Upholds.ofExcept _) fun port => ?_
    dsimp only
    split
    · exact listen_upholds hI port _
    · exact Upholds.fail _
  | closeServer =>
    refine Upholds.bind (Upholds.read _) fun id => ?_
    cases id with
    | none => exact Upholds.pure _
    | some id => exact Upholds.bind (stopServer_upholds hI id) fun _ => Upholds.pure _
  | sendReply =>
    refine Upholds.bind (Upholds.read _) fun id => ?_
    cases id with
    | none => exact Upholds.pure _
    | some id =>
      refine Upholds.bind (Upholds.textOf _) fun body => ?_
      exact Upholds.bind (respond_upholds hI id _ body) fun _ => Upholds.pure _

theorem handle_upholds (handler : Value) (request : Http.Request) (id : Nat) :
    Upholds I (handle call handler request id) := by
  unfold handle
  refine hI.hostObject _ _ _ fun value => ?_
  refine Upholds.bind (Upholds.attempt (hcall _ _)) fun outcome => ?_
  cases outcome with
  | ok _ => exact Upholds.pure _
  | error signal =>
    exact Upholds.bind (Upholds.discard (respond_upholds hI _ _ _)) fun _ => Upholds.stop _

theorem dispatch_upholds (reference : ListenerRef) (request : Http.Request)
    (connection : ConnectionRef) : Upholds I (dispatch call reference request connection) := by
  unfold dispatch
  refine Upholds.bind (Upholds.read _) fun handler => ?_
  split
  · exact Upholds.ask (.reply connection 404 (Http.reason 404))
  next handler =>
    refine Upholds.bind (hI.change fun _ => ⟨rfl, rfl, rfl, rfl, Nat.le_refl _⟩) fun id => ?_
    exact handle_upholds hI hcall handler request id

/-- What is called is not forbidden on this machine. -/
theorem callNative_endsIn {m : Machine} (hm : I m) {id : Nat} {n : Native}
    {receiver : Option Value}
    (hallowed : ∀ deed ∈ Deed.ofCall? (.native id n receiver), forbids deed m = false)
    (args : List Value) : (callNative call n receiver args).EndsIn I m := by
  cases n with
  | array method => exact arrayMethod_endsIn hI hcall hm method hallowed args
  | text method => exact textMethod_allowed (D := hI.discipline) method receiver args hm
  | textFunction f => exact textFunction_allowed (D := hI.discipline) f args hm
  | system f => exact systemFunction_allowed (D := hI.discipline) f args hm
  | file f => exact fileFunction_allowed (D := hI.discipline) f args hm
  | timer f => exact timerFunction_upholds hI f args hm
  | json f => exact jsonFunction_upholds hI f args hm
  | date f => exact dateFunction_allowed (D := hI.discipline) f args hm
  | worker f => exact workerFunction_upholds hI f receiver args hm
  | promise method =>
    have hsubscribe (r : InstanceRef) (hr : receiver = some (.object r)) :
        forbids (.subscribe r (kindOf method)) m = false :=
      hallowed _ (by rw [hr]; rfl)
    cases method with
    | onResolve => exact subscribe_endsIn hI hcall hm .resolved hsubscribe args
    | onReject => exact subscribe_endsIn hI hcall hm .rejected hsubscribe args
  | network f => exact networkFunction_upholds hI f receiver args hm

end Library

end ScriptEngine
