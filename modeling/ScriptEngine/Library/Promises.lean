import ScriptEngine.Library.Arguments

/-!
# Promises

A promise is an instance with a status, a value and two arrays of callbacks. It is pending while its
ticket is registered and settled once. Callbacks registered before that run when it is settled, and
later ones at once.
-/
namespace ScriptEngine.Library

/-- The two ways a promise is settled. -/
inductive Settlement where
  | resolved | rejected
deriving DecidableEq, Repr

namespace Settlement

def status : Settlement → String
  | resolved => "resolved"
  | rejected => "rejected"

/-- The field with the callbacks of this kind. -/
def queue : Settlement → String
  | resolved => "onResolve"
  | rejected => "onReject"

end Settlement

def pendingStatus : String := "pending"

/-- A pending promise under a new ticket. -/
def newPromise : Eval (Nat × InstanceRef) := do
  let onResolve ← Eval.newArray #[]
  let onReject ← Eval.newArray #[]
  let cls ← Eval.read fun m => m.promiseClass
  let promise ← Eval.newInstance cls (.ofList [("status", .text pendingStatus), ("value", .nil),
    (Settlement.resolved.queue, onResolve), (Settlement.rejected.queue, onReject)])
  let ticket ← Eval.change fun m =>
    let ticket := m.promises.lastTicket + 1
    (ticket, { m with promises := ⟨ticket, m.promises.pending ++ [(ticket, promise)]⟩ })
  return (ticket, promise)

/-- Takes the callbacks out of an array, which is left empty. -/
def takeCallbacks : Option Value → Eval (List Value)
  | some (.array r) => do
    let callbacks ← Eval.read fun m => (m.heap.array r).toList
    Eval.update fun m => { m with heap := m.heap.modifyArray r fun _ => #[] }
    return callbacks
  | _ => Eval.pure []

/-- Takes the promise of a ticket off the table. -/
def takePromise (ticket : Nat) : Eval (Option InstanceRef) := Eval.change fun m =>
  (m.promises.pending.lookup ticket,
    { m with promises :=
        { m.promises with pending := m.promises.pending.filter fun p => p.1 != ticket } })

/-- Settles the promise of a ticket and calls the callbacks of the matching kind in the order of
their registration. A ticket that is not registered changes nothing. -/
def settle (call : Caller) (ticket : Nat) (outcome : Fetched) : Eval Unit := do
  match ← takePromise ticket with
  | none => return
  | some promise =>
    let (settlement, value) :=
      match outcome with
      | .ok body => (Settlement.resolved, Value.text body)
      | .error message => (Settlement.rejected, Value.text message)
    Eval.setField promise "status" (.text settlement.status)
    Eval.setField promise "value" value
    let queue ← Eval.read fun m => m.heap.field? promise settlement.queue
    let callbacks ← takeCallbacks queue
    Eval.setField promise Settlement.resolved.queue (← Eval.newArray #[])
    Eval.setField promise Settlement.rejected.queue (← Eval.newArray #[])
    Eval.forEach (fun callback => do discard (call callback [value])) callbacks

/-- Calls back at once if the promise is settled this way, and registers while it is pending. -/
def subscribe (call : Caller) (settlement : Settlement) (receiver : Option Value)
    (args : List Value) : Eval Value := do
  let promise := receiver.getD .nil
  let callback := argument args 0
  match ← Eval.read fun m => m.heap.field promise "status" with
  | .text status =>
    if status == settlement.status then
      let value ← Eval.read fun m => m.heap.field promise "value"
      discard (call callback [value])
    else if status == pendingStatus then
      match ← Eval.read fun m => m.heap.field promise settlement.queue with
      | .array r =>
        Eval.update fun m => { m with heap := m.heap.modifyArray r fun a => a.push callback }
      | _ => pure ()
  | _ => pure ()
  return promise

def promiseMethod (call : Caller) (method : PromiseMethod) (receiver : Option Value)
    (args : List Value) : Eval Value :=
  match method with
  | .onResolve => subscribe call .resolved receiver args
  | .onReject => subscribe call .rejected receiver args

end ScriptEngine.Library
