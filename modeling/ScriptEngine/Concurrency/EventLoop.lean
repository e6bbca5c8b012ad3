/-!
# The event loop

Timers wait for their deadline, tasks for their turn. Due timers go first, ordered by deadline and
then by when they were armed; tasks follow in the order they were posted. A counter of outstanding
background work keeps the loop from going idle while a reply is still to come. The clock is never
read here: every operation that depends on the time takes a reading as an argument.
-/
namespace ScriptEngine

/-- A timer as it is handed out. A repeating one has an interval. -/
structure Timer (κ : Type) where
  id : Nat
  callback : κ
  interval : Option Nat
deriving Repr

/-- An armed timer; `order` counts the armings. -/
structure TimerEntry (κ : Type) where
  deadline : Nat
  order : Nat
  timer : Timer κ
deriving Repr

/-- Earlier deadline first, earlier arming first among equal deadlines. -/
def TimerEntry.before {κ : Type} (a b : TimerEntry κ) : Bool :=
  a.deadline < b.deadline || (a.deadline == b.deadline && a.order < b.order)

/-- The state of the loop. -/
structure EventLoop (κ τ : Type) where
  /-- Armed timers, soonest first. -/
  entries : List (TimerEntry κ)
  /-- Timers scheduled and not cancelled, the firing one included. -/
  live : List Nat
  /-- Cancelled timers that are still armed or firing. -/
  cancelled : List Nat
  nextId : Nat
  nextOrder : Nat
  tasks : List τ
  outstanding : Nat
deriving Repr

namespace EventLoop

variable {κ τ : Type}

def empty : EventLoop κ τ := ⟨[], [], [], 1, 0, [], 0⟩

/-- Puts an entry behind all that come before it. -/
def insertEntry (e : TimerEntry κ) : List (TimerEntry κ) → List (TimerEntry κ)
  | [] => [e]
  | x :: rest => if x.before e then x :: insertEntry e rest else e :: x :: rest

/-- Arms a timer. -/
def arm (l : EventLoop κ τ) (deadline : Nat) (t : Timer κ) : EventLoop κ τ :=
  { l with
    entries := insertEntry ⟨deadline, l.nextOrder, t⟩ l.entries
    nextOrder := l.nextOrder + 1 }

/-- Schedules a callback `delay` after `now`, once or repeatedly, and returns its number. -/
def schedule (l : EventLoop κ τ) (now : Nat) (callback : κ) (delay : Nat) (repeating : Bool) :
    Nat × EventLoop κ τ :=
  let t : Timer κ := ⟨l.nextId, callback, if repeating then some delay else none⟩
  (l.nextId, { l with live := l.live ++ [l.nextId], nextId := l.nextId + 1 }.arm (now + delay) t)

/-- Cancels a live timer; others are left alone. -/
def cancel (l : EventLoop κ τ) (id : Nat) : Bool × EventLoop κ τ :=
  if l.live.contains id then
    (true, { l with live := l.live.erase id, cancelled := l.cancelled ++ [id] })
  else (false, l)

/-- Called when the callback of a timer has returned: a repeating timer is armed again, one that
was cancelled meanwhile is forgotten. -/
def rearm (l : EventLoop κ τ) (now : Nat) (t : Timer κ) : EventLoop κ τ :=
  if l.cancelled.contains t.id then { l with cancelled := l.cancelled.erase t.id }
  else
    match t.interval with
    | some interval => l.arm (now + interval) t
    | none => { l with live := l.live.erase t.id }

/-- How many timers are scheduled and neither cancelled nor finished. -/
def pendingTimers (l : EventLoop κ τ) : Nat := l.live.length

/-- Queues a task. -/
def post (l : EventLoop κ τ) (task : τ) : EventLoop κ τ := { l with tasks := l.tasks ++ [task] }

/-- Registers a unit of background work. -/
def beginWork (l : EventLoop κ τ) : EventLoop κ τ := { l with outstanding := l.outstanding + 1 }

/-- Queues the reply of a unit of work and releases the unit in one step. -/
def complete (l : EventLoop κ τ) (task : τ) : EventLoop κ τ :=
  { l with tasks := l.tasks ++ [task], outstanding := l.outstanding - 1 }

/-- Releases a unit of work that ends without a reply. -/
def endWork (l : EventLoop κ τ) : EventLoop κ τ := { l with outstanding := l.outstanding - 1 }

/-- What the loop has for its driver. -/
inductive Ready (κ τ : Type) where
  | timer (t : Timer κ)
  | task (t : τ)
  | idle
  /-- Nothing yet; the next deadline, if a timer is armed. -/
  | wait (deadline : Option Nat)
deriving Repr

/-- Drops cancelled entries that are due, up to the first due timer that is to fire. -/
def takeDue (now : Nat) : List (TimerEntry κ) → List Nat →
    Option (Timer κ) × List (TimerEntry κ) × List Nat
  | [], cancelled => (none, [], cancelled)
  | e :: rest, cancelled =>
    if e.deadline ≤ now then
      if cancelled.contains e.timer.id then takeDue now rest (cancelled.erase e.timer.id)
      else (some e.timer, rest, cancelled)
    else (none, e :: rest, cancelled)

/-- The next thing to do at time `now`. -/
def poll (l : EventLoop κ τ) (now : Nat) : Ready κ τ × EventLoop κ τ :=
  match takeDue now l.entries l.cancelled with
  | (some t, entries, cancelled) => (.timer t, { l with entries, cancelled })
  | (none, entries, cancelled) =>
    match l.tasks with
    | t :: tasks => (.task t, { l with entries, cancelled, tasks })
    | [] =>
      if l.live.isEmpty && l.outstanding == 0 then
        (.idle, { l with entries := [], cancelled := [] })
      else (.wait (entries.head?.map TimerEntry.deadline), { l with entries, cancelled })

/-- Polls while the time passes from one deadline to the next, at most `n` times. -/
def nextWithin : Nat → EventLoop κ τ → Nat → Ready κ τ × Nat × EventLoop κ τ
  | 0, l, now => (.wait none, now, l)
  | n + 1, l, now =>
    match l.poll now with
    | (.wait (some deadline), l) => nextWithin n l (max now deadline)
    | (ready, l) => (ready, now, l)

/-- The next thing to do when nothing comes from outside, and the time by then. Every deadline that
is waited for removes a timer that is no longer wanted or gives one to fire. -/
def next (l : EventLoop κ τ) (now : Nat) : Ready κ τ × Nat × EventLoop κ τ :=
  nextWithin (l.entries.length + 2) l now

end EventLoop

end ScriptEngine
