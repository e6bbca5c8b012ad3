/-!
# Bounded channels and links

A channel is a queue with room for a fixed number of items and a flag that closes it. What a thread
does to it between taking and giving up its lock is one step here; a step that has to wait leaves
the channel as it is and says so.

A link is a pair of channels. The inbound one carries messages to the worker, the outbound one
carries them back. A spawner keeps the links of its live workers in a table under rising numbers.
-/
namespace ScriptEngine

/-- A first-in first-out queue with room for `capacity` items. -/
structure Channel (α : Type) where
  capacity : Nat
  items : List α
  closed : Bool
deriving Repr

namespace Channel

variable {α : Type}

/-- An open channel; there is always room for one item. -/
def empty (capacity : Nat) : Channel α := ⟨max capacity 1, [], false⟩

/-- What a call of `push` came to. -/
inductive Pushed (α : Type) where
  | stored
  | refused (item : α)
  | mustWait
deriving Repr

/-- Stores the item if there is room, gives it back if the channel is closed, else waits. -/
def push (c : Channel α) (item : α) : Pushed α × Channel α :=
  if c.closed then (.refused item, c)
  else if c.items.length < c.capacity then (.stored, { c with items := c.items ++ [item] })
  else (.mustWait, c)

/-- What a call of `pop` came to; nothing is left when the channel is closed and empty. -/
inductive Popped (α : Type) where
  | item (item : α)
  | nothingLeft
  | mustWait
deriving Repr

/-- Takes the oldest item, and waits for one while the channel is open. -/
def pop (c : Channel α) : Popped α × Channel α :=
  match c.items with
  | x :: rest => (.item x, { c with items := rest })
  | [] => if c.closed then (.nothingLeft, c) else (.mustWait, c)

/-- Takes the oldest item if there is one. -/
def tryPop (c : Channel α) : Option α × Channel α :=
  match c.items with
  | x :: rest => (some x, { c with items := rest })
  | [] => (none, c)

/-- Takes all items. -/
def drain (c : Channel α) : List α × Channel α := (c.items, { c with items := [] })

/-- Refuses further items; those inside can still be taken. -/
def close (c : Channel α) : Channel α := { c with closed := true }

def length (c : Channel α) : Nat := c.items.length

def isEmpty (c : Channel α) : Bool := c.items.isEmpty

end Channel

/-! Links -/

/-- Both directions of a worker's connection. -/
structure Link where
  inbound : Channel String
  outbound : Channel String
deriving Repr

/-- An open link with the same capacity in both directions. -/
def Link.open (capacity : Nat) : Link := ⟨.empty capacity, .empty capacity⟩

/-- Closes both directions. -/
def Link.close (l : Link) : Link := ⟨l.inbound.close, l.outbound.close⟩

/-- The live workers of one spawner, each with what it is reached by. -/
structure WorkerTable (α : Type) where
  lastId : Nat
  workers : List (Nat × α)
deriving Repr

namespace WorkerTable

variable {α : Type}

def empty : WorkerTable α := ⟨0, []⟩

/-- Adds a worker under a number that was never used before. -/
def insert (t : WorkerTable α) (link : α) : Nat × WorkerTable α :=
  (t.lastId + 1, ⟨t.lastId + 1, t.workers ++ [(t.lastId + 1, link)]⟩)

def get? (t : WorkerTable α) (id : Nat) : Option α := t.workers.lookup id

/-- Forgets the worker, and returns it if it was there. -/
def remove (t : WorkerTable α) (id : Nat) : Option α × WorkerTable α :=
  (t.get? id, { t with workers := t.workers.filter fun w => w.1 != id })

def size (t : WorkerTable α) : Nat := t.workers.length

/-- Forgets all workers, and returns them. -/
def clear (t : WorkerTable α) : List α × WorkerTable α :=
  (t.workers.map Prod.snd, { t with workers := [] })

end WorkerTable

/-- The name under which a worker is shown. -/
def workerName (id : Nat) : String := "worker-" ++ toString id

end ScriptEngine
