import ScriptEngine.Concurrency.Channel

/-!
# Calls that wait

A channel together with the calls that were made on it in the background. A call that has to wait is
tried again after every change, the oldest first.
-/
namespace ScriptEngine

/-- The calls that may have to wait. -/
inductive ChannelCall (α : Type) where
  | push (item : α)
  | pop
deriving Repr

/-- What such a call returns. -/
inductive ChannelReply (α : Type) where
  | stored
  | refused (item : α)
  | popped (item : Option α)
deriving Repr

/-- Tries a call; none if it has to wait. -/
def Channel.tryCall {α : Type} (c : Channel α) : ChannelCall α → Option (ChannelReply α × Channel α)
  | .push item =>
    match c.push item with
    | (.stored, c) => some (.stored, c)
    | (.refused item, c) => some (.refused item, c)
    | (.mustWait, _) => none
  | .pop =>
    match c.pop with
    | (.item item, c) => some (.popped (some item), c)
    | (.nothingLeft, c) => some (.popped none, c)
    | (.mustWait, _) => none

/-- A channel and its background calls, the oldest first, each with its reply once it has one. -/
structure SharedChannel (α : Type) where
  channel : Channel α
  calls : List (ChannelCall α × Option (ChannelReply α))
deriving Repr

namespace SharedChannel

variable {α : Type}

def empty (capacity : Nat) : SharedChannel α := ⟨.empty capacity, []⟩

/-- Tries all waiting calls once. -/
def tryCalls (c : Channel α) : List (ChannelCall α × Option (ChannelReply α)) →
    List (ChannelCall α × Option (ChannelReply α)) × Channel α
  | [] => ([], c)
  | (call, some reply) :: rest =>
    match tryCalls c rest with
    | (rest, c) => ((call, some reply) :: rest, c)
  | (call, none) :: rest =>
    match c.tryCall call with
    | some (reply, c) =>
      match tryCalls c rest with
      | (rest, c) => ((call, some reply) :: rest, c)
    | none =>
      match tryCalls c rest with
      | (rest, c) => ((call, none) :: rest, c)

/-- Tries the waiting calls `n` times over. -/
def settleWithin : Nat → SharedChannel α → SharedChannel α
  | 0, s => s
  | n + 1, s =>
    match tryCalls s.channel s.calls with
    | (calls, channel) => settleWithin n ⟨channel, calls⟩

/-- Lets every call that no longer has to wait go on. Each round lets one go on, if any can. -/
def settle (s : SharedChannel α) : SharedChannel α := settleWithin (s.calls.length + 1) s

/-- Changes the channel in the foreground. -/
def act {β : Type} (s : SharedChannel α) (f : Channel α → β × Channel α) : β × SharedChannel α :=
  match f s.channel with
  | (b, channel) => (b, settle { s with channel })

/-- Starts a call in the background. -/
def spawn (s : SharedChannel α) (call : ChannelCall α) : SharedChannel α :=
  settle { s with calls := s.calls ++ [(call, none)] }

/-- The reply of the oldest background call, which is then forgotten. -/
def join (s : SharedChannel α) : Option (ChannelReply α) × SharedChannel α :=
  match s.calls with
  | [] => (none, s)
  | (_, reply) :: rest => (reply, { s with calls := rest })

end SharedChannel

end ScriptEngine
