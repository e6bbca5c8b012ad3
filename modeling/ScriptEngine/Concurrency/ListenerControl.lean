import ScriptEngine.Concurrency.EventLoop

/-!
# Who gives a listener's unit of work back

An open listener counts as one unit of outstanding work. The program that closes it and the thread
that accepts its connections both want to give the unit back when they are done. Two shared flags
say that the listener is to stop and that one of the two was first. Looking at the second flag and
raising it is one step, lowering the counter a later one.
-/
namespace ScriptEngine

/-- What a listener's two sides share. -/
structure ListenerControl where
  stopped : Bool
  released : Bool
deriving DecidableEq, Repr

namespace ListenerControl

variable {κ τ : Type}

def new : ListenerControl := ⟨false, false⟩

/-- Tells the accepting side to stop. -/
def stop (c : ListenerControl) : ListenerControl := { c with stopped := true }

/-- Raises the flag of whoever is first; tells whether it was still down. -/
def claim (c : ListenerControl) : Bool × ListenerControl :=
  (!c.released, { c with released := true })

/-- Gives the unit back unless the other side was first. -/
def release (c : ListenerControl) (l : EventLoop κ τ) : ListenerControl × EventLoop κ τ :=
  match c.claim with
  | (true, c) => (c, l.endWork)
  | (false, c) => (c, l)

end ListenerControl

end ScriptEngine
