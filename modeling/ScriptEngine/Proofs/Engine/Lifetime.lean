import ScriptEngine.Proofs.Engine.Serving
import ScriptEngine.Proofs.Number.Naturals

/-!
# The life of a program

A host runs programs, calls values, fires timers, hands out tasks and runs the event loop, as often
and in whatever order it likes, and at last it drops the program. By then every request that the
program has taken up has got exactly one response.
-/
namespace ScriptEngine
open Eval Desk

/-- What a host can have a program do. -/
inductive Occasion where
  | program (p : Program)
  | call (callee : Value) (args : List Value)
  | timer (t : Timer Value)
  | task (t : Task)
  | loop
  | listen (port : Nat) (handler : Value)

namespace Occasion

def eval (n : Nat) : Occasion → Eval Unit
  | program p => interpret n p
  | call callee args => do discard ((Evaluator.bounded n).call callee args)
  | timer t => fireTimer (.bounded n) t
  | task t => runTask (.bounded n) t
  | loop => runLoop n
  | listen port handler => do discard (Library.listen port handler)

/-- The request that is handed out. -/
def connection? : Occasion → Option ConnectionRef
  | task t => t.connection?
  | _ => none

end Occasion

/-- An occasion on which no request is handed out. -/
theorem Occasion.follows (n : Nat) {o : Occasion} (ho : o.connection? = none) :
    Follows (course (Evaluator.bounded n).call) (o.eval n) := by
  have hev := bounded_follows (Desk.conduct (Evaluator.bounded n).call) n
  cases o with
  | program p => exact interpret_follows n p
  | call callee args => exact Follows.discard (hev.call callee args)
  | timer t => exact fireTimer_follows hev t
  | task t => exact runTask_follows hev ho
  | loop => exact runLoop_follows n
  | listen port handler => exact Follows.discard (Library.listen_follows port handler)

/-- When a program is dropped after a life with this account, nothing is held any more. -/
theorem Desk.Account.drop {call : Library.Caller} {m₀ m₁ : Machine} {log last : List Exchange}
    {es : List Event} {r : Ending Unit} (hfresh : m₀.servers = .empty)
    (h : Account call m₀ log es m₁) (hdrop : (shutDown m₁).Run last r) :
    ∃ m₂, r = .value () m₂ ∧ m₂.servers.held = [] ∧
      Serves ⟨.empty, m₀.desk.queue⟩ (log ++ last) (es ++ drops m₁) m₂.desk := by
  have hserves := h.serves
  have hsound : m₁.servers.Sound :=
    hserves.run.sound (show m₀.servers.Sound from hfresh ▸ ServerTable.sound_empty)
  obtain ⟨m₂, rfl, hheld, hdrops⟩ := shutDown_serves hsound hdrop
  rw [Machine.desk, hfresh] at hserves
  exact ⟨m₂, rfl, hheld, hserves.trans hdrops⟩

/-- A handler that does nothing with its request. -/
def holder : Value := .native 0 (.network .sendReply) none

/-- A handler that does not take the request, so that calling it fails. -/
def refuser : Value := .function 0 (.mk "refuse" [] [] false none .start) .global

/-- The `send` of the first request. -/
def firstSend : Value := .native 0 (.network .sendReply) (some (.object ⟨1⟩))

def visitRequest : Http.Request := ⟨"GET", "/", ""⟩

/-- A request that comes to nobody, one that is held until it is answered, one that is held to the
end, and one whose handler fails. -/
def visits : List Occasion :=
  [.task (.dispatch ⟨1⟩ visitRequest ⟨1⟩), .listen 80 holder,
   .task (.dispatch ⟨1⟩ visitRequest ⟨2⟩), .call firstSend [.text "hi"],
   .task (.dispatch ⟨1⟩ visitRequest ⟨3⟩), .listen 81 refuser,
   .task (.dispatch ⟨2⟩ visitRequest ⟨4⟩)]

end ScriptEngine
