import ScriptEngine.Proofs.Evaluation.Watch

/-!
# Control signals are contained

Five signals travel the same way, and each has a place that it does not pass: a call takes returned
values and fails on loop words, and a loop takes loop words. Hence expressions and calls only pass
on what was thrown or has failed.
-/
namespace ScriptEngine
open Eval Regime

/-- Signals that may leave an expression or a call. -/
def Signal.leavesCall : Signal → Bool
  | .thrown _ | .failed _ => true
  | .returned _ | .broke | .continued => false

/-- Signals that may leave a loop. -/
def Signal.leavesLoop : Signal → Bool
  | .returned _ | .thrown _ | .failed _ => true
  | .broke | .continued => false

/-- An ending with a value, or with a signal of some kind. -/
def Ending.StopsOnlyBy {α : Type} (p : Signal → Bool) : Ending α → Prop
  | .stopped s _ => p s = true
  | _ => True

theorem free_holds (x : Exhaustion) (m : Machine) : (Regime.free x).Holds () m :=
  ⟨trivial, m.madeOf_any⟩

theorem free_imports (x : Exhaustion) : (Regime.free x).Imports fun _ _ => True where
  global := trivial
  push _ _ := ⟨(), trivial, trivial⟩
  pop _ _ := trivial

theorem free_keeps (n : Nat) : (Regime.free .shared).Keeps () (.bounded n) (.bounded n) :=
  bounded_keeps rfl (fun _ => trivial) (fun _ => trivial) (free_imports .shared) n ()

theorem Regime.Leaves.leavesCall {ι : Type} {R : Regime ι} {s : Signal} (h : R.Leaves s) :
    s.leavesCall = true := by
  cases s with
  | thrown _ | failed _ => rfl
  | _ => exact h.elim

theorem Regime.Escapes.leavesLoop {ι : Type} {R : Regime ι} {s : Signal} (h : R.Escapes s) :
    s.leavesLoop = true := by
  cases s with
  | returned _ | thrown _ | failed _ => rfl
  | _ => exact h.elim

theorem every_stopsOnlyBy {α : Type} {I : Machine → Prop} {V : α → Prop} {S : Signal → Prop}
    {p : Signal → Bool} {y : Eval α} (h : Agree .shared I V S y y) (hS : ∀ s, S s → p s = true)
    {m : Machine} (hm : I m) : (y m).Every (Ending.StopsOnlyBy p) := by
  refine Dialogue.every_mono (h.every hm) fun r hr => ?_
  cases r with
  | stopped s m => exact hS s hr.1
  | _ => trivial

/-- A loop keeps the loop words of its body to itself. -/
theorem loop_stopsOnlyBy (n : Nat) (condition : Expr) (body : Stmt) (step : Option Expr)
    (p : Text.Position) (scope : ScopeRef) (m : Machine) :
    ((Evaluator.bounded n).exec (.loop condition body step p) scope m).Every
      (Ending.StopsOnlyBy Signal.leavesLoop) := by
  cases n with
  | zero => trivial
  | succ n =>
    have h := free_keeps n
    have hloop : Agree .shared ((Regime.free .shared).Holds ()) (fun _ => True)
        (Regime.free .shared).Escapes
        (execStep n (.bounded n) (.loop condition body step p) scope)
        (execStep n (.bounded n) (.loop condition body step p) scope) :=
      loop_agree nofun (.inl rfl) (h.eval condition scope) (fun e _ => h.eval e scope)
        (h.exec body trivial)
    exact every_stopsOnlyBy hloop (fun _ => Escapes.leavesLoop) (free_holds .shared m)

/-- Expressions and calls end with a value, a throw or a failure. Loops do not end with a loop word.
A function call runs the body one level deeper, or fails at the limit; a value that the body returns
becomes the value of this very call, and a loop word that leaves the body becomes a failure. -/
theorem signals_contained (n : Nat) (m : Machine) :
    (∀ e scope, ((Evaluator.bounded n).eval e scope m).Every
      (Ending.StopsOnlyBy Signal.leavesCall)) ∧
    (∀ callee args, ((Evaluator.bounded n).call callee args m).Every
      (Ending.StopsOnlyBy Signal.leavesCall)) ∧
    (∀ condition body step p scope,
      ((Evaluator.bounded n).exec (.loop condition body step p) scope m).Every
        (Ending.StopsOnlyBy Signal.leavesLoop)) ∧
    (∀ decl closure args, callFunction (.bounded n) decl closure args m =
      if m.settings.maxCallDepth ≤ m.depth then
        .finished (.stopped (.failed (.stackOverflow m.settings.maxCallDepth)) m)
      else
        (invoke (.bounded n) decl closure args { m with depth := m.depth + 1 }).bind fun r =>
          .finished r.afterCall) := by
  have h := free_keeps n
  have hm := free_holds .shared m
  refine ⟨fun e scope => ?_, fun callee args => ?_, ?_, fun decl closure args => ?_⟩
  · exact every_stopsOnlyBy (h.eval e scope) (fun _ => Leaves.leavesCall) hm
  · have hcall := h.call callee args callee.madeOf_any fun v _ => v.madeOf_any
    exact every_stopsOnlyBy hcall (fun _ => Leaves.leavesCall) hm
  · exact fun condition body step p scope => loop_stopsOnlyBy n condition body step p scope m
  · exact callFunction_apply (.bounded n) decl closure args m

end ScriptEngine
