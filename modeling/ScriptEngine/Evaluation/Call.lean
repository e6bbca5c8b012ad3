import ScriptEngine.Evaluation.Access
import ScriptEngine.Evaluation.Evaluator
import ScriptEngine.Evaluation.Matching
import ScriptEngine.Library.Dispatch

/-!
# Calls

A call first checks the number of its arguments. A function runs in a fresh scope inside the one it
was declared in; no more than a fixed number of function calls are active at a time. Calling a class
makes an instance and runs the constructor on it.
-/
namespace ScriptEngine

/-- Binds parameters from left to right: to arguments while there are any, then to defaults, which
see the parameters before them. -/
def bindParams (ev : Evaluator) (scope : ScopeRef) :
    List (Pattern × Option Expr) → List Value → Eval Unit
  | [], _ => Eval.pure ()
  | (p, _) :: params, v :: args => do
    bindPattern scope false p v
    bindParams ev scope params args
  | (p, some default) :: params, [] => do
    bindPattern scope false p (← ev.eval default scope)
    bindParams ev scope params []
  | (p, none) :: params, [] => do
    bindPattern scope false p .nil
    bindParams ev scope params []

/-- Runs the body of a function in a fresh scope. -/
def invoke (ev : Evaluator) (decl : Function) (closure : ScopeRef) (args : List Value) :
    Eval Unit := do
  let scope ← Eval.childScope closure
  bindParams ev scope decl.params args
  ev.execAll decl.body scope

/-- What a function call comes to when its body has ended. A loop word does not leave the call. -/
def callResult : Except Signal Unit → Eval Value
  | .ok () => Eval.pure .nil
  | .error (.returned v) => Eval.pure v
  | .error .broke => Eval.fail (.strayLoopControl .breakWord)
  | .error .continued => Eval.fail (.strayLoopControl .continueWord)
  | .error signal => Eval.stop signal

/-- Counts a call as active while it runs. -/
def counted {α : Type} (x : Eval α) : Eval (Except Signal α) := do
  Eval.update fun m => { m with depth := m.depth + 1 }
  let outcome ← Eval.attempt x
  Eval.update fun m => { m with depth := m.depth - 1 }
  return outcome

/-- Calls a function with a number of arguments that it accepts. -/
def callFunction (ev : Evaluator) (decl : Function) (closure : ScopeRef) (args : List Value) :
    Eval Value := do
  let (depth, limit) ← Eval.read fun m => (m.depth, m.settings.maxCallDepth)
  if limit ≤ depth then Eval.fail (.stackOverflow limit)
  else callResult (← counted (invoke ev decl closure args))

/-- Makes an instance and runs the constructor on it, whose own result is dropped. -/
def instantiate (ev : Evaluator) (cls : Class) (args : List Value) : Eval Value := do
  let object := Value.object (← Eval.newInstance cls .empty)
  match cls.method? "init" with
  | none => return object
  | some method =>
    match ← bindMethod method object with
    | .function _ decl scope =>
      discard (callFunction ev decl scope args)
      return object
    | _ => return object

def callStep (ev : Evaluator) (callee : Value) (args : List Value) : Eval Value :=
  match callee.arity? with
  | none => Eval.fail .notCallable
  | some arity => do
    Eval.ofExcept (arity.check args.length)
    match callee with
    | .function _ decl scope => callFunction ev decl scope args
    | .native _ n receiver => Library.callNative ev.call n receiver args
    | .type cls => instantiate ev cls args
    | _ => Eval.fail .notCallable

end ScriptEngine
