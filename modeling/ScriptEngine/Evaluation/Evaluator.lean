import ScriptEngine.Machine.Eval

/-!
# Evaluators

The three activities that need each other: evaluating expressions, executing statements and calling
values. Each construct is defined for any evaluator of its parts, and tying them together is a
single recursion.
-/
namespace ScriptEngine

structure Evaluator where
  eval : Expr → ScopeRef → Eval Value
  exec : Stmt → ScopeRef → Eval Unit
  call : Value → List Value → Eval Value

namespace Evaluator

/-- Executes statements one after the other in one scope. -/
def execAll (ev : Evaluator) (body : List Stmt) (scope : ScopeRef) : Eval Unit :=
  Eval.forEach (fun s => ev.exec s scope) body

/-- Evaluates expressions from left to right. -/
def evalAll (ev : Evaluator) (exprs : List Expr) (scope : ScopeRef) : Eval (Array Value) :=
  Eval.mapList (fun e => ev.eval e scope) exprs

/-- Never gets anywhere. -/
def exhausted : Evaluator := ⟨fun _ _ => Eval.exhausted, fun _ _ => Eval.exhausted,
  fun _ _ => Eval.exhausted⟩

end Evaluator

end ScriptEngine
